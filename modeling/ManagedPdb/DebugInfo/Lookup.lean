import ManagedPdb.DebugInfo.Basic

/-!
# Looking up methods

A token may belong to several methods, and the last of them counts.  Methods share imports by
pointing to each other; the imports of a method are those of the method at the end of the chain.
-/

namespace ManagedPdb

/-- The imports of a method. -/
structure UsingInfo where
  token : UInt32
  usingCounts : List UInt16
  /-- The scope of the body of that method. -/
  scope : Scope

namespace UsingInfo

/-- The imported namespaces of all scopes, each scope in front of those inside it. -/
def namespaces (info : UsingInfo) : List String := info.scope.walk.flatMap Scope.namespaces

end UsingInfo

namespace DebugInfo

def methodIndex? (info : DebugInfo) (token : UInt32) : Option Nat := info.lastOfToken[token]?

def method? (info : DebugInfo) (token : UInt32) : Option Method :=
  (info.methodIndex? token).bind (info.methods[·]?)

/-- Follows the chain from a method for at most as many steps. -/
def followForwards (info : DebugInfo) (method : Method) : (steps : Nat) → Option UsingInfo
  | 0 => none
  | steps + 1 =>
    match method.forwardToken with
    | none => some ⟨method.token, method.usingCounts, method.scope⟩
    | some token => (info.method? token).bind (info.followForwards · steps)

/-- The imports of the method with a token.  There are none if the chain meets an unknown token or
goes round, for a chain with more steps than methods meets one of them twice. -/
def usingInfo? (info : DebugInfo) (token : UInt32) : Option UsingInfo :=
  (info.method? token).bind (info.followForwards · (info.methods.size + 1))

def tokenLine (info : DebugInfo) (token : UInt32) : Array TokenLine :=
  info.tokenLines.ofToken token

def source? (info : DebugInfo) (ref : SourceRef) : Option SourceFile := info.sources[ref.index]?

end DebugInfo

end ManagedPdb
