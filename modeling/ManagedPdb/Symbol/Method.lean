import ManagedPdb.Line.Table
import ManagedPdb.Symbol.Scope

/-!
# Methods

The debug information of one managed method: where its code lies, its scopes, what the compiler
noted about imports and state machines, and its lines.
-/

namespace ManagedPdb

/-- A range of code in which a hoisted local variable lives. -/
structure IteratorScope where
  offset : UInt32
  length : UInt32
  deriving DecidableEq, Repr

/-- A point at which an asynchronous method waits. -/
structure SyncPoint where
  syncOffset : UInt32
  /-- The token of the method that goes on after the wait. -/
  continuationMethod : UInt32
  continuationOffset : UInt32
  deriving DecidableEq, Repr

/-- The state machine of an asynchronous method. -/
structure AsyncInfo where
  /-- The token of the method that starts the state machine. -/
  kickoffMethod : UInt32
  /-- The offset of the generated handler, zero if there is none. -/
  catchHandlerOffset : UInt32
  syncPoints : List SyncPoint
  deriving DecidableEq, Repr

/-- A place in the code: a section and an offset in it. -/
structure Site where
  segment : UInt16
  address : UInt32
  deriving DecidableEq, Repr

structure Method where
  token : UInt32
  segment : UInt16
  address : UInt32
  length : UInt32
  flags : UInt8
  /-- The name, unless names are dropped. -/
  name : Option String
  /-- The scope of the whole body. -/
  scope : Scope
  /-- The number of imported namespaces at each level of enclosing namespaces. -/
  usingCounts : List UInt16
  /-- The token of the method with the same imports. -/
  forwardToken : Option UInt32
  /-- The token of the method with the imports of the module. -/
  forwardModuleToken : Option UInt32
  iteratorClass : Option String
  iteratorScopes : List IteratorScope
  asyncInfo : Option AsyncInfo
  lines : List LineTable

namespace Method

/-- Where the code of a method starts. -/
def site (method : Method) : Site := ⟨method.segment, method.address⟩

/-- The number of line records in all line tables. -/
def lineCount (method : Method) : Nat :=
  method.lines.foldl (fun count table => count + table.lines.length) 0

end Method

end ManagedPdb
