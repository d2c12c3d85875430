import ManagedPdb.Error
import ManagedPdb.Symbol.Method

/-!
# Token remapping

A file may come with a table of new row numbers for method tokens, indexed by the old row number,
which is in the low 24 bits of a token.  The new token is always a method definition token.
-/

namespace ManagedPdb

/-- A change of method tokens: by a table, or none at all. -/
structure TokenRemap where
  table : Option (Array UInt32)
  deriving DecidableEq, Repr

namespace TokenRemap

def identity : TokenRemap := ⟨none⟩

/-- A change by a table of new rows. -/
def ofTable (table : List UInt32) : TokenRemap := ⟨some table.toArray⟩

def isIdentity (remap : TokenRemap) : Bool := remap.table.isNone

/-- The mark of method definition tokens. -/
def methodMark : UInt32 := 0x06000000

def row (token : UInt32) : Nat := (token &&& 0x00ffffff).toNat

def remap (remap : TokenRemap) (token : UInt32) : Except DecodeError UInt32 :=
  match remap.table with
  | none => .ok token
  | some table =>
    match table[row token]? with
    | some newRow => .ok (methodMark ||| newRow)
    | none => .error (.ofKind (.tokenRemapOutOfRange token))

/-- The new token for an old one that may be missing. -/
def remapOption (remap : TokenRemap) : Option UInt32 → Except DecodeError (Option UInt32)
  | none => .ok none
  | some token => some <$> remap.remap token

/-- Changes the tokens of a state machine. -/
def remapAsync (remap : TokenRemap) (info : AsyncInfo) : Except DecodeError AsyncInfo := do
  let kickoffMethod ← remap.remap info.kickoffMethod
  let syncPoints ← info.syncPoints.mapM fun point => do
    return { point with continuationMethod := ← remap.remap point.continuationMethod }
  return { info with kickoffMethod, syncPoints }

def apply (remap : TokenRemap) (method : Method) : Except DecodeError Method := do
  let token ← remap.remap method.token
  let forwardToken ← remap.remapOption method.forwardToken
  let forwardModuleToken ← remap.remapOption method.forwardModuleToken
  let asyncInfo ←
    match method.asyncInfo with
    | none => pure none
    | some info => some <$> remap.remapAsync info
  return { method with token, forwardToken, forwardModuleToken, asyncInfo }

end TokenRemap

end ManagedPdb
