import ManagedPdb.Symbol.Metadata

/-!
# Method bodies

A method record announces the offset of the record that ends it, and a block record does the same
for a block.  Between the two ends, records belong to the innermost scope that is open.  A scope
must be closed exactly at its announced end and by an end record; only then is it put into the
scope around it.
-/

namespace ManagedPdb

/-- The most scopes that may be open at a time, the scope of the whole method included. -/
def maxOpenScopes : Nat := 256

/-- A scope whose end has not been reached. -/
structure OpenScope where
  offset : UInt32
  length : UInt32
  /-- The announced offset of its end record. -/
  stop : Nat
  slots : Array Slot := #[]
  constants : Array Constant := #[]
  namespaces : Array String := #[]
  scopes : Array Scope := #[]

/-- The scope with all that was put into it. -/
def OpenScope.close (scope : OpenScope) : Scope where
  offset := scope.offset
  length := scope.length
  slots := scope.slots.toList
  constants := scope.constants.toList
  namespaces := scope.namespaces.toList
  scopes := scope.scopes.toList

/-- A method whose end has not been reached, with its open scopes. -/
structure OpenMethod where
  method : Method
  innermost : OpenScope
  /-- The open scopes around the innermost one, from the inside out. -/
  enclosing : List OpenScope

/-- What a record adds to a method. -/
inductive Entry where
  | block (scope : OpenScope)
  | slot (slot : Slot)
  | constant (constant : Constant)
  | importing (name : String)
  | metadata (metadata : Metadata)
  | skipped

/-- The name at the end of a method record.  A name that is not kept is not read. -/
def Method.readName (keepNames : Bool) : Reader (Option String) :=
  if keepNames then some <$> Reader.terminatedString else pure none

/-- The payload of a method record that ends at `stop`, and the announced offset of the end record;
the position moves to `stop`. -/
def Method.readStart (stop : Nat) (keepNames : Bool) : Reader (Method × Nat) := do
  let _parent ← Reader.uint32
  let bodyStop ← Reader.uint32
  let _next ← Reader.uint32
  let length ← Reader.uint32
  let _debugStart ← Reader.uint32
  let _debugStop ← Reader.uint32
  let token ← Reader.uint32
  let address ← Reader.uint32
  let segment ← Reader.uint16
  let flags ← Reader.uint8
  let _returnRegister ← Reader.uint16
  let name ← Method.readName keepNames
  Reader.seek stop
  let method := {
    token, segment, address, length, flags, name
    scope := default
    usingCounts := []
    forwardToken := none
    forwardModuleToken := none
    iteratorClass := none
    iteratorScopes := []
    asyncInfo := none
    lines := [] }
  return (method, bodyStop.toNat)

namespace OpenMethod

def depth (body : OpenMethod) : Nat := body.enclosing.length + 1

/-- A method of which only the record itself has been read. -/
def ofStart (method : Method) (bodyStop : Nat) : OpenMethod where
  method
  innermost := { offset := 0, length := method.length, stop := bodyStop }
  enclosing := []

/-- The payload of a block record that starts at `position`, inside `body`. -/
def readBlock (body : OpenMethod) (position : Nat) : Reader OpenScope := do
  if maxOpenScopes ≤ body.depth then Reader.failAt (.scopeTooDeep body.depth) position
  let _parent ← Reader.uint32
  let stop ← Reader.uint32
  let length ← Reader.uint32
  let address ← Reader.uint32
  let _segment ← Reader.uint16
  if address < body.method.address then Reader.failAt .invalidScope position
  return { offset := address - body.method.address, length, stop := stop.toNat }

/-- What the record with the given header, which starts at `position`, adds to `body`.  Vendor
records count only directly in the scope of the whole method. -/
def readEntry (body : OpenMethod) (position : Nat) (header : RecordHeader) : Reader Entry := do
  match header.kind with
  | .block => return .block (← body.readBlock position)
  | .slot => return .slot (← Slot.read)
  | .constant => return .constant (← Constant.read)
  | .importing => return .importing (← Reader.terminatedString)
  | .vendor =>
    if body.depth = 1 then return .metadata (← Metadata.read header.stop) else return .skipped
  | _ => return .skipped

/-- Adds an entry: to the innermost scope, to the method, or as the new innermost scope. -/
def add (body : OpenMethod) : Entry → OpenMethod
  | .block scope => { body with innermost := scope, enclosing := body.innermost :: body.enclosing }
  | .slot slot =>
    { body with innermost := { body.innermost with slots := body.innermost.slots.push slot } }
  | .constant constant =>
    { body with innermost :=
        { body.innermost with constants := body.innermost.constants.push constant } }
  | .importing name =>
    { body with innermost :=
        { body.innermost with namespaces := body.innermost.namespaces.push name } }
  | .metadata metadata => { body with method := metadata.apply body.method }
  | .skipped => body

/-- Closes the innermost scope.  The last one to be closed is the scope of the method. -/
def closeInnermost (body : OpenMethod) : OpenMethod ⊕ Method :=
  match body.enclosing with
  | [] => .inr { body.method with scope := body.innermost.close }
  | outer :: enclosing =>
    .inl { body with
      innermost := { outer with scopes := outer.scopes.push body.innermost.close }
      enclosing }

/-- Reads the next record, which must end at `limit` or before: the end record of the innermost
scope if the position is at the announced end, and an entry if it is in front of that. -/
def step (limit : Nat) (body : OpenMethod) : Reader (OpenMethod ⊕ Method) := do
  let position ← Reader.position
  if position < body.innermost.stop then
    let header ← RecordHeader.read limit
    let entry ← body.readEntry position header
    Reader.seek header.stop
    return .inl (body.add entry)
  else if position = body.innermost.stop then
    let header ← RecordHeader.read limit
    if header.kind ≠ .scopeEnd then Reader.failAt (.missingEnd header.kind.code) position
    Reader.seek header.stop
    return body.closeInnermost
  else
    Reader.failAt .notAtEnd position

end OpenMethod

/-- The method whose record ends at `stop`, with its body. -/
def Method.read (stop limit : Nat) (keepNames : Bool) : Reader Method := do
  let (method, bodyStop) ← Method.readStart stop keepNames
  Reader.iterate (OpenMethod.step limit) (OpenMethod.ofStart method bodyStop)

/-- Reads the next record of a symbol region outside of methods: a method, which is put behind the
methods `found`, or a record of no interest. -/
def readMethodOrSkip (limit : Nat) (keepNames : Bool) (found : Array Method) :
    Reader (Array Method) := do
  let header ← RecordHeader.read limit
  match header.kind with
  | .globalMethod | .localMethod => return found.push (← Method.read header.stop limit keepNames)
  | _ =>
    Reader.seek header.stop
    return found

/-- All methods of the symbol region that ends at `limit`, in the order of their records. -/
def readMethods (limit : Nat) (keepNames : Bool) : Reader (List Method) := do
  readSymbolSignature
  let found ← Reader.whileBelow limit (readMethodOrSkip limit keepNames) #[]
  return found.toList

end ManagedPdb
