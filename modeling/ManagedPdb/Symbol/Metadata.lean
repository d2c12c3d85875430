import ManagedPdb.Symbol.Method
import ManagedPdb.Symbol.Record

/-!
# Custom metadata

A compiler attaches more information to a method in vendor records.  The record named `MD2` is a
list of items, each with its own version, kind and size; the record named `asyncMethodInfo`
describes a state machine.  Records with other names say nothing that is known.
-/

namespace ManagedPdb

/-- One item of an `MD2` record. -/
inductive MetadataItem where
  | usingCounts (counts : List UInt16)
  | forward (token : UInt32)
  | forwardToModule (token : UInt32)
  | iteratorScopes (scopes : List IteratorScope)
  | iteratorClass (name : String)
  | unknown (kind : UInt8)
  deriving DecidableEq, Repr

/-- What a vendor record says about a method. -/
inductive Metadata where
  | items (items : List MetadataItem)
  | asynchronous (info : AsyncInfo)
  | unknown (name : String)
  deriving DecidableEq, Repr

def metadataVersion : UInt8 := 4

namespace MetadataItem

/-- A range, stored as its two ends, of an item that starts at `itemStart`. -/
def readRange (itemStart : Nat) : Reader IteratorScope := do
  let offset ← Reader.uint32
  let stop ← Reader.uint32
  if stop < offset then Reader.failAt .invalidCustomMetadata itemStart
  return { offset, length := stop - offset }

/-- What an item of a kind holds. -/
def readPayload (itemStart : Nat) (kind : UInt8) : Reader MetadataItem := do
  if kind = 0 then
    let count ← Reader.uint16
    return .usingCounts (← Reader.times count.toNat Reader.uint16)
  else if kind = 1 then return .forward (← Reader.uint32)
  else if kind = 2 then return .forwardToModule (← Reader.uint32)
  else if kind = 3 then
    let count ← Reader.uint32
    return .iteratorScopes (← Reader.times count.toNat (readRange itemStart))
  else if kind = 4 then return .iteratorClass (← Reader.utf16String)
  else return .unknown kind

/-- The item at the position, in a record that ends at `stop`. -/
def read (stop : Nat) : Reader MetadataItem := do
  let start ← Reader.position
  let version ← Reader.uint8
  if version ≠ metadataVersion then
    Reader.failAt (.unsupportedMetadataVersion version) start
  let kind ← Reader.uint8
  Reader.align 4
  let size ← Reader.uint32
  let itemStop := start + size.toNat
  if stop < itemStop ∨ itemStop < (← Reader.position) then
    Reader.failAt .invalidCustomMetadata start
  let item ← readPayload start kind
  Reader.seek itemStop
  return item

def apply (method : Method) : MetadataItem → Method
  | usingCounts counts => { method with usingCounts := counts }
  | forward token => { method with forwardToken := some token }
  | forwardToModule token => { method with forwardModuleToken := some token }
  | iteratorScopes scopes => { method with iteratorScopes := scopes }
  | iteratorClass name => { method with iteratorClass := some name }
  | unknown _ => method

end MetadataItem

/-- A wait point. -/
def SyncPoint.read : Reader SyncPoint :=
  return { syncOffset := ← Reader.uint32, continuationMethod := ← Reader.uint32
           continuationOffset := ← Reader.uint32 }

def AsyncInfo.read : Reader AsyncInfo := do
  let kickoffMethod ← Reader.uint32
  let catchHandlerOffset ← Reader.uint32
  let count ← Reader.uint32
  let syncPoints ← Reader.times count.toNat SyncPoint.read
  return { kickoffMethod, catchHandlerOffset, syncPoints }

namespace Metadata

/-- The body of an `MD2` record that ends at `stop`.  A record of another version has no items. -/
def readItems (stop : Nat) : Reader (List MetadataItem) := do
  let version ← Reader.uint8
  if version ≠ metadataVersion then return []
  else
    let count ← Reader.uint8
    Reader.align 4
    Reader.times count.toNat (MetadataItem.read stop)

/-- The body of a vendor record with a name, which ends at `stop`. -/
def readBody (stop : Nat) (name : String) : Reader Metadata := do
  if name = "MD2" then return .items (← readItems stop)
  else if name = "asyncMethodInfo" then return .asynchronous (← AsyncInfo.read)
  else return .unknown name

/-- The payload of a vendor record that ends at `stop`. -/
def read (stop : Nat) : Reader Metadata := do
  let name ← readVendorName
  readBody stop name

/-- Enters what a record says into a method; later records and items win. -/
def apply (method : Method) : Metadata → Method
  | items list => list.foldl MetadataItem.apply method
  | asynchronous info => { method with asyncInfo := some info }
  | unknown _ => method

end Metadata

end ManagedPdb
