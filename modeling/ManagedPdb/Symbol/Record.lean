import ManagedPdb.Reader.Field

/-!
# Symbol records

Every record of a symbol region is framed by its length and kind; the length counts the kind and the
payload.  A frame counts only inside the region, and the payload is read before the position is
set to the announced end.  Vendor records (`RecordKind.vendor`) start with the vendor's identifier
and a name that says what they hold.
-/

namespace ManagedPdb

/-- The kinds of records that matter for managed code. -/
inductive RecordKind where
  | scopeEnd
  /-- A record in a vendor's own format. -/
  | vendor
  /-- The start of a block inside a method. -/
  | block
  | slot
  | importing
  /-- The start of a method that other modules can see. -/
  | globalMethod
  /-- The start of a method of this module alone. -/
  | localMethod
  | constant
  | other (code : UInt16)
  deriving DecidableEq, Repr

namespace RecordKind

def ofCode (code : UInt16) : RecordKind :=
  if code = 0x0006 then scopeEnd
  else if code = 0x0404 then vendor
  else if code = 0x1103 then block
  else if code = 0x1120 then slot
  else if code = 0x1124 then importing
  else if code = 0x112a then globalMethod
  else if code = 0x112b then localMethod
  else if code = 0x112d then constant
  else other code

def code : RecordKind → UInt16
  | scopeEnd => 0x0006
  | vendor => 0x0404
  | block => 0x1103
  | slot => 0x1120
  | importing => 0x1124
  | globalMethod => 0x112a
  | localMethod => 0x112b
  | constant => 0x112d
  | other code => code

end RecordKind

/-- The frame of a record: its kind and the offset of the record behind it. -/
structure RecordHeader where
  kind : RecordKind
  stop : Nat
  deriving DecidableEq, Repr

/-- The header of the record at the position.  The record must end at `limit` or before. -/
def RecordHeader.read (limit : Nat) : Reader RecordHeader := do
  let start ← Reader.position
  let length ← Reader.uint16
  let code ← Reader.uint16
  let stop := start + 2 + length.toNat
  if limit < stop then Reader.failAt .unexpectedEnd start
  return { kind := .ofCode code, stop }

/-- The first word of every symbol region. -/
def symbolSignature : UInt32 := 4

/-- Goes to the start of the symbol region and checks its first word. -/
def readSymbolSignature : Reader Unit := do
  Reader.seek 0
  let signature ← Reader.uint32
  if signature ≠ symbolSignature then
    Reader.failAt (.invalidModuleSignature signature) 0

/-- The vendor of records about managed code. -/
def managedVendor : Guid := ⟨0xc6ea3fc9, 0x59b3, 0x49d6, 0xbc250902bbabb460⟩

/-- The start of a vendor record: the vendor, a type index that means nothing here, and the name of
the format.  There is only one known vendor. -/
def readVendorName : Reader String := do
  let start ← Reader.position
  let vendor ← Reader.guid
  if vendor ≠ managedVendor then Reader.failAt .unknownOemVendor start
  let _typeIndex ← Reader.uint32
  Reader.utf16String

end ManagedPdb
