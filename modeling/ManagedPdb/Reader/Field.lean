import ManagedPdb.Decimal
import ManagedPdb.Guid
import ManagedPdb.Reader
import ManagedPdb.Text.Utf16

/-!
# Fields

The readers of single values.  Numbers are little-endian; floating-point numbers are kept as their
bits.  Text comes in three forms: UTF-8 behind its 16-bit length, UTF-8 in front of a zero byte, and
UTF-16 in front of a zero unit.  Text that is not well formed is an error at its first byte.
-/

namespace ManagedPdb.Reader

/-! ### Numbers -/

/-- A number of `width` bytes. -/
def word (width : Nat) : Reader Nat := fun content position =>
  if position + width ≤ content.size then
    .done (LittleEndian.read content position width) (position + width)
  else
    .failed (.ofKindAt .unexpectedEnd position) position

def uint8 : Reader UInt8 := return UInt8.ofNat (← word 1)

def uint16 : Reader UInt16 := return UInt16.ofNat (← word 2)

def uint32 : Reader UInt32 := return UInt32.ofNat (← word 4)

def uint64 : Reader UInt64 := return UInt64.ofNat (← word 8)

def int8 : Reader Int8 := return (← uint8).toInt8

def int16 : Reader Int16 := return (← uint16).toInt16

def int32 : Reader Int32 := return (← uint32).toInt32

def int64 : Reader Int64 := return (← uint64).toInt64

/-- The `count` 32-bit numbers that follow.  All of them must be there. -/
def uint32s (count : Nat) : Reader (List UInt32) := fun content position =>
  match skip (count * 4) content position with
  | .done start stop =>
    .done ((List.range count).map fun index =>
      UInt32.ofNat (LittleEndian.read content (start + index * 4) 4)) stop
  | .failed error position => .failed error position

def guid : Reader Guid := fun content position =>
  match skip 16 content position with
  | .done start stop => .done (Guid.ofBytes content start) stop
  | .failed error position => .failed error position

/-- A decimal number in four words. -/
def decimal : Reader Decimal := do
  let flags ← uint32
  let high ← uint32
  let low ← uint32
  let middle ← uint32
  return Decimal.ofWords flags high low middle

/-! ### Text -/

/-- The text of UTF-8 bytes that start at `offset`. -/
def utf8 (bytes : ByteArray) (offset : Nat) : Reader String :=
  match String.fromUTF8? bytes with
  | some text => pure text
  | none => failAt .invalidString offset

/-- Text behind the 16-bit number of its bytes. -/
def countedString : Reader String := do
  let length ← uint16
  let start ← position
  let content ← bytes length.toNat
  utf8 content start

/-- The index of the first zero byte from `index` on. -/
def zeroFrom (content : ByteArray) (index : Nat) : Option Nat :=
  if h : index < content.size then
    if content[index] = 0 then some index else zeroFrom content (index + 1)
  else none
termination_by content.size - index

/-- The bytes in front of the next zero byte; the position moves behind that. -/
def terminatedBytes : Reader ByteArray := fun content position =>
  match zeroFrom content position with
  | some stop => .done (content.extract position stop) (stop + 1)
  | none => .failed (.ofKindAt .unexpectedEnd position) position

/-- Text in front of a zero byte. -/
def terminatedString : Reader String := do
  let start ← position
  let content ← terminatedBytes
  utf8 content start

/-- Moves behind the next zero byte. -/
def skipTerminated : Reader Unit := do
  let _ ← terminatedBytes

/-- The text in front of a zero byte at `target`.  The position stays where it is. -/
def terminatedStringAt (target : Nat) : Reader String := fun content position =>
  match seek target content position with
  | .failed error position => .failed error position
  | .done () target =>
    match terminatedString content target with
    | .done text _ => .done text position
    | .failed error _ => .failed error position

/-- Adds the next unit, or ends if that is zero. -/
def addUnit (units : Array UInt16) : Reader (Array UInt16 ⊕ Array UInt16) := do
  let unit ← uint16
  if unit = 0 then return .inr units else return .inl (units.push unit)

/-- The UTF-16 units in front of a zero unit. -/
def terminatedUnits : Reader (Array UInt16) := iterate addUnit #[]

/-- UTF-16 text in front of a zero unit. -/
def utf16String : Reader String := do
  let start ← position
  let units ← terminatedUnits
  match Utf16.decode units.toList with
  | some text => return text
  | none => failAt .invalidString start

end ManagedPdb.Reader
