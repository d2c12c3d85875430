/-!
# Bytes and little-endian numbers

A number of `width` bytes is written least significant byte first.  `LittleEndian.value` reads a
list of bytes, `LittleEndian.digits` writes one, and `LittleEndian.read` reads inside an array
without copying.  The writers `uint8`, `uint16`, `uint32` and `uint64` fix the width.
-/

namespace ManagedPdb

/-- The byte at an index, zero beyond the end. -/
def byteAt (content : ByteArray) (index : Nat) : UInt8 :=
  if h : index < content.size then content[index] else 0

namespace LittleEndian

def value : List UInt8 → Nat
  | [] => 0
  | byte :: rest => byte.toNat + 256 * value rest

/-- The `width` lowest bytes of a number. -/
def digits : (width : Nat) → (number : Nat) → List UInt8
  | 0, _ => []
  | width + 1, number => UInt8.ofNat number :: digits width (number / 256)

/-- The number that the `width` bytes from `start` on stand for. -/
def read (content : ByteArray) (start : Nat) : (width : Nat) → Nat
  | 0 => 0
  | width + 1 => (byteAt content start).toNat + 256 * LittleEndian.read content (start + 1) width

end LittleEndian

namespace Bytes

/-- A number in `width` bytes. -/
def number (width value : Nat) : ByteArray := (LittleEndian.digits width value).toByteArray

def uint8 (value : UInt8) : ByteArray := number 1 value.toNat

def uint16 (value : UInt16) : ByteArray := number 2 value.toNat

def uint32 (value : UInt32) : ByteArray := number 4 value.toNat

def uint64 (value : UInt64) : ByteArray := number 8 value.toNat

def concat (pieces : List ByteArray) : ByteArray := pieces.foldl (· ++ ·) ByteArray.empty

def uint32s (values : List UInt32) : ByteArray := concat (values.map uint32)

/-- The text in UTF-8 and a zero byte. -/
def terminated (text : String) : ByteArray := text.toUTF8 ++ uint8 0

def zeros (count : Nat) : ByteArray := ⟨Array.replicate count 0⟩

/-- Cuts the bytes, or fills them up with zeros, to `size`. -/
def resize (bytes : ByteArray) (size : Nat) : ByteArray :=
  bytes.extract 0 size ++ zeros (size - bytes.size)

/-- Fills up with zeros to the next multiple of four. -/
def padded (bytes : ByteArray) : ByteArray := bytes ++ zeros ((4 - bytes.size % 4) % 4)

/-- Writes `piece` over the bytes from `start` on; the size stays if the piece fits. -/
def overwrite (bytes : ByteArray) (start : Nat) (piece : ByteArray) : ByteArray :=
  bytes.extract 0 start ++ piece ++ bytes.extract (start + piece.size) bytes.size

end Bytes

end ManagedPdb
