import ManagedPdb.Bytes
import ManagedPdb.Text.Hex

/-!
# Globally unique identifiers

Sixteen bytes in four groups.  On disk the first three groups are little-endian numbers, while
the last eight bytes stand in the order in which they are printed; `Guid.ofBytes` and
`Guid.bytes` convert.
-/

namespace ManagedPdb

/-- A globally unique identifier by its groups. -/
structure Guid where
  first : UInt32
  second : UInt16
  third : UInt16
  /-- The last eight bytes, the first of them the most significant. -/
  node : UInt64
  deriving DecidableEq, Repr, Inhabited

namespace Guid

/-- The identifier of sixteen zero bytes, which stands for "not recorded". -/
def nil : Guid := ⟨0, 0, 0, 0⟩

/-- The identifier stored in the sixteen bytes from `start` on. -/
def ofBytes (content : ByteArray) (start : Nat) : Guid where
  first := UInt32.ofNat (LittleEndian.read content start 4)
  second := UInt16.ofNat (LittleEndian.read content (start + 4) 2)
  third := UInt16.ofNat (LittleEndian.read content (start + 6) 2)
  node := (List.range 8).foldl
    (fun node index => node * 256 + (byteAt content (start + 8 + index)).toUInt64) 0

def bytes (guid : Guid) : ByteArray :=
  Bytes.uint32 guid.first ++ Bytes.uint16 guid.second ++ Bytes.uint16 guid.third
    ++ (LittleEndian.digits 8 guid.node.toNat).reverse.toByteArray

/-- Five groups of lower-case digits, joined by hyphens. -/
def text (guid : Guid) : String :=
  let node := Hex.padded 16 guid.node.toNat
  String.ofList (Hex.padded 8 guid.first.toNat ++ ['-'] ++ Hex.padded 4 guid.second.toNat ++ ['-']
    ++ Hex.padded 4 guid.third.toNat ++ ['-'] ++ node.take 4 ++ ['-'] ++ node.drop 4)

end Guid

end ManagedPdb
