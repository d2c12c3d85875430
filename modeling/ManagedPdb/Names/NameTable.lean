import ManagedPdb.Reader.Field
import Std.Data.HashMap

/-!
# The name table

The names of source files stand in a string buffer, and a name is known by its offset in it.  The
buckets behind the buffer list the offsets that are names; a bucket that holds zero is empty.
-/

namespace ManagedPdb

/-- Names by their offsets. -/
structure NameTable where
  names : Std.HashMap UInt32 String

namespace NameTable

def signature : UInt32 := 0xeffeeffe

def version : Int32 := 1

/-- The next bucket: an offset and its name, or nothing.  The string buffer of `bufferSize` bytes
starts at `bufferStart`. -/
def readBucket (bufferStart bufferSize : Nat) : Reader (Option (UInt32 × String)) := do
  let id ← Reader.uint32
  if id = 0 then return none
  else
    if bufferSize ≤ id.toNat then Reader.fail (.ofKind (.unknownName id))
    let name ← Reader.terminatedStringAt (bufferStart + id.toNat)
    return some (id, name)

def read : Reader NameTable := do
  let foundSignature ← Reader.uint32
  let foundVersion ← Reader.int32
  let bufferSize ← Reader.uint32
  if foundSignature ≠ signature ∨ foundVersion ≠ version then
    Reader.fail (.ofKind (.invalidNameTable foundSignature foundVersion))
  let bufferStart ← Reader.skip bufferSize.toNat
  let count ← Reader.uint32
  let buckets ← Reader.times count.toNat (readBucket bufferStart bufferSize.toNat)
  return ⟨buckets.foldl (fun names bucket =>
    match bucket with
    | some (id, name) => names.insert id name
    | none => names) ∅⟩

def name? (table : NameTable) (id : UInt32) : Option String := table.names[id]?

end NameTable

end ManagedPdb
