import ManagedPdb.Names.Bitmap
import ManagedPdb.Text.Upper
import Std.Data.HashMap

/-!
# The info stream

The info stream identifies the file and ends with a hash table from stream names to stream
numbers. The table is read slot by slot: a bitmap says which slots are in use, and the entries of
those follow in order.  The names stand in a string buffer in front of the table.  Names that
differ only in case are the same name.
-/

namespace ManagedPdb

/-- The identity of a file and the numbers of its named streams. -/
structure InfoStream where
  version : UInt32
  signature : UInt32
  age : UInt32
  guid : Guid
  /-- Stream numbers by the upper-case form of the name. -/
  streams : Std.HashMap String UInt32

namespace InfoStream

/-- The entry of a slot.  Its name lies in the string buffer of `bufferSize` bytes that starts at
`bufferStart`. -/
def readEntry (bufferStart bufferSize : Nat) : Reader (String × UInt32) := do
  let offset ← Reader.uint32
  let stream ← Reader.uint32
  if bufferSize ≤ offset.toNat then Reader.failAt .unexpectedEnd bufferStart
  let name ← Reader.terminatedStringAt (bufferStart + offset.toNat)
  return (name, stream)

/-- Enters a name; a name that is there already gets the new number. -/
def enter (streams : Std.HashMap String UInt32) (entry : String × UInt32) :
    Std.HashMap String UInt32 :=
  streams.insert (Upper.ofString entry.1) entry.2

def read : Reader InfoStream := do
  let version ← Reader.uint32
  let signature ← Reader.uint32
  let age ← Reader.uint32
  let guid ← Reader.guid
  let bufferSize ← Reader.uint32
  let bufferStart ← Reader.skip bufferSize.toNat
  let count ← Reader.uint32
  let slotCount ← Reader.uint32
  let present ← Bitmap.read
  let deleted ← Bitmap.read
  if !deleted.isEmpty then Reader.failAt .deletedNamesNotEmpty (← Reader.position)
  let entries ← Reader.times (present.membersBelow slotCount.toNat).length
    (readEntry bufferStart bufferSize.toNat)
  let streams := entries.foldl enter ∅
  if streams.size ≠ count.toNat then
    Reader.fail (.ofKind (.nameCountMismatch (UInt32.ofNat streams.size) count))
  return { version, signature, age, guid, streams }

/-- The number of the stream with a name, in whatever case. -/
def stream? (info : InfoStream) (name : String) : Option UInt32 :=
  info.streams[Upper.ofString name]?

end InfoStream

end ManagedPdb
