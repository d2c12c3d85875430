import ManagedPdb.Container.Directory
import ManagedPdb.Cursor

/-!
# Staging streams

The streams of a container are read into a cursor, one after the other.  Its buffer is not cleared
in between: the pages of a stream are written over what earlier streams have left there, and the
length of the stream says where the content ends.
-/

namespace ManagedPdb

/-- Decoding with a cursor that is used again for every stream.  The first error ends it. -/
abbrev Staging : Type → Type := StateT Cursor (Except DecodeError)

namespace Staging

variable {α : Type}

/-- Runs a reader on the content of the cursor, from its position on. -/
def read (reader : Reader α) : Staging α := fun cursor =>
  match cursor.run reader with
  | (.ok value, cursor) => .ok (value, cursor)
  | (.error error, _) => .error error

end Staging

namespace StreamDescriptor

/-- Writes the parts of the first `stop` bytes of a stream that lie in the next `count` pages, of
which `page` is the first, to their places in a buffer. -/
def writePages (stream : StreamDescriptor) (file : PageFile) (stop : Nat) (buffer : ByteArray) :
    (count page : Nat) → Except DecodeError ByteArray
  | 0, _ => .ok buffer
  | count + 1, page =>
    let first := page * file.pageSize.toNat
    let high := min stop (first + file.pageSize.toNat)
    match stream.pages[page]? with
    | none => .error (.ofKind (.streamOutOfBounds 0 stop))
    | some number =>
      match file.read number 0 (high - first) with
      | .ok piece =>
        writePages stream file stop (Bytes.overwrite buffer first piece) count (page + 1)
      | .error error => .error (error.locate (number.toNat * file.pageSize.toNat))

/-- Makes a stream the content of the cursor.  The buffer grows if the stream is longer; if it is
shorter, the bytes behind it stay. -/
def load (stream : StreamDescriptor) (file : PageFile) : Staging Unit := fun cursor => do
  let length := stream.length.toNat
  let count := if length = 0 then 0 else (length - 1) / file.pageSize.toNat + 1
  let buffer ← stream.writePages file length (cursor.grow length).buffer count 0
  return ((), { buffer, length, position := 0 })

/-- Runs a reader on a stream from its start. -/
def stage {α : Type} (stream : StreamDescriptor) (file : PageFile) (reader : Reader α) :
    Staging α := do
  stream.load file
  Staging.read reader

end StreamDescriptor

/-- Runs a reader on the stream with a number. -/
def Container.stage {α : Type} (container : Container) (index : UInt32) (reader : Reader α) :
    Staging α := do
  let stream ← container.directory.stream index
  stream.stage container.file reader

end ManagedPdb
