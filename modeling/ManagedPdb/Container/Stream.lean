import ManagedPdb.Container.Page

/-!
# Streams

A stream is a logical sequence of bytes: its length and the pages that hold it, in any order and
anywhere in the container.  A read is cut at page boundaries; each touched page gives the part of
the range that lies in it.
-/

namespace ManagedPdb

/-- The length of a stream and the pages that hold it. -/
structure StreamDescriptor where
  length : UInt32
  pages : Array UInt32
  deriving DecidableEq, Repr

namespace StreamDescriptor

def empty : StreamDescriptor := ⟨0, #[]⟩

def isEmpty (stream : StreamDescriptor) : Bool := stream.length == 0

/-- Puts the parts of the logical range `start … stop` that lie in the next `count` pages, of which
`page` is the first, behind the bytes `before`. -/
def readPages (stream : StreamDescriptor) (file : PageFile) (start stop : Nat)
    (before : ByteArray) : (count page : Nat) → Except DecodeError ByteArray
  | 0, _ => .ok before
  | count + 1, page =>
    let first := page * file.pageSize.toNat
    let low := max start first
    let high := min stop (first + file.pageSize.toNat)
    match stream.pages[page]? with
    | none => .error (.ofKind (.streamOutOfBounds (UInt32.ofNat start) (stop - start)))
    | some number =>
      match file.read number (low - first) (high - low) with
      | .ok piece => readPages stream file start stop (before ++ piece) count (page + 1)
      | .error error => .error (error.locate (number.toNat * file.pageSize.toNat))

/-- The `count` bytes of content from `position` on. -/
def read (stream : StreamDescriptor) (file : PageFile) (position : UInt32) (count : Nat) :
    Except DecodeError ByteArray :=
  let start := position.toNat
  let stop := start + count
  if stream.length.toNat < stop then
    .error (.ofKind (.streamOutOfBounds position count))
  else if count = 0 then
    .ok ByteArray.empty
  else
    let first := start / file.pageSize.toNat
    let last := (stop - 1) / file.pageSize.toNat
    stream.readPages file start stop ByteArray.empty (last - first + 1) first

def content (stream : StreamDescriptor) (file : PageFile) : Except DecodeError ByteArray :=
  stream.read file 0 stream.length.toNat

end StreamDescriptor

end ManagedPdb
