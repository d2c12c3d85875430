import ManagedPdb.Container.Header
import ManagedPdb.Container.Stream

/-!
# The stream directory

The directory lists the lengths of all streams and then the pages of each.  It is a stream itself;
its own pages are listed on the root pages that the header names.
-/

namespace ManagedPdb

/-- All streams of a container, by number. -/
structure Directory where
  streams : Array StreamDescriptor
  deriving DecidableEq, Repr

namespace Directory

/-- Gathers the page numbers of the directory from the root pages: as many as are still to be found
from each page, but no more than it holds. -/
def gatherPages (file : PageFile) (before : ByteArray) (toGo : Nat) :
    (roots : List UInt32) → Except DecodeError ByteArray
  | [] => .ok before
  | root :: roots => do
    let count := min toGo (file.pageSize.toNat / 4)
    let piece ← file.read root 0 (count * 4)
    gatherPages file (before ++ piece) (toGo - count) roots

/-- The page list of a stream of `length` bytes. -/
def descriptor (length : UInt32) (pageCount : Nat) : Reader StreamDescriptor :=
  return ⟨length, (← Reader.uint32s pageCount).toArray⟩

/-- The page list of a stream with a stored length.  A length that is not positive as a signed
number stands for a stream without pages. -/
def entry (file : PageFile) (length : UInt32) : Reader StreamDescriptor :=
  if length.toInt32 ≤ 0 then return .empty
  else descriptor length (file.pagesFor length).toNat

/-- Adds the page lists of streams of the given lengths to the streams `before`. -/
def entriesOnto (file : PageFile) (before : Array StreamDescriptor) :
    (lengths : List UInt32) → Reader (Array StreamDescriptor)
  | [] => return before
  | length :: lengths => do
    let stream ← entry file length
    entriesOnto file (before.push stream) lengths

def entries (file : PageFile) : Reader Directory := do
  let count ← Reader.uint32
  let lengths ← Reader.uint32s count.toNat
  return ⟨← entriesOnto file #[] lengths⟩

def decode (file : PageFile) (header : Header) : Except DecodeError Directory := do
  let pageCount := (file.pagesFor header.directorySize).toNat
  let pageList ← gatherPages file ByteArray.empty pageCount header.directoryRoots
  let stream ← (descriptor header.directorySize pageCount).run pageList
  (entries file).run (← stream.content file)

def stream (directory : Directory) (index : UInt32) : Except DecodeError StreamDescriptor :=
  match directory.streams[index.toNat]? with
  | some stream => .ok stream
  | none => .error (.ofKind (.invalidStreamIndex index))

end Directory

/-- A container whose directory is known. -/
structure Container where
  file : PageFile
  directory : Directory

namespace Container

def ofImage (image : ByteArray) : Except DecodeError Container := do
  let header ← Header.decode image
  let file : PageFile := ⟨image, header.pageSize⟩
  return ⟨file, ← Directory.decode file header⟩

def content (container : Container) (index : UInt32) : Except DecodeError ByteArray := do
  (← container.directory.stream index).content container.file

end Container

end ManagedPdb
