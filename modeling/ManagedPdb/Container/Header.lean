import ManagedPdb.Container.Page
import ManagedPdb.Reader.Field

/-!
# The container header

The first page starts with a signature and five numbers.  They announce the page size and the
length of the stream directory.  The directory is paged, and so is the list of its pages; the
header ends with the numbers of the pages that hold that list.
-/

namespace ManagedPdb

/-- Where the stream directory is to be found. -/
structure Header where
  pageSize : UInt32
  directorySize : UInt32
  /-- The pages that hold the list of directory pages. -/
  directoryRoots : List UInt32
  deriving DecidableEq, Repr

namespace Header

def magic : ByteArray := "Microsoft C/C++ MSF 7.00\r\n\x1aDS\x00\x00\x00".toUTF8

/-- The length of the signature and the five numbers. -/
def fixedSize : Nat := 52

/-- A power of two from 512 to 65536. -/
def isPageSize (size : UInt32) : Bool :=
  size &&& (size - 1) == 0 && 512 ≤ size && size ≤ 65536

/-- The page size and the length of the directory, from the fixed part of the header. -/
def fixedPart : Reader (UInt32 × UInt32) := do
  let signature ← Reader.bytes magic.size
  if signature != magic then Reader.fail (.ofKind .invalidMagic)
  let pageSize ← Reader.uint32
  let _freePageMap ← Reader.uint32
  let _pageCount ← Reader.uint32
  let directorySize ← Reader.uint32
  let _reserved ← Reader.uint32
  if !isPageSize pageSize then Reader.fail (.ofKind (.invalidPageSize pageSize))
  return (pageSize, directorySize)

/-- The number of pages that hold the list of directory pages, with four bytes for each of them. -/
def rootCount (pageSize directorySize : UInt32) : Nat :=
  pagesFor (pagesFor directorySize.toNat pageSize.toNat * 4) pageSize.toNat

/-- The first `count` bytes of `source` from `start` on. -/
def bytesOf (source : ByteArray) (start count : Nat) : Except DecodeError ByteArray :=
  PageFile.read ⟨source, 0⟩ 0 start count

def decode (source : ByteArray) : Except DecodeError Header := do
  let (pageSize, directorySize) ← fixedPart.run (← bytesOf source 0 fixedSize)
  let count := rootCount pageSize directorySize
  let directoryRoots ← (Reader.uint32s count).run (← bytesOf source fixedSize (count * 4))
  return { pageSize, directorySize, directoryRoots }

end Header

end ManagedPdb
