import ManagedPdb.Bytes
import ManagedPdb.Error

/-!
# Pages

A container is a sequence of bytes that is divided into pages of one size.  A place in it is a page
number and an offset; the offset may go beyond the page.
-/

namespace ManagedPdb

/-- The number of pages of `pageSize` bytes that `length` bytes need. -/
def pagesFor (length pageSize : Nat) : Nat := (length + pageSize - 1) / pageSize

/-- Bytes divided into pages. -/
structure PageFile where
  source : ByteArray
  pageSize : UInt32

namespace PageFile

/-- The number of pages that `length` bytes need. -/
def pagesFor (file : PageFile) (length : UInt32) : UInt32 :=
  UInt32.ofNat (ManagedPdb.pagesFor length.toNat file.pageSize.toNat)

/-- The `count` bytes from `offset` in `page` on.  All of them must be in the source; no bytes are
everywhere. -/
def read (file : PageFile) (page : UInt32) (offset count : Nat) : Except DecodeError ByteArray :=
  let start := page.toNat * file.pageSize.toNat + offset
  if count ≤ file.source.size - start then
    .ok (file.source.extract start (start + count))
  else
    .error (.ofKind .sourceUnreadable)

end PageFile

end ManagedPdb
