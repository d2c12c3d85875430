import ManagedPdb.Container.Header

/-!
# Laying out a container

The streams are put into pages one after the other, then the directory, and then the list of
directory pages.  The first page is the header, which can only be written at the end.
-/

namespace ManagedPdb.Layout

/-- Bytes in as many pages as they need, the last one filled up with zeros. -/
def paginate (pageSize : Nat) (bytes : ByteArray) : List ByteArray :=
  (List.range (pagesFor bytes.size pageSize)).map fun index =>
    Bytes.resize (bytes.extract (index * pageSize) ((index + 1) * pageSize)) pageSize

/-- Puts bytes into new pages behind `pages` and gives the numbers of these. -/
def place (pageSize : Nat) (pages : Array ByteArray) (bytes : ByteArray) :
    List UInt32 × Array ByteArray :=
  let new := paginate pageSize bytes
  ((List.range' pages.size new.length).map UInt32.ofNat, pages ++ new.toArray)

/-- Puts all streams into new pages and gives the numbers of these, one stream after the other. -/
def placeAll (pageSize : Nat) (pages : Array ByteArray) :
    (streams : List ByteArray) → List UInt32 × Array ByteArray
  | [] => ([], pages)
  | stream :: streams =>
    let (numbers, pages) := place pageSize pages stream
    let (rest, pages) := placeAll pageSize pages streams
    (numbers ++ rest, pages)

/-- The directory of streams whose pages have the given numbers. -/
def directory (streams : List ByteArray) (numbers : List UInt32) : ByteArray :=
  Bytes.uint32s (UInt32.ofNat streams.length
    :: streams.map (fun stream => UInt32.ofNat stream.size) ++ numbers)

def header (pageSize : UInt32) (pageCount directorySize : Nat) (roots : List UInt32) :
    ByteArray :=
  Bytes.resize (Header.magic
    ++ Bytes.uint32s
      ([pageSize, 1, UInt32.ofNat pageCount, UInt32.ofNat directorySize, 0] ++ roots))
    pageSize.toNat

/-- The container of the given streams. -/
def image (pageSize : UInt32) (streams : List ByteArray) : ByteArray :=
  let size := pageSize.toNat
  let (numbers, pages) := placeAll size #[ByteArray.empty] streams
  let directory := directory streams numbers
  let (directoryPages, pages) := place size pages directory
  let (roots, pages) := place size pages (Bytes.uint32s directoryPages)
  Bytes.concat (pages.setIfInBounds 0 (header pageSize pages.size directory.size roots)).toList

end ManagedPdb.Layout
