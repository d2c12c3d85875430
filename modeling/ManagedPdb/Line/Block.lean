import ManagedPdb.Line.Checksum

/-!
# Line blocks

A lines subsection belongs to one place in the code.  Behind its header it holds blocks, one for
each source file that contributes to that code.  A block counts its entries; the entries are stored
first without columns, eight bytes each, and then come the columns of all of them, if the
subsection has columns at all.
-/

namespace ManagedPdb

structure LinesHeader where
  address : UInt32
  segment : UInt16
  hasColumns : Bool
  deriving DecidableEq, Repr

def LinesHeader.read : Reader LinesHeader := do
  let address ← Reader.uint32
  let segment ← Reader.uint16
  let flags ← Reader.uint16
  let _codeSize ← Reader.uint32
  return { address, segment, hasColumns := flags &&& 1 != 0 }

namespace LineRecord

/-- An entry without columns.  The low 24 bits of its second word are the first line, and the seven
bits above them the distance of the last. -/
def read : Reader LineRecord := do
  let offset ← Reader.uint32
  let packed ← Reader.uint32
  let startLine := packed &&& 0x00ffffff
  let distance := (packed &&& 0x7f000000) >>> 24
  return { offset, startLine, endLine := startLine + distance, startColumn := 0, endColumn := 0 }

/-- Adds the columns at the position to each of the given entries. -/
def readColumns (before : Array LineRecord) : (lines : List LineRecord) → Reader (List LineRecord)
  | [] => return before.toList
  | line :: lines => do
    let startColumn ← Reader.uint16
    let endColumn ← Reader.uint16
    readColumns (before.push { line with startColumn, endColumn }) lines

end LineRecord

namespace LineTable

/-- The number of bytes that an entry takes. -/
def entrySize (hasColumns : Bool) : Nat := if hasColumns then 12 else 8

/-- The block at the position, in a subsection that ends at `stop`. -/
def readBlock (checksums : ChecksumTable) (hasColumns : Bool) (stop : Nat) : Reader LineTable := do
  let blockStart ← Reader.position
  let fileId ← Reader.uint32
  let count ← Reader.uint32
  let _blockSize ← Reader.uint32
  let blockStop := (← Reader.position) + count.toNat * entrySize hasColumns
  if stop < blockStop then Reader.failAt .invalidLineBlock blockStart
  let lines ← Reader.times count.toNat LineRecord.read
  let lines ← if hasColumns then LineRecord.readColumns #[] lines else pure lines
  Reader.seek blockStop
  return { fileId, file := checksums.file? fileId, lines }

/-- All blocks from the position to `stop`. -/
def readBlocks (checksums : ChecksumTable) (hasColumns : Bool) (stop : Nat) :
    Reader (List LineTable) := do
  let tables ← Reader.whileBelow stop (fun tables => do
    return tables.push (← readBlock checksums hasColumns stop)) #[]
  return tables.toList

end LineTable

end ManagedPdb
