import ManagedPdb.Line.Subsection
import ManagedPdb.Line.Table
import Std.Data.HashMap

/-!
# Checksum records

The checksum subsections of a module list its source files.  Line tables refer to a file by the
offset of its record in the subsection.  Which file a record stands for is for a loader to say,
which keeps a state of its own.
-/

namespace ManagedPdb

/-- Says which file a record with a name, checksum kind and checksum stands for. -/
abbrev SourceLoader (σ : Type) : Type :=
  UInt32 → UInt8 → ByteArray → σ → Except DecodeError (SourceRef × σ)

/-- The source files of a module by the offsets of their records. -/
abbrev ChecksumTable : Type := Std.HashMap UInt32 SourceRef

namespace ChecksumTable

variable {σ : Type}

/-- Reads the next record of a subsection that starts at `start`, enters its file and moves over the
padding. -/
def readRecord (load : SourceLoader σ) (start : Nat) (state : ChecksumTable × σ) :
    Reader (ChecksumTable × σ) := do
  let (files, sources) := state
  let fileId := UInt32.ofNat ((← Reader.position) - start)
  let nameId ← Reader.uint32
  let length ← Reader.uint8
  let kind ← Reader.uint8
  let checksum ← Reader.bytes length.toNat
  let (file, sources) ← Reader.ofExcept (load nameId kind checksum sources)
  Reader.align 4
  return (files.insert fileId file, sources)

def readSubsections (load : SourceLoader σ) (state : ChecksumTable × σ) :
    (subsections : List Subsection) → Reader (ChecksumTable × σ)
  | [] => return state
  | subsection :: rest => do
    Reader.seek subsection.start
    let state ← Reader.whileBelow subsection.stop (readRecord load subsection.start) state
    readSubsections load state rest

/-- The source files of the module whose line region is `start … stop`. -/
def read (load : SourceLoader σ) (start stop : Nat) (sources : σ) :
    Reader (ChecksumTable × σ) := do
  let subsections ← Subsection.readKind Subsection.checksumsKind start stop
  readSubsections load (∅, sources) subsections

/-- The file whose record stands at an offset. -/
def file? (table : ChecksumTable) (fileId : UInt32) : Option SourceRef := table[fileId]?

end ChecksumTable

end ManagedPdb
