import ManagedPdb.Line.Checksum
import ManagedPdb.Symbol.Record
import Std.Data.TreeMap

/-!
# Token lines

One module may say where types and members are written down.  Its records are vendor records named
`TSLI`; they refer to source files through the checksum records of that same module.
-/

namespace ManagedPdb

/-- The name of the module with token lines. -/
def tokenLineModule : String := "TokenSourceLineInfo"

/-- The name of the vendor records that hold token lines. -/
def tokenLineFormat : String := "TSLI"

/-- A source range of a token. -/
structure TokenLine where
  /-- The offset of the file's checksum record. -/
  fileId : UInt32
  file : Option SourceRef
  line : UInt32
  column : UInt32
  endLine : UInt32
  endColumn : UInt32
  deriving DecidableEq, Repr

/-- Source ranges by token, those of one token in the order of their records. -/
abbrev TokenLines : Type := Std.TreeMap UInt32 (Array TokenLine)

namespace TokenLine

/-- The token and the range of a record; its file is not known yet. -/
def read : Reader (UInt32 × TokenLine) := do
  let token ← Reader.uint32
  let fileId ← Reader.uint32
  let line ← Reader.uint32
  let column ← Reader.uint32
  let endLine ← Reader.uint32
  let endColumn ← Reader.uint32
  return (token, { fileId, file := none, line, column, endLine, endColumn })

/-- Reads the next record of a symbol region that ends at `limit` and puts its range, if it has one,
behind the ranges `found`. -/
def readRecord (limit : Nat) (found : Array (UInt32 × TokenLine)) :
    Reader (Array (UInt32 × TokenLine)) := do
  let header ← RecordHeader.read limit
  let found ←
    if header.kind = .vendor then do
      let name ← readVendorName
      if name = tokenLineFormat then pure (found.push (← read)) else pure found
    else pure found
  Reader.seek header.stop
  return found

/-- All ranges of a symbol region, in the order of their records and without files. -/
def readAll (limit : Nat) : Reader (List (UInt32 × TokenLine)) := do
  readSymbolSignature
  let found ← Reader.whileBelow limit (readRecord limit) #[]
  return found.toList

/-- The range with its file from the checksum records of its module. -/
def resolve (checksums : ChecksumTable) (line : TokenLine) : TokenLine :=
  { line with file := checksums.file? line.fileId }

end TokenLine

namespace TokenLines

def ofToken (lines : TokenLines) (token : UInt32) : Array TokenLine := lines[token]?.getD #[]

/-- Puts a range behind those of its token. -/
def add (lines : TokenLines) (entry : UInt32 × TokenLine) : TokenLines :=
  lines.insert entry.1 ((lines.ofToken entry.1).push entry.2)

end TokenLines

end ManagedPdb
