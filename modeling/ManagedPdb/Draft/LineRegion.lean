import ManagedPdb.Line.Block

/-!
# Writing line regions

A line region is written as one checksum subsection and the lines subsections behind it.
-/

namespace ManagedPdb

/-- A line entry to be written.  The last line is at most 127 lines behind the first; a greater
distance is cut. -/
structure LineDraft where
  offset : UInt32
  line : UInt32
  endLine : UInt32
  column : UInt16
  endColumn : UInt16
  deriving DecidableEq, Repr

namespace LineDraft

def single (offset line : UInt32) : LineDraft := ⟨offset, line, line, 0, 0⟩

/-- The distance of the last line from the first. -/
def distance (draft : LineDraft) : UInt32 :=
  if draft.endLine < draft.line then 0 else min (draft.endLine - draft.line) 0x7f

/-- The entry without columns.  The top bit of its second word marks a statement. -/
def bytes (draft : LineDraft) : ByteArray :=
  Bytes.uint32s [draft.offset, draft.line ||| draft.distance <<< 24 ||| 0x80000000]

def columnBytes (draft : LineDraft) : ByteArray :=
  Bytes.uint16 draft.column ++ Bytes.uint16 draft.endColumn

end LineDraft

/-- The entries that one source file contributes. -/
structure LineBlockDraft where
  fileId : UInt32
  entries : List LineDraft
  deriving DecidableEq, Repr

/-- A line block with its header. -/
def LineBlockDraft.bytes (hasColumns : Bool) (block : LineBlockDraft) : ByteArray :=
  let size := block.entries.length * LineTable.entrySize hasColumns
  Bytes.uint32s [block.fileId, UInt32.ofNat block.entries.length, 12 + UInt32.ofNat size]
    ++ Bytes.concat (block.entries.map LineDraft.bytes)
    ++ Bytes.concat (if hasColumns then block.entries.map LineDraft.columnBytes else [])

/-- The content of the checksum subsection, and the lines subsections. -/
structure LineRegion where
  checksums : ByteArray
  lines : ByteArray

namespace LineRegion

def empty : LineRegion := ⟨ByteArray.empty, ByteArray.empty⟩

def nextFileId (region : LineRegion) : UInt32 := UInt32.ofNat region.checksums.size

/-- Adds a checksum record.  The length of the checksum is kept in eight bits. -/
def addChecksum (region : LineRegion) (nameId : UInt32) (kind : UInt8) (checksum : ByteArray) :
    LineRegion :=
  { region with checksums := Bytes.padded (region.checksums ++ Bytes.uint32 nameId
      ++ Bytes.uint8 (UInt8.ofNat checksum.size) ++ Bytes.uint8 kind ++ checksum) }

def linesPayload (segment : UInt16) (address codeSize : UInt32) (blocks : List LineBlockDraft)
    (hasColumns : Bool) : ByteArray :=
  Bytes.uint32 address ++ Bytes.uint16 segment ++ Bytes.uint16 (if hasColumns then 1 else 0)
    ++ Bytes.uint32 codeSize ++ Bytes.concat (blocks.map (LineBlockDraft.bytes hasColumns))

/-- Adds a lines subsection for the code at a place. -/
def addLines (region : LineRegion) (segment : UInt16) (address codeSize : UInt32)
    (blocks : List LineBlockDraft) (hasColumns : Bool) : LineRegion :=
  let payload := linesPayload segment address codeSize blocks hasColumns
  { region with lines := Bytes.padded (region.lines ++ Bytes.uint32 Subsection.linesKind
      ++ Bytes.uint32 (UInt32.ofNat payload.size) ++ payload) }

/-- The whole region.  Without checksum records there is no checksum subsection. -/
def bytes (region : LineRegion) : ByteArray :=
  if region.checksums.size = 0 then region.lines
  else
    Bytes.uint32 Subsection.checksumsKind
      ++ Bytes.uint32 (UInt32.ofNat region.checksums.size) ++ region.checksums ++ region.lines

end LineRegion

end ManagedPdb
