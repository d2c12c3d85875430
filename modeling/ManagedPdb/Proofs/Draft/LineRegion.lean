import ManagedPdb.Draft.LineRegion
import ManagedPdb.Proofs.Bytes

/-!
# Line regions that were written

Checksum records and lines subsections may be added in any order.  What is written is one row of
subsections: first the checksum records, if there are any, then the lines in the order in which they
were added (`LineRegion.bytes_ofCommands`).
-/

namespace ManagedPdb

/-- A checksum record to be written. -/
structure ChecksumDraft where
  nameId : UInt32
  kind : UInt8
  checksum : ByteArray

/-- A lines subsection to be written. -/
structure LinesDraft where
  segment : UInt16
  address : UInt32
  codeSize : UInt32
  blocks : List LineBlockDraft
  hasColumns : Bool

/-- A subsection to be written. -/
structure SubsectionDraft where
  kind : UInt32
  payload : ByteArray

/-- One step in writing a line region. -/
inductive LineCommand where
  | checksum (draft : ChecksumDraft)
  | lines (draft : LinesDraft)

namespace LineCommand

/-- The checksum records among the commands. -/
def checksums : (commands : List LineCommand) → List ChecksumDraft
  | [] => []
  | checksum draft :: rest => draft :: checksums rest
  | lines _ :: rest => checksums rest

/-- The lines subsections among the commands. -/
def linesOf : (commands : List LineCommand) → List LinesDraft
  | [] => []
  | checksum _ :: rest => linesOf rest
  | lines draft :: rest => draft :: linesOf rest

end LineCommand

namespace LineRegion

def apply (region : LineRegion) : LineCommand → LineRegion
  | .checksum draft => region.addChecksum draft.nameId draft.kind draft.checksum
  | .lines draft =>
    region.addLines draft.segment draft.address draft.codeSize draft.blocks draft.hasColumns

def ofCommands (commands : List LineCommand) : LineRegion := commands.foldl apply empty

/-- The file ids that are given back when the commands are written behind a region. -/
def fileIds (region : LineRegion) : (commands : List LineCommand) → List UInt32
  | [] => []
  | .checksum draft :: rest => region.nextFileId :: fileIds (region.apply (.checksum draft)) rest
  | .lines draft :: rest => fileIds (region.apply (.lines draft)) rest

end LineRegion

/-! ### Padding -/

namespace Bytes

theorem size_padded_mod_four (bytes : ByteArray) : (padded bytes).size % 4 = 0 := by
  rw [size_padded]
  omega

/-- Bytes that end at a multiple of four leave the padding to what follows. -/
theorem padded_append {left right : ByteArray} (aligned : left.size % 4 = 0) :
    padded (left ++ right) = left ++ padded right := by
  have hsize : (left ++ right).size % 4 = right.size % 4 := by
    rw [ByteArray.size_append]
    omega
  rw [padded, padded, hsize, ByteArray.append_assoc]

theorem padded_of_aligned {bytes : ByteArray} (aligned : bytes.size % 4 = 0) :
    padded bytes = bytes := by
  have hempty : padded (bytes ++ .empty) = bytes ++ padded .empty := padded_append aligned
  rwa [ByteArray.append_empty, show padded ByteArray.empty = .empty from rfl,
    ByteArray.append_empty] at hempty

/-- A row of pieces that end at multiples of four. -/
theorem size_concat_mod_four {pieces : List ByteArray}
    (aligned : ∀ piece ∈ pieces, piece.size % 4 = 0) : (concat pieces).size % 4 = 0 := by
  induction pieces with
  | nil => rfl
  | cons piece pieces ih =>
    rw [List.forall_mem_cons] at aligned
    have hrest := ih aligned.2
    rw [concat_cons, ByteArray.size_append]
    omega

theorem size_le_size_concat {piece : ByteArray} {pieces : List ByteArray}
    (member : piece ∈ pieces) : piece.size ≤ (concat pieces).size := by
  obtain ⟨before, after, rfl⟩ := List.append_of_mem member
  rw [concat_append, concat_cons, ByteArray.size_append, ByteArray.size_append]
  omega

end Bytes

/-! ### Records and subsections -/

namespace ChecksumDraft

def bytes (draft : ChecksumDraft) : ByteArray :=
  Bytes.padded (Bytes.uint32 draft.nameId ++ Bytes.uint8 (UInt8.ofNat draft.checksum.size)
    ++ Bytes.uint8 draft.kind ++ draft.checksum)

theorem size_bytes_mod_four (draft : ChecksumDraft) : draft.bytes.size % 4 = 0 :=
  Bytes.size_padded_mod_four _

theorem size_bytes_pos (draft : ChecksumDraft) : 0 < draft.bytes.size := by
  rw [bytes, Bytes.size_padded]
  simp only [ByteArray.size_append, Bytes.size_uint32]
  omega

/-- The offsets of records that are written one behind the other. -/
def offsets (start : Nat) : (drafts : List ChecksumDraft) → List Nat
  | [] => []
  | draft :: rest => start :: offsets (start + draft.bytes.size) rest

end ChecksumDraft

namespace SubsectionDraft

def bytes (draft : SubsectionDraft) : ByteArray :=
  Bytes.padded (Bytes.uint32 draft.kind ++ Bytes.uint32 (UInt32.ofNat draft.payload.size)
    ++ draft.payload)

theorem size_bytes_mod_four (draft : SubsectionDraft) : draft.bytes.size % 4 = 0 :=
  Bytes.size_padded_mod_four _

end SubsectionDraft

namespace LinesDraft

def payload (draft : LinesDraft) : ByteArray :=
  LineRegion.linesPayload draft.segment draft.address draft.codeSize draft.blocks draft.hasColumns

def subsection (draft : LinesDraft) : SubsectionDraft := ⟨Subsection.linesKind, draft.payload⟩

end LinesDraft

/-! ### What commands write -/

namespace LineRegion

/-- Both rows end at multiples of four. -/
structure Aligned (region : LineRegion) : Prop where
  checksums : region.checksums.size % 4 = 0
  lines : region.lines.size % 4 = 0

variable {region : LineRegion}

theorem apply_checksum (aligned : region.Aligned) (draft : ChecksumDraft) :
    region.apply (.checksum draft)
      = { region with checksums := region.checksums ++ draft.bytes } := by
  rw [apply, addChecksum, ChecksumDraft.bytes, ← Bytes.padded_append aligned.checksums]
  simp only [ByteArray.append_assoc]

theorem apply_lines (aligned : region.Aligned) (draft : LinesDraft) :
    region.apply (.lines draft)
      = { region with lines := region.lines ++ draft.subsection.bytes } := by
  rw [apply, addLines, SubsectionDraft.bytes, ← Bytes.padded_append aligned.lines]
  simp only [ByteArray.append_assoc]
  rfl

theorem Aligned.apply (aligned : region.Aligned) (command : LineCommand) :
    (region.apply command).Aligned := by
  cases command with
  | checksum draft =>
    rw [apply_checksum aligned]
    refine ⟨?_, aligned.lines⟩
    rw [ByteArray.size_append]
    have hregion := aligned.checksums
    have hdraft := draft.size_bytes_mod_four
    omega
  | lines draft =>
    rw [apply_lines aligned]
    refine ⟨aligned.checksums, ?_⟩
    rw [ByteArray.size_append]
    have hregion := aligned.lines
    have hdraft := draft.subsection.size_bytes_mod_four
    omega

theorem foldl_apply (aligned : region.Aligned) (commands : List LineCommand) :
    commands.foldl apply region
      = { checksums := region.checksums
            ++ Bytes.concat ((LineCommand.checksums commands).map ChecksumDraft.bytes)
          lines := region.lines
            ++ Bytes.concat ((LineCommand.linesOf commands).map (·.subsection.bytes)) } := by
  induction commands generalizing region with
  | nil => simp [LineCommand.checksums, LineCommand.linesOf]
  | cons command commands ih =>
    rw [List.foldl_cons, ih (aligned.apply command)]
    cases command with
    | checksum draft =>
      simp [apply_checksum aligned, LineCommand.checksums, LineCommand.linesOf,
        ByteArray.append_assoc]
    | lines draft =>
      simp [apply_lines aligned, LineCommand.checksums, LineCommand.linesOf,
        ByteArray.append_assoc]

theorem fileIds_eq (aligned : region.Aligned) (commands : List LineCommand) :
    region.fileIds commands
      = (ChecksumDraft.offsets region.checksums.size (LineCommand.checksums commands)).map
          UInt32.ofNat := by
  induction commands generalizing region with
  | nil => rfl
  | cons command commands ih =>
    cases command with
    | checksum draft =>
      rw [fileIds, ih (aligned.apply _), apply_checksum aligned, LineCommand.checksums,
        ChecksumDraft.offsets, List.map_cons, ByteArray.size_append]
      rfl
    | lines draft =>
      rw [fileIds, ih (aligned.apply _), apply_lines aligned, LineCommand.checksums]

/-- The subsection of checksum records, which is missing if there are none. -/
def checksumSubsections : (drafts : List ChecksumDraft) → List SubsectionDraft
  | [] => []
  | draft :: rest =>
    [⟨Subsection.checksumsKind, Bytes.concat ((draft :: rest).map ChecksumDraft.bytes)⟩]

/-- The subsections of a region that is written by the commands. -/
def subsections (commands : List LineCommand) : List SubsectionDraft :=
  checksumSubsections (LineCommand.checksums commands)
    ++ (LineCommand.linesOf commands).map LinesDraft.subsection

theorem bytes_ofCommands (commands : List LineCommand) :
    (ofCommands commands).bytes
      = Bytes.concat ((subsections commands).map SubsectionDraft.bytes) := by
  rw [ofCommands, foldl_apply ⟨rfl, rfl⟩, bytes, subsections]
  simp only [empty, ByteArray.empty_append, List.map_append, List.map_map, Bytes.concat_append]
  cases LineCommand.checksums commands with
  | nil => simp [checksumSubsections, Function.comp_def]
  | cons draft rest =>
    have haligned : (Bytes.concat ((draft :: rest).map ChecksumDraft.bytes)).size % 4 = 0 := by
      refine Bytes.size_concat_mod_four fun piece member => ?_
      obtain ⟨draft, -, rfl⟩ := List.mem_map.mp member
      exact draft.size_bytes_mod_four
    have hpos : (Bytes.concat ((draft :: rest).map ChecksumDraft.bytes)).size ≠ 0 := by
      rw [List.map_cons, Bytes.concat_cons, ByteArray.size_append]
      have hdraft := draft.size_bytes_pos
      omega
    rw [if_neg hpos, checksumSubsections, List.map_singleton, Bytes.concat_cons, Bytes.concat_nil,
      ByteArray.append_empty, SubsectionDraft.bytes, Bytes.padded_of_aligned]
    · rfl
    · simp only [ByteArray.size_append, Bytes.size_uint32]
      omega

end LineRegion

end ManagedPdb
