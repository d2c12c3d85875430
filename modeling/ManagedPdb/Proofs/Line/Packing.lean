import ManagedPdb.Draft.LineRegion
import ManagedPdb.Proofs.Reads

/-!
# Written line blocks are read back

An entry packs its first line, the distance of its last line and a mark into one word
(`and_packed`), and the columns of a block stand behind all of its entries.  What is read from a
block (`LineBlockDraft.table`) is what was written up to two losses: the last line is at most 127
lines behind the first, and columns that were not written are zero.
-/

namespace ManagedPdb

/-! ### Line entries -/

/-- A line and a distance of at most seven bits are packed side by side, below the mark. -/
theorem toNat_packed {line distance : UInt32} (hline : line.toNat < 2 ^ 24)
    (hdistance : distance.toNat < 128) :
    (line ||| distance <<< 24 ||| 0x80000000).toNat
      = (distance.toNat + 128) * 2 ^ 24 + line.toNat := by
  have hshift : (distance <<< 24).toNat = distance.toNat <<< 24 := by
    rw [UInt32.toNat_shiftLeft, Nat.mod_eq_of_lt]
    · rfl
    · rw [show (24 : UInt32).toNat % 32 = 24 from rfl, Nat.shiftLeft_eq]
      omega
  have hmark : distance.toNat ||| 128 = distance.toNat + 128 := by
    rw [Nat.or_comm, Nat.add_comm]
    exact (Nat.shiftLeft_add_eq_or_of_lt (i := 7) hdistance 1).symm
  calc (line ||| distance <<< 24 ||| 0x80000000).toNat
      = line.toNat ||| distance.toNat <<< 24 ||| 128 <<< 24 := by
        rw [UInt32.toNat_or, UInt32.toNat_or, hshift]
        rfl
    _ = (distance.toNat ||| 128) <<< 24 ||| line.toNat := by
        rw [Nat.or_assoc, ← Nat.shiftLeft_or_distrib, Nat.or_comm]
    _ = (distance.toNat + 128) * 2 ^ 24 + line.toNat := by
        rw [hmark, ← Nat.shiftLeft_add_eq_or_of_lt hline, Nat.shiftLeft_eq]

theorem and_packed {line distance : UInt32} (hline : line.toNat < 2 ^ 24)
    (hdistance : distance.toNat < 128) :
    (line ||| distance <<< 24 ||| 0x80000000) &&& 0x00ffffff = line ∧
      ((line ||| distance <<< 24 ||| 0x80000000) &&& 0x7f000000) >>> 24 = distance := by
  have hpacked := toNat_packed hline hdistance
  constructor
  · rw [← UInt32.toNat_inj, UInt32.toNat_and, hpacked]
    rw [show (0x00ffffff : UInt32).toNat = 2 ^ 24 - 1 from rfl, Nat.and_two_pow_sub_one_eq_mod]
    omega
  · rw [← UInt32.toNat_inj, UInt32.toNat_shiftRight, UInt32.toNat_and, hpacked,
      show (24 : UInt32).toNat % 32 = 24 from rfl, Nat.shiftRight_and_distrib,
      show (0x7f000000 : UInt32).toNat >>> 24 = 2 ^ 7 - 1 from rfl,
      Nat.and_two_pow_sub_one_eq_mod, Nat.shiftRight_eq_div_pow]
    omega

namespace LineDraft

/-- What the entry says, where columns are written or not. -/
def record (hasColumns : Bool) (draft : LineDraft) : LineRecord where
  offset := draft.offset
  startLine := draft.line
  endLine := UInt32.ofNat (draft.line.toNat + min (draft.endLine.toNat - draft.line.toNat) 127)
  startColumn := if hasColumns then draft.column else 0
  endColumn := if hasColumns then draft.endColumn else 0

theorem toNat_distance (draft : LineDraft) :
    draft.distance.toNat = min (draft.endLine.toNat - draft.line.toNat) 127 := by
  unfold distance
  by_cases hlt : draft.endLine < draft.line
  · have hnat := UInt32.lt_iff_toNat_lt.mp hlt
    rw [if_pos hlt, UInt32.toNat_zero]
    omega
  · have hle : draft.line ≤ draft.endLine := UInt32.not_lt.mp hlt
    have hsub := UInt32.toNat_sub_of_le draft.endLine draft.line hle
    rw [if_neg hlt, UInt32.toNat_min, hsub]
    rfl

theorem size_bytes (draft : LineDraft) : draft.bytes.size = 8 := by
  simp [bytes]

theorem size_columnBytes (draft : LineDraft) : draft.columnBytes.size = 4 := by
  simp [columnBytes]

end LineDraft

namespace Reads

variable {start : Nat}

theorem lineRecord {draft : LineDraft} (hline : draft.line.toNat < 2 ^ 24) :
    Reads LineRecord.read start draft.bytes (draft.record false) := by
  have hdistance := draft.toNat_distance
  obtain ⟨hstart, hmore⟩ := and_packed hline (show draft.distance.toNat < 128 by omega)
  have hend : draft.line + draft.distance
      = UInt32.ofNat (draft.line.toNat + min (draft.endLine.toNat - draft.line.toNat) 127) := by
    rw [← hdistance, UInt32.ofNat_add, UInt32.ofNat_toNat, UInt32.ofNat_toNat]
  rw [LineDraft.bytes]
  simp only [Bytes.uint32s_cons, Bytes.uint32s_nil, ByteArray.append_empty]
  refine .bind (.uint32 _) (.bind_empty (.uint32 _) ?_)
  simp only [hstart, hmore, hend]
  exact .pure _

theorem lineColumns (before : Array LineRecord) (drafts : List LineDraft) :
    Reads (LineRecord.readColumns before (drafts.map (LineDraft.record false))) start
      (Bytes.concat (drafts.map LineDraft.columnBytes))
      (before.toList ++ drafts.map (LineDraft.record true)) := by
  induction drafts generalizing before start with
  | nil =>
    simp only [List.map_nil, List.append_nil]
    exact .pure _
  | cons draft rest ih =>
    simp only [List.map_cons, Bytes.concat_cons, LineDraft.columnBytes, ByteArray.append_assoc]
    refine .bind (.uint16 _) (.bind (.uint16 _) ?_)
    have hrest := @ih (start + 2 + 2) (before.push (draft.record true))
    simpa [LineDraft.record] using hrest

end Reads

/-! ### Blocks -/

namespace LineBlockDraft

/-- What the block says, where files are known by the table of checksum records. -/
def table (checksums : ChecksumTable) (hasColumns : Bool) (block : LineBlockDraft) : LineTable where
  fileId := block.fileId
  file := checksums.file? block.fileId
  lines := block.entries.map (LineDraft.record hasColumns)

/-- All first lines fit into their field. -/
def Packable (block : LineBlockDraft) : Prop :=
  ∀ draft ∈ block.entries, draft.line.toNat < 2 ^ 24

theorem size_entries (block : LineBlockDraft) :
    (Bytes.concat (block.entries.map LineDraft.bytes)).size = block.entries.length * 8 := by
  rw [Bytes.size_concat_of_size, List.length_map]
  intro piece member
  obtain ⟨draft, -, rfl⟩ := List.mem_map.mp member
  exact draft.size_bytes

theorem size_columns (block : LineBlockDraft) :
    (Bytes.concat (block.entries.map LineDraft.columnBytes)).size = block.entries.length * 4 := by
  rw [Bytes.size_concat_of_size, List.length_map]
  intro piece member
  obtain ⟨draft, -, rfl⟩ := List.mem_map.mp member
  exact draft.size_columnBytes

theorem size_bytes (hasColumns : Bool) (block : LineBlockDraft) :
    (block.bytes hasColumns).size
      = 12 + block.entries.length * LineTable.entrySize hasColumns := by
  cases hasColumns with
  | false => simp [bytes, LineTable.entrySize, size_entries]
  | true =>
    simp [bytes, LineTable.entrySize, size_entries, size_columns]
    omega

end LineBlockDraft

namespace Reads

variable {start stop : Nat} {checksums : ChecksumTable} {hasColumns : Bool}

theorem lineEntries {block : LineBlockDraft} (packable : block.Packable) :
    Reads (Reader.times block.entries.length LineRecord.read) start
      (Bytes.concat (block.entries.map LineDraft.bytes))
      (block.entries.map (LineDraft.record false)) :=
  fun _ => ReadsIn.times_of_forall fun draft member _ => lineRecord (packable draft member) _

/-- The columns of all entries stand behind the entries, if there are any. -/
theorem lineBlock {block : LineBlockDraft} (packable : block.Packable)
    (inside : start + (block.bytes hasColumns).size ≤ stop)
    (hcount : block.entries.length < 2 ^ 32) :
    Reads (LineTable.readBlock checksums hasColumns stop) start (block.bytes hasColumns)
      (block.table checksums hasColumns) := by
  have hlength : (UInt32.ofNat block.entries.length).toNat = block.entries.length := by
    rw [UInt32.toNat_ofNat', Nat.mod_eq_of_lt hcount]
  rw [LineBlockDraft.size_bytes] at inside
  rw [LineBlockDraft.bytes]
  simp only [Bytes.uint32s_cons, Bytes.uint32s_nil, ByteArray.append_empty, ByteArray.append_assoc]
  refine .position (.bind (.uint32 _) (.bind (.uint32 _) (.bind (.uint32 _) (.position ?_))))
  simp only [hlength, Bytes.size_uint32]
  rw [if_neg (by omega)]
  refine .bind (lineEntries packable) ?_
  cases hasColumns with
  | false =>
    simp only [Bool.false_eq_true, if_false, Bytes.concat_nil, LineTable.entrySize]
    refine .empty_bind (.pure _) (.bind_empty (.seek ?_) (.pure _))
    rw [block.size_entries, ByteArray.size_empty]
    omega
  | true =>
    simp only [if_true, LineTable.entrySize]
    refine .bind_empty (lineColumns #[] block.entries) (.empty_bind (.seek ?_) (.pure _))
    rw [block.size_entries, block.size_columns, ByteArray.size_empty]
    omega

/-- Blocks are read up to the end of their subsection. -/
theorem lineBlocks {blocks : List LineBlockDraft} (packable : ∀ block ∈ blocks, block.Packable)
    (hstop : start + (Bytes.concat (blocks.map (LineBlockDraft.bytes hasColumns))).size = stop)
    (hsize : (Bytes.concat (blocks.map (LineBlockDraft.bytes hasColumns))).size < 2 ^ 32) :
    Reads (LineTable.readBlocks checksums hasColumns stop) start
      (Bytes.concat (blocks.map (LineBlockDraft.bytes hasColumns)))
      (blocks.map (LineBlockDraft.table checksums hasColumns)) := by
  have hloop : ∀ tables : Array LineTable,
      Reads (Reader.whileBelow stop (fun tables => do
          return tables.push (← LineTable.readBlock checksums hasColumns stop)) tables) start
        (Bytes.concat (blocks.map (LineBlockDraft.bytes hasColumns)))
        (tables ++ (blocks.map (LineBlockDraft.table checksums hasColumns)).toArray) := by
    induction blocks generalizing start with
    | nil =>
      intro tables
      simp only [List.map_nil, Bytes.concat_nil, ByteArray.size_empty] at hstop ⊢
      rw [Array.append_empty]
      exact .whileBelow_done (by omega)
    | cons block rest ih =>
      intro tables
      rw [List.forall_mem_cons] at packable
      simp only [List.map_cons, Bytes.concat_cons, ByteArray.size_append] at hstop hsize ⊢
      have hblock := block.size_bytes hasColumns
      have hcount : block.entries.length ≤ block.entries.length * LineTable.entrySize hasColumns :=
        Nat.le_mul_of_pos_right _ (by cases hasColumns <;> decide)
      have hrest := @ih (start + (block.bytes hasColumns).size) packable.2 (by omega) (by omega)
        (tables.push (block.table checksums hasColumns))
      refine .whileBelow_step ?_ (.bind_pure _ (lineBlock packable.1 ?_ ?_)) ?_
        (by simpa using hrest)
      all_goals omega
  have hall := Reads.map Array.toList (hloop #[])
  rw [LineTable.readBlocks, ← map_eq_pure_bind]
  simpa using hall

end Reads

end ManagedPdb
