import ManagedPdb.Proofs.Line.TableFiles
import ManagedPdb.Proofs.Line.Tiling

/-!
# The shape of line tables

Line tables are in shape if each source file has one table at most and the entries of each table are
ordered by their offsets (`LineTable.InShape`).  A decoder that neither puts the blocks of one file
together nor sorts the entries of a block cannot promise that.  It makes one table of every block of
a subsection, in their order (`LineTable.Tiles.exists_row`), so that the tables are in shape if and
only if the blocks are stored so (`LinesFrame.tables_inShape_iff`).
-/

namespace ManagedPdb

namespace LineTable

/-- One table for each source file, and each with its entries in the order of their offsets. -/
structure InShape (tables : List LineTable) : Prop where
  files : (tables.map LineTable.fileId).Nodup
  ordered : ∀ table ∈ tables, table.lines.Pairwise fun left right => left.offset ≤ right.offset

/-- All of a table that its shape depends on. -/
def outline (table : LineTable) : UInt32 × List UInt32 :=
  (table.fileId, table.lines.map LineRecord.offset)

theorem inShape_iff_outline {tables : List LineTable} :
    InShape tables ↔ ((tables.map outline).map Prod.fst).Nodup ∧
      ∀ entry ∈ tables.map outline, entry.2.Pairwise (· ≤ ·) := by
  simp only [List.map_map, List.forall_mem_map, outline, List.pairwise_map]
  exact ⟨fun shape => ⟨shape.files, shape.ordered⟩, fun ⟨files, ordered⟩ => ⟨files, ordered⟩⟩

/-- The file number of the block at an offset. -/
def fileIdAt (content : ByteArray) (start : Nat) : Nat := LittleEndian.read content start 4

/-- The code offset of an entry in the block at `start`. -/
def codeOffsetAt (content : ByteArray) (start index : Nat) : Nat :=
  LittleEndian.read content (start + 12 + 8 * index) 4

/-- The blocks at some offsets have different file numbers, and in each of them no entry stands
behind one of a higher code offset. -/
structure StoredInShape (content : ByteArray) (starts : List Nat) : Prop where
  files : (starts.map (fileIdAt content)).Nodup
  ordered : ∀ start ∈ starts, ∀ index, index + 1 < countAt content start →
    codeOffsetAt content start index ≤ codeOffsetAt content start (index + 1)

/-- Blocks start at the given offsets, the first at `start` and each of the others where the one in
front of it ends, and the last of them ends at `stop`. -/
inductive Row (content : ByteArray) (hasColumns : Bool) (stop : Nat) :
    (start : Nat) → (starts : List Nat) → Prop
  | done : Row content hasColumns stop stop []
  | block {start : Nat} {starts : List Nat} :
      start < stop → blockStop content hasColumns start ≤ stop →
        Row content hasColumns stop (blockStop content hasColumns start) starts →
          Row content hasColumns stop start (start :: starts)

variable {content : ByteArray} {checksums : ChecksumTable} {hasColumns : Bool} {start stop : Nat}

/-- There is one table for each block, in the order of the blocks. -/
theorem Tiles.exists_row {tables : List LineTable}
    (tiles : Tiles content checksums hasColumns stop start tables) :
    ∃ starts, Row content hasColumns stop start starts ∧
      tables = starts.map (atOffset content checksums hasColumns) := by
  induction tiles with
  | done => exact ⟨[], .done, rfl⟩
  | block hlt hfits _ ih =>
    obtain ⟨starts, row, rfl⟩ := ih
    exact ⟨_ :: starts, .block hlt hfits row, rfl⟩

/-! ### Shape as it is stored -/

theorem toNat_fileId_atOffset :
    (atOffset content checksums hasColumns start).fileId.toNat = fileIdAt content start :=
  LittleEndian.toNat_ofNat_read ..

theorem toNat_offset_atIndex (count index : Nat) :
    (LineRecord.atIndex content hasColumns (start + 12) count index).offset.toNat
      = codeOffsetAt content start index :=
  LittleEndian.toNat_ofNat_read ..

theorem nodup_fileIds_iff (starts : List Nat) :
    ((starts.map (atOffset content checksums hasColumns)).map LineTable.fileId).Nodup ↔
      (starts.map (fileIdAt content)).Nodup := by
  have hinjective : Function.Injective UInt32.toNat := fun _ _ => UInt32.toNat_inj.mp
  have hnumbers : ((starts.map (atOffset content checksums hasColumns)).map LineTable.fileId).map
      UInt32.toNat = starts.map (fileIdAt content) := by
    rw [List.map_map, List.map_map]
    exact List.map_congr_left fun start _ => toNat_fileId_atOffset
  rw [← List.nodup_map_iff hinjective, hnumbers]

theorem ordered_atOffset_iff :
    (atOffset content checksums hasColumns start).lines.Pairwise
        (fun left right => left.offset ≤ right.offset) ↔
      ∀ index, index + 1 < countAt content start →
        codeOffsetAt content start index ≤ codeOffsetAt content start (index + 1) := by
  have htrans : IsTrans Nat fun left right =>
      codeOffsetAt content start left ≤ codeOffsetAt content start right :=
    ⟨fun _ _ _ => Nat.le_trans⟩
  show ((List.range (countAt content start)).map _).Pairwise _ ↔ _
  rw [List.pairwise_map]
  simp only [UInt32.le_iff_toNat_le, toNat_offset_atIndex]
  -- an order is transitive, so that neighbours decide
  rw [← List.isChain_iff_pairwise, List.isChain_range]
  refine forall_congr' fun index => ?_
  rw [Nat.lt_sub_iff_add_lt]

theorem inShape_map_atOffset_iff (starts : List Nat) :
    InShape (starts.map (atOffset content checksums hasColumns)) ↔
      StoredInShape content starts := by
  constructor
  · intro shape
    exact ⟨(nodup_fileIds_iff starts).mp shape.files, fun start member =>
      ordered_atOffset_iff.mp (shape.ordered _ (List.mem_map_of_mem member))⟩
  · intro stored
    refine ⟨(nodup_fileIds_iff starts).mpr stored.files, fun table member => ?_⟩
    obtain ⟨start, hstart, rfl⟩ := List.mem_map.mp member
    exact ordered_atOffset_iff.mpr (stored.ordered start hstart)

end LineTable

/-! ### Subsections -/

/-- A lines subsection with its header and the offsets of its blocks. -/
structure LinesFrame where
  frame : Subsection
  header : LinesHeader
  starts : List Nat

namespace LinesFrame

/-- The place in the code that a subsection names. -/
def site (lines : LinesFrame) : Site := ⟨lines.header.segment, lines.header.address⟩

/-- One table for each block. -/
def tables (lines : LinesFrame) (content : ByteArray) (checksums : ChecksumTable) :
    List LineTable :=
  lines.starts.map (LineTable.atOffset content checksums lines.header.hasColumns)

/-- The header stands at the start of the subsection, and the blocks are all that is behind it. -/
structure IsAt (lines : LinesFrame) (content : ByteArray) : Prop where
  header : LinesHeader.read content lines.frame.start
    = .done lines.header (lines.frame.start + 12)
  row : LineTable.Row content lines.header.hasColumns lines.frame.stop (lines.frame.start + 12)
    lines.starts

variable {content : ByteArray} {checksums : ChecksumTable}

/-- Nothing is done about the shape of what is stored. -/
theorem tables_inShape_iff (lines : LinesFrame) :
    LineTable.InShape (lines.tables content checksums) ↔
      LineTable.StoredInShape content lines.starts :=
  LineTable.inShape_map_atOffset_iff lines.starts

/-- The tables of a subsection that ends in front of its blocks are none. -/
theorem exists_of_ofSubsection {subsection : Subsection} {site : Site} {tables : List LineTable}
    (hstop : subsection.stop ≤ content.size)
    (hsite : (SiteLines.ofSubsection checksums content subsection).site? = some site)
    (htables : (SiteLines.ofSubsection checksums content subsection).tables? = some tables) :
    tables = [] ∨ ∃ lines : LinesFrame, lines.frame = subsection ∧ lines.IsAt content ∧
      lines.site = site ∧ lines.tables content checksums = tables := by
  unfold SiteLines.ofSubsection at hsite htables
  cases hheader : LinesHeader.read content subsection.start with
  | failed error stopped =>
    rw [hheader] at hsite
    cases hsite
  | done header blocks =>
    rw [hheader] at hsite htables
    dsimp only at hsite htables
    split at htables
    · cases htables
    · next last hblocks =>
      cases hsite
      cases htables
      obtain ⟨rfl, -⟩ := LinesHeader.read_stop hheader
      rcases Nat.lt_or_ge subsection.stop (subsection.start + 12) with hshort | hfits
      · -- the header reaches the end of the subsection, so there is no block
        obtain ⟨found, hfound, rfl⟩ := LineTable.readBlocks_eq_done_iff.mp hblocks
        rw [Reader.whileBelow_of_le (Nat.le_of_lt hshort)] at hfound
        cases hfound
        exact .inl rfl
      · obtain ⟨starts, row, rfl⟩ :=
          (LineTable.Tiles.of_readBlocks hfits hstop hblocks).exists_row
        exact .inr ⟨⟨subsection, header, starts⟩, rfl, ⟨hheader, row⟩, rfl, rfl⟩

end LinesFrame

/-- Methods that had no lines still have none, or they have one table for each block of a subsection
of their place. -/
theorem linesFrame_of_readLines {checksums : ChecksumTable} {start stop position next : Nat}
    {content : ByteArray} {methods lined : List Method} (sorted : SortedBySite methods)
    (none : ∀ method ∈ methods, method.lines = [])
    (h : readLines checksums start stop methods content position = .done lined next) :
    ∃ frames behind, Subsection.readKind Subsection.linesKind start stop content position
        = .done frames behind ∧
      ∀ method ∈ lined, method.lines = [] ∨ ∃ lines : LinesFrame, lines.frame ∈ frames ∧
        lines.IsAt content ∧ lines.site = method.site ∧
        lines.tables content checksums = method.lines := by
  obtain ⟨frames, behind, hframes, hlines⟩ := lines_of_readLines sorted none h
  refine ⟨frames, behind, hframes, fun method member => ?_⟩
  rcases hlines method member with hnone | ⟨frame, hframe, hsite, htables⟩
  · exact .inl hnone
  · have hstop := (Subsection.readKind_inside hframes frame hframe).stop_le_size
    rcases LinesFrame.exists_of_ofSubsection hstop hsite htables with hnone | ⟨lines, rfl, hlines⟩
    · exact .inl hnone
    · exact .inr ⟨lines, hframe, hlines⟩

end ManagedPdb
