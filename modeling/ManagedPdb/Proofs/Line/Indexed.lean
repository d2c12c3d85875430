import ManagedPdb.Proofs.Line.Frames

/-!
# Line blocks by computed offsets

A block is read from its front to its end, but its format puts every part of an entry at an offset
that can be computed (`LineRecord.atIndex`): the entries of eight bytes each, and behind all of them
the columns.  A block with a header that can be read is read as the format says, however many
entries it announces, or it passes the end of its subsection and nothing behind its header is read
(`LineTable.readBlock_eq`).  The blocks that are accepted tile their subsection (`Tiles`).
-/

namespace ManagedPdb

variable {α : Type}

/-! ### Values at computed places -/

namespace Reader

variable {content : ByteArray}

/-- A row of values at computed places, from one of them on. -/
theorem timesOnto_eq {item : Reader α} {value : Nat → α} {place : Nat → Nat} {first count : Nat}
    (hitem : ∀ index, first ≤ index → index < first + count →
      item content (place index) = .done (value index) (place (index + 1))) (before : Array α) :
    timesOnto item before count content (place first)
      = .done (before.toList ++ (List.range' first count).map value) (place (first + count)) := by
  induction count generalizing first before with
  | zero => simp [timesOnto]
  | succ count ih =>
    rw [timesOnto, hitem first (Nat.le_refl _) (by omega)]
    dsimp only
    rw [ih fun index hle hlt => hitem index (by omega) (by omega)]
    simp [List.range'_succ, Nat.add_assoc, Nat.add_comm 1]

theorem times_eq {item : Reader α} {value : Nat → α} {place : Nat → Nat} {count : Nat}
    (hitem : ∀ index < count,
      item content (place index) = .done (value index) (place (index + 1))) :
    times count item content (place 0) = .done ((List.range count).map value) (place count) := by
  rw [times, timesOnto_eq (fun index _ hlt => hitem index (by omega)), Nat.zero_add,
    List.range_eq_range', List.nil_append]

end Reader

/-! ### Entries -/

namespace LineRecord

/-- The entry at an index, in a block of `count` entries that start at `base`. -/
def atIndex (content : ByteArray) (hasColumns : Bool) (base count index : Nat) : LineRecord :=
  let packed := LittleEndian.read content (base + 8 * index + 4) 4
  let columns := base + 8 * count + 4 * index
  { offset := UInt32.ofNat (LittleEndian.read content (base + 8 * index) 4)
    startLine := UInt32.ofNat (packed % 2 ^ 24)
    endLine := UInt32.ofNat (packed % 2 ^ 24 + packed / 2 ^ 24 % 2 ^ 7)
    startColumn :=
      if hasColumns then UInt16.ofNat (LittleEndian.read content columns 2) else 0
    endColumn :=
      if hasColumns then UInt16.ofNat (LittleEndian.read content (columns + 2) 2) else 0 }

/-- The two fields of a packed word. -/
theorem and_ofNat {packed : Nat} (h : packed < 2 ^ 32) :
    UInt32.ofNat packed &&& 0x00ffffff = UInt32.ofNat (packed % 2 ^ 24) ∧
      (UInt32.ofNat packed &&& 0x7f000000) >>> 24 = UInt32.ofNat (packed / 2 ^ 24 % 2 ^ 7) := by
  constructor
  · rw [← UInt32.toNat_inj, UInt32.toNat_and, UInt32.toNat_ofNat_of_lt' h,
      UInt32.toNat_ofNat_of_lt' (by simp only [UInt32.size]; omega),
      show (0x00ffffff : UInt32).toNat = 2 ^ 24 - 1 from rfl, Nat.and_two_pow_sub_one_eq_mod]
  · rw [← UInt32.toNat_inj, UInt32.toNat_shiftRight, UInt32.toNat_and, UInt32.toNat_ofNat_of_lt' h,
      UInt32.toNat_ofNat_of_lt' (by simp only [UInt32.size]; omega),
      show (24 : UInt32).toNat % 32 = 24 from rfl, Nat.shiftRight_and_distrib,
      show (0x7f000000 : UInt32).toNat >>> 24 = 2 ^ 7 - 1 from rfl,
      Nat.and_two_pow_sub_one_eq_mod, Nat.shiftRight_eq_div_pow]

variable {content : ByteArray} {base count : Nat}

/-- Without its columns, the entry at an index is what stands at its place. -/
theorem read_atIndex {index : Nat} (h : base + 8 * index + 8 ≤ content.size) :
    LineRecord.read content (base + 8 * index)
      = .done (atIndex content false base count index) (base + 8 * (index + 1)) := by
  obtain ⟨hstart, hdistance⟩ := and_ofNat (LittleEndian.read_lt content (base + 8 * index + 4) 4)
  rw [LineRecord.read, Reader.bind_apply, Reader.uint32_of_le (by omega)]
  dsimp only
  rw [Reader.bind_apply, Reader.uint32_of_le (by omega)]
  simp only [Reader.pure_apply, hstart, hdistance, atIndex, UInt32.ofNat_add, Nat.mul_add]
  rfl

theorem times_read (h : base + 8 * count ≤ content.size) :
    Reader.times count LineRecord.read content base
      = .done ((List.range count).map (atIndex content false base count)) (base + 8 * count) :=
  @Reader.times_eq _ _ _ _ (fun index => base + 8 * index) _
    fun index hindex => read_atIndex (by omega)

/-- The columns of entries that stand next to each other. -/
theorem readColumns_range' {first rest : Nat}
    (h : base + 8 * count + 4 * (first + rest) ≤ content.size) (before : Array LineRecord) :
    readColumns before ((List.range' first rest).map (atIndex content false base count)) content
        (base + 8 * count + 4 * first)
      = .done (before.toList ++ (List.range' first rest).map (atIndex content true base count))
          (base + 8 * count + 4 * (first + rest)) := by
  induction rest generalizing first before with
  | zero => simp [readColumns]
  | succ rest ih =>
    rw [List.range'_succ, List.map_cons, readColumns, Reader.bind_apply,
      Reader.uint16_of_le (by omega)]
    dsimp only
    rw [Reader.bind_apply, Reader.uint16_of_le (by omega)]
    dsimp only
    have hrest := @ih (first + 1) (by omega)
      (before.push (atIndex content true base count first))
    rw [show base + 8 * count + 4 * (first + 1) = base + 8 * count + 4 * first + 2 + 2 by omega]
      at hrest
    rw [show first + (rest + 1) = first + 1 + rest by omega]
    simpa [atIndex] using hrest

/-- The columns behind all entries of a block. -/
theorem readColumns_range (h : base + 12 * count ≤ content.size) :
    readColumns #[] ((List.range count).map (atIndex content false base count)) content
        (base + 8 * count)
      = .done ((List.range count).map (atIndex content true base count)) (base + 12 * count) := by
  have hcolumns := @readColumns_range' content base count 0 count (by omega) #[]
  rw [← List.range_eq_range', Nat.mul_zero, Nat.zero_add, Nat.add_zero, List.nil_append,
    show base + 8 * count + 4 * count = base + 12 * count by omega] at hcolumns
  exact hcolumns

end LineRecord

/-! ### Blocks -/

namespace LineTable

/-- The number of entries that the block at an offset announces. -/
def countAt (content : ByteArray) (start : Nat) : Nat := LittleEndian.read content (start + 4) 4

/-- Where the block at an offset ends, by its own account. -/
def blockStop (content : ByteArray) (hasColumns : Bool) (start : Nat) : Nat :=
  start + 12 + countAt content start * entrySize hasColumns

/-- The block at an offset, all of its entries at their computed places. -/
def atOffset (content : ByteArray) (checksums : ChecksumTable) (hasColumns : Bool) (start : Nat) :
    LineTable :=
  let fileId := UInt32.ofNat (LittleEndian.read content start 4)
  let count := countAt content start
  { fileId
    file := checksums.file? fileId
    lines := (List.range count).map (LineRecord.atIndex content hasColumns (start + 12) count) }

variable {content : ByteArray} {checksums : ChecksumTable} {hasColumns : Bool} {start stop : Nat}

theorem le_blockStop : start + 12 ≤ blockStop content hasColumns start :=
  Nat.le_add_right _ _

/-- A block with a header that can be read: it passes the end of its subsection, or it is read as
the format says. -/
theorem readBlock_eq (hheader : start + 12 ≤ content.size) (hstop : stop ≤ content.size) :
    readBlock checksums hasColumns stop content start =
      if stop < blockStop content hasColumns start then
        .failed (.ofKindAt .invalidLineBlock start) (start + 12)
      else .done (atOffset content checksums hasColumns start)
        (blockStop content hasColumns start) := by
  have hcount : (UInt32.ofNat (LittleEndian.read content (start + 4) 4)).toNat
      = countAt content start := LittleEndian.toNat_ofNat_read ..
  rw [readBlock, Reader.bind_apply, Reader.position_apply]
  dsimp only
  rw [Reader.bind_apply, Reader.uint32_of_le (by omega)]
  dsimp only
  rw [Reader.bind_apply, Reader.uint32_of_le (by omega)]
  dsimp only
  rw [Reader.bind_apply, Reader.uint32_of_le (by omega)]
  dsimp only
  rw [Reader.bind_apply, Reader.position_apply, hcount]
  dsimp only
  rw [show start + 4 + 4 + 4 = start + 12 from rfl, ← blockStop]
  by_cases hpasses : stop < blockStop content hasColumns start
  · rw [if_pos hpasses, if_pos hpasses]
    rfl
  have hfits : blockStop content hasColumns start ≤ content.size := by omega
  have hentries : 8 * countAt content start ≤ countAt content start * entrySize hasColumns := by
    rw [Nat.mul_comm]
    exact Nat.mul_le_mul_left _ (by cases hasColumns <;> decide)
  rw [if_neg hpasses, if_neg hpasses, Reader.bind_apply,
    LineRecord.times_read (by rw [blockStop] at hfits; omega)]
  dsimp only
  cases hasColumns with
  | false =>
    rw [if_neg Bool.false_ne_true, pure_bind, Reader.bind_apply, Reader.seek_of_le hfits]
    rfl
  | true =>
    have hcolumns : start + 12 + 12 * countAt content start ≤ content.size := by
      rw [blockStop, entrySize, if_pos rfl] at hfits
      omega
    rw [if_pos rfl, Reader.bind_apply, LineRecord.readColumns_range hcolumns]
    dsimp only
    rw [Reader.bind_apply, Reader.seek_of_le hfits]
    rfl

/-- A block without a whole header. -/
theorem readBlock_of_size_lt (hheader : content.size < start + 12) :
    ∃ offset, readBlock checksums hasColumns stop content start
      = .failed (.ofKindAt .unexpectedEnd offset) offset := by
  rw [readBlock, Reader.bind_apply, Reader.position_apply]
  dsimp only
  rw [Reader.bind_apply]
  rcases Nat.lt_or_ge content.size (start + 4) with hfile | hfile
  · exact ⟨start, by rw [Reader.uint32_of_lt hfile]⟩
  rw [Reader.uint32_of_le hfile]
  dsimp only
  rw [Reader.bind_apply]
  rcases Nat.lt_or_ge content.size (start + 4 + 4) with hcount | hcount
  · exact ⟨start + 4, by rw [Reader.uint32_of_lt hcount]⟩
  rw [Reader.uint32_of_le hcount]
  dsimp only
  rw [Reader.bind_apply]
  exact ⟨start + 4 + 4, by rw [Reader.uint32_of_lt (by omega)]⟩

/-! ### Blocks in a row -/

/-- One more block. -/
def readNextBlock (checksums : ChecksumTable) (hasColumns : Bool) (stop : Nat)
    (tables : Array LineTable) : Reader (Array LineTable) := do
  return tables.push (← readBlock checksums hasColumns stop)

/-- The tables are the blocks from an offset to `stop`, each of which starts where the one in front
of it ends. -/
inductive Tiles (content : ByteArray) (checksums : ChecksumTable) (hasColumns : Bool) (stop : Nat) :
    (start : Nat) → List LineTable → Prop
  | done : Tiles content checksums hasColumns stop stop []
  | block {start : Nat} {tables : List LineTable} :
      start < stop → blockStop content hasColumns start ≤ stop →
        Tiles content checksums hasColumns stop (blockStop content hasColumns start) tables →
          Tiles content checksums hasColumns stop start
            (atOffset content checksums hasColumns start :: tables)

/-- The next block of a row ends the row with an error, or the row goes on behind it. -/
theorem whileBelow_readNextBlock (hlt : start < stop) (hheader : start + 12 ≤ content.size)
    (hstop : stop ≤ content.size) (tables : Array LineTable) :
    Reader.whileBelow stop (readNextBlock checksums hasColumns stop) tables content start =
      if stop < blockStop content hasColumns start then
        .failed (.ofKindAt .invalidLineBlock start) (start + 12)
      else Reader.whileBelow stop (readNextBlock checksums hasColumns stop)
        (tables.push (atOffset content checksums hasColumns start)) content
        (blockStop content hasColumns start) := by
  have hbehind := @le_blockStop content hasColumns start
  have hblock := @readBlock_eq content checksums hasColumns start stop hheader hstop
  rw [Reader.whileBelow_of_lt hlt, Reader.bind_apply, readNextBlock, Reader.bind_apply, hblock]
  · by_cases hpasses : stop < blockStop content hasColumns start
    · rw [if_pos hpasses, if_pos hpasses]
    · rw [if_neg hpasses, if_neg hpasses]
      rfl
  · intro tables' next hdone
    obtain ⟨table, _, htable, hdone⟩ := Reader.bind_eq_done_iff.mp hdone
    cases hdone
    rw [hblock] at htable
    split at htable
    · cases htable
    · cases htable
      omega

theorem whileBelow_readNextBlock_of_size_lt (hlt : start < stop)
    (hheader : content.size < start + 12) (tables : Array LineTable) :
    ∃ offset, Reader.whileBelow stop (readNextBlock checksums hasColumns stop) tables content start
      = .failed (.ofKindAt .unexpectedEnd offset) offset := by
  obtain ⟨offset, hblock⟩ := @readBlock_of_size_lt content checksums hasColumns start stop hheader
  have hnext : readNextBlock checksums hasColumns stop tables content start
      = .failed (.ofKindAt .unexpectedEnd offset) offset := by
    rw [readNextBlock, Reader.bind_apply, hblock]
  refine ⟨offset, ?_⟩
  rw [Reader.whileBelow_of_lt hlt, Reader.bind_apply, hnext]
  intro tables' next hdone
  rw [hnext] at hdone
  cases hdone

/-- Blocks that are accepted tile what they are read from. -/
theorem Tiles.of_whileBelow (hle : start ≤ stop) (hstop : stop ≤ content.size)
    {tables tables' : Array LineTable} {last : Nat}
    (h : Reader.whileBelow stop (readNextBlock checksums hasColumns stop) tables content start
      = .done tables' last) :
    ∃ more, tables'.toList = tables.toList ++ more ∧
      Tiles content checksums hasColumns stop start more := by
  induction hlength : stop - start using Nat.strongRecOn generalizing start tables with
  | ind _ ih =>
    subst hlength
    rcases Nat.lt_or_eq_of_le hle with hlt | rfl
    · rcases Nat.lt_or_ge content.size (start + 12) with hheader | hheader
      · obtain ⟨offset, hfailed⟩ := whileBelow_readNextBlock_of_size_lt hlt hheader tables
        rw [hfailed] at h
        cases h
      · rw [whileBelow_readNextBlock hlt hheader hstop] at h
        split at h
        · cases h
        · next hfits =>
          have hbehind := @le_blockStop content hasColumns start
          obtain ⟨more, htables, tiles⟩ := ih _ (by omega) (Nat.not_lt.mp hfits) h rfl
          refine ⟨_ :: more, ?_, .block hlt (Nat.not_lt.mp hfits) tiles⟩
          rw [htables, Array.toList_push, List.append_assoc, List.singleton_append]
    · rw [Reader.whileBelow_of_le (Nat.le_refl _)] at h
      cases h
      exact ⟨[], by rw [List.append_nil], .done⟩

/-- A block that is refused stands in the row. -/
theorem inside_of_whileBelow (hstop : stop ≤ content.size) {tables : Array LineTable}
    {offset stopped : Nat}
    (h : Reader.whileBelow stop (readNextBlock checksums hasColumns stop) tables content start
      = .failed (.ofKindAt .invalidLineBlock offset) stopped) : start ≤ offset ∧ offset < stop := by
  induction hlength : stop - start using Nat.strongRecOn generalizing start tables with
  | ind _ ih =>
    subst hlength
    rcases Nat.lt_or_ge start stop with hlt | hle
    · rcases Nat.lt_or_ge content.size (start + 12) with hheader | hheader
      · obtain ⟨offset, hfailed⟩ := whileBelow_readNextBlock_of_size_lt hlt hheader tables
        rw [hfailed] at h
        cases h
      · rw [whileBelow_readNextBlock hlt hheader hstop] at h
        split at h
        · cases h
          exact ⟨Nat.le_refl _, hlt⟩
        · next hfits =>
          have hbehind := @le_blockStop content hasColumns start
          have hrest := ih _ (by omega) h rfl
          omega
    · rw [Reader.whileBelow_of_le hle] at h
      cases h

theorem readBlocks_eq_done_iff {tables : List LineTable} {last : Nat} :
    readBlocks checksums hasColumns stop content start = .done tables last ↔
      ∃ found, Reader.whileBelow stop (readNextBlock checksums hasColumns stop) #[] content start
        = .done found last ∧ found.toList = tables := by
  constructor
  · intro h
    obtain ⟨found, _, hloop, h⟩ := Reader.bind_eq_done_iff.mp h
    cases h
    exact ⟨found, hloop, rfl⟩
  · rintro ⟨found, hloop, rfl⟩
    exact Reader.bind_eq_done_iff.mpr ⟨found, last, hloop, rfl⟩

theorem readBlocks_eq_failed_iff {error : DecodeError} {stopped : Nat} :
    readBlocks checksums hasColumns stop content start = .failed error stopped ↔
      Reader.whileBelow stop (readNextBlock checksums hasColumns stop) #[] content start
        = .failed error stopped := by
  constructor
  · intro h
    rcases Reader.bind_eq_failed_iff.mp h with hloop | ⟨_, _, -, h⟩
    · exact hloop
    · cases h
  · intro h
    exact Reader.bind_eq_failed_iff.mpr (.inl h)

theorem Tiles.of_readBlocks (hle : start ≤ stop) (hstop : stop ≤ content.size)
    {tables : List LineTable} {last : Nat}
    (h : readBlocks checksums hasColumns stop content start = .done tables last) :
    Tiles content checksums hasColumns stop start tables := by
  obtain ⟨found, hloop, rfl⟩ := readBlocks_eq_done_iff.mp h
  obtain ⟨more, hfound, tiles⟩ := Tiles.of_whileBelow hle hstop hloop
  rw [hfound]
  exact tiles

/-- A block that is come by is refused if it passes the end of its subsection, and only then. -/
theorem readBlocks_refused_iff {tables : Array LineTable} {block : Nat}
    (reaches : Reader.Reaches stop (readNextBlock checksums hasColumns stop) content #[] start
      tables block)
    (hlt : block < stop) (hheader : block + 12 ≤ content.size) (hstop : stop ≤ content.size) :
    (∃ stopped, readBlocks checksums hasColumns stop content start
      = .failed (.ofKindAt .invalidLineBlock block) stopped) ↔
        stop < blockStop content hasColumns block := by
  simp only [readBlocks_eq_failed_iff, reaches.whileBelow_eq,
    whileBelow_readNextBlock hlt hheader hstop]
  constructor
  · rintro ⟨stopped, h⟩
    split at h
    · assumption
    · -- the blocks behind it are refused at offsets of their own
      have hbehind := @le_blockStop content hasColumns block
      have hinside := inside_of_whileBelow hstop h
      omega
  · intro hpasses
    exact ⟨block + 12, if_pos hpasses⟩

end LineTable

end ManagedPdb
