import ManagedPdb.Proofs.Line.Correlation
import ManagedPdb.Proofs.Line.Indexed

/-!
# Which blocks a method gets

A lines subsection that has a method (`Attachment.Serves`) gives it the blocks that tile the
subsection behind its header, and none of them is changed by later subsections.  A block that passes
the end of its subsection is the reason why the whole region is refused: the frames of a region
follow each other, so that no other block could be refused at the same offset.
`readLinesBy_tiles` says both, for any search for methods.
-/

namespace ManagedPdb

variable {content : ByteArray} {position next : Nat}

/-! ### Frames in a row -/

/-- An alignment moves forward, unless it wraps around at the end of the address space. -/
theorem Reader.align_four_cases (h : Reader.align 4 content position = .done () next) :
    position ≤ next ∨ 2 ^ 64 < position + 4 ∧ next ≤ (position + 3) % 2 ^ 64 := by
  obtain ⟨rfl, -⟩ := Reader.align_four_eq_done_iff.mp h
  omega

namespace Subsection

variable {limit : Nat}

/-- Each frame ends before the next one starts. -/
def Ordered (frames : List Subsection) : Prop :=
  frames.Pairwise fun left right => left.stop ≤ right.start

theorem readNext_ordered {found found' : Array Subsection} (advances : position < next)
    (behind : ∀ frame ∈ found, frame.stop ≤ position) (ordered : Ordered found.toList)
    (h : readNext limit found content position = .done found' next) :
    (∀ frame ∈ found', frame.stop ≤ next) ∧ Ordered found'.toList := by
  unfold readNext at h
  obtain ⟨kind, _, hkind, h⟩ := Reader.bind_eq_done_iff.mp h
  obtain ⟨-, -, rfl⟩ := Reader.uint32_eq_done hkind
  obtain ⟨length, _, hlength, h⟩ := Reader.bind_eq_done_iff.mp h
  obtain ⟨-, -, rfl⟩ := Reader.uint32_eq_done hlength
  obtain ⟨_, _, hstart, h⟩ := Reader.bind_eq_done_iff.mp h
  cases hstart
  by_cases hlimit : limit < position + 4 + 4 + length.toNat
  · rw [if_pos hlimit] at h
    cases h
  rw [if_neg hlimit] at h
  obtain ⟨_, _, hseek, h⟩ := Reader.bind_eq_done_iff.mp h
  obtain ⟨-, rfl⟩ := Reader.seek_eq_done_iff.mp hseek
  obtain ⟨_, aligned, halign, h⟩ := Reader.bind_eq_done_iff.mp h
  have haligned : aligned = next := by
    split at h <;> cases h <;> rfl
  subst haligned
  -- a wrap around would have gone back
  have hbehind : position + 4 + 4 + length.toNat ≤ aligned := by
    have hlength := length.toNat_lt
    rcases Reader.align_four_cases halign with hle | ⟨hwraps, hle⟩
    · exact hle
    · omega
  split at h
  · cases h
    constructor
    · intro frame member
      rcases Array.mem_push.mp member with member | rfl
      · have hframe := behind frame member
        omega
      · exact hbehind
    · rw [Array.toList_push, Ordered, List.pairwise_append]
      refine ⟨ordered, List.pairwise_singleton _ _, ?_⟩
      intro left hleft right hright
      rw [List.mem_singleton.mp hright]
      have hframe := behind left (Array.mem_toList_iff.mp hleft)
      dsimp only
      omega
  · cases h
    refine ⟨fun frame member => ?_, ordered⟩
    have hframe := behind frame member
    omega

/-- The frames of a region follow each other. -/
theorem readKind_ordered {kind : UInt32} {start : Nat} {frames : List Subsection}
    (h : readKind kind start limit content position = .done frames next) : Ordered frames := by
  obtain ⟨all, _, hall, h⟩ := Reader.bind_eq_done_iff.mp h
  cases h
  obtain ⟨_, _, -, hfound⟩ := Reader.bind_eq_done_iff.mp hall
  obtain ⟨found, _, hloop, hframes⟩ := Reader.bind_eq_done_iff.mp hfound
  cases hframes
  have hreached : ∀ {found start last},
      Reader.Reaches limit (readNext limit) content #[] start found last →
        (∀ frame ∈ found, frame.stop ≤ last) ∧ Ordered found.toList := by
    intro found start last reaches
    induction reaches with
    | start => exact ⟨by simp, .nil⟩
    | step _ _ hstep hlt _ ih => exact readNext_ordered hlt ih.1 ih.2 hstep
  exact (hreached (.of_whileBelow .start hloop)).2.filter _

end Subsection

/-! ### Headers -/

namespace Reader

variable {α β : Type}

/-- The reader fails only where the content ends too early. -/
def OnlyEnds (reader : Reader α) : Prop :=
  ∀ content position error stopped, reader content position = .failed error stopped →
    error.kind = .unexpectedEnd

namespace OnlyEnds

protected theorem pure (value : α) : OnlyEnds (Pure.pure value : Reader α) := nofun

protected theorem bind {reader : Reader α} {step : α → Reader β} (h : reader.OnlyEnds)
    (hstep : ∀ value, (step value).OnlyEnds) : (reader >>= step).OnlyEnds := by
  intro content position error stopped hfailed
  rcases bind_eq_failed_iff.mp hfailed with hfirst | ⟨value, _, -, hrest⟩
  · exact h _ _ _ _ hfirst
  · exact hstep value _ _ _ _ hrest

protected theorem seek (target : Nat) : OnlyEnds (Reader.seek target) := by
  intro content position error stopped hfailed
  rw [Reader.seek] at hfailed
  split at hfailed
  · cases hfailed
  · cases hfailed
    rfl

protected theorem word (width : Nat) : OnlyEnds (Reader.word width) := by
  intro content position error stopped hfailed
  rw [Reader.word] at hfailed
  split at hfailed
  · cases hfailed
  · cases hfailed
    rfl

protected theorem uint16 : OnlyEnds Reader.uint16 := (OnlyEnds.word 2).bind fun _ => .pure _

protected theorem uint32 : OnlyEnds Reader.uint32 := (OnlyEnds.word 4).bind fun _ => .pure _

theorem linesHeader : OnlyEnds LinesHeader.read :=
  OnlyEnds.uint32.bind fun _ => OnlyEnds.uint16.bind fun _ => OnlyEnds.uint16.bind fun _ =>
    OnlyEnds.uint32.bind fun _ => .pure _

end OnlyEnds

end Reader

theorem LinesHeader.read_stop {header : LinesHeader}
    (h : LinesHeader.read content position = .done header next) :
    next = position + 12 ∧ next ≤ content.size := by
  have hall : LinesHeader.read.within content.size content position = .done header next := by
    rw [Reader.within, ByteArray.extract_zero_size]
    exact h
  exact InFrame.linesHeader_inside hall

namespace Attachment

variable {search : SiteSearch} {checksums : ChecksumTable} {attachment after : Attachment}
  {subsection frame : Subsection} {frames : List Subsection} {hasColumns : Bool} {index last : Nat}

/-! ### One subsection -/

/-- What reading a subsection does: nothing, or it gives its tables to a free method. -/
theorem readSubsection_cases
    (h : attachment.readSubsection search checksums subsection content position
      = .done after last) :
    ∃ header, LinesHeader.read content subsection.start = .done header (subsection.start + 12) ∧
      (attachment.free? search ⟨header.segment, header.address⟩ = none ∧ after = attachment ∨
        ∃ index tables, attachment.free? search ⟨header.segment, header.address⟩ = some index ∧
          LineTable.readBlocks checksums header.hasColumns subsection.stop content
              (subsection.start + 12) = .done tables last ∧
            after = attachment.attach index tables) := by
  obtain ⟨_, _, hseek, h⟩ := Reader.bind_eq_done_iff.mp h
  obtain ⟨-, rfl⟩ := Reader.seek_eq_done_iff.mp hseek
  obtain ⟨header, _, hheader, h⟩ := Reader.bind_eq_done_iff.mp h
  obtain ⟨rfl, -⟩ := LinesHeader.read_stop hheader
  refine ⟨header, hheader, ?_⟩
  cases hfree : attachment.free? search ⟨header.segment, header.address⟩ with
  | none =>
    rw [hfree] at h
    cases h
    exact .inl ⟨rfl, rfl⟩
  | some index =>
    rw [hfree] at h
    obtain ⟨tables, _, htables, h⟩ := Reader.bind_eq_done_iff.mp h
    cases h
    exact .inr ⟨index, tables, rfl, htables, rfl⟩

/-- A block that is refused stands in the subsection, behind its header. -/
theorem readSubsection_refused {offset stopped : Nat}
    (h : attachment.readSubsection search checksums subsection content position
      = .failed (.ofKindAt .invalidLineBlock offset) stopped) :
    ∃ header index,
      LinesHeader.read content subsection.start = .done header (subsection.start + 12) ∧
      attachment.free? search ⟨header.segment, header.address⟩ = some index ∧
      LineTable.readBlocks checksums header.hasColumns subsection.stop content
        (subsection.start + 12) = .failed (.ofKindAt .invalidLineBlock offset) stopped := by
  rcases Reader.bind_eq_failed_iff.mp h with hseek | ⟨_, _, hseek, h⟩
  · cases Reader.OnlyEnds.seek _ _ _ _ _ hseek
  obtain ⟨-, rfl⟩ := Reader.seek_eq_done_iff.mp hseek
  rcases Reader.bind_eq_failed_iff.mp h with hheader | ⟨header, _, hheader, h⟩
  · cases Reader.OnlyEnds.linesHeader _ _ _ _ hheader
  obtain ⟨rfl, -⟩ := LinesHeader.read_stop hheader
  cases hfree : attachment.free? search ⟨header.segment, header.address⟩ with
  | none =>
    rw [hfree] at h
    cases h
  | some index =>
    rw [hfree] at h
    rcases Reader.bind_eq_failed_iff.mp h with hblocks | ⟨_, _, -, h⟩
    · exact ⟨header, index, hheader, hfree, hblocks⟩
    · cases h

/-! ### Methods that have got their lines -/

theorem isTaken_of_free? {site : Site} (h : attachment.free? search site = some index) :
    attachment.isTaken index = false := by
  obtain ⟨found, -, hfrom⟩ := Option.bind_eq_some_iff.mp h
  rw [freeFrom] at hfrom
  generalize (if attachment.isTaken found then attachment.forwardToFree site found
    else attachment.backToFirstFree site found) = target at hfrom
  split at hfrom
  · cases hfrom
  · next hfree =>
    cases hfrom
    exact Bool.not_eq_true _ ▸ hfree

/-- Each method has a mark. -/
def Marked (attachment : Attachment) : Prop := attachment.taken.size = attachment.methods.size

theorem Marked.ofMethods (methods : List Method) : (Attachment.ofMethods methods).Marked := by
  simp [Marked, Attachment.ofMethods]

theorem Marked.attach (marked : attachment.Marked) (tables : List LineTable) :
    (attachment.attach index tables).Marked := by
  simpa [Marked, Attachment.attach] using marked

theorem Marked.exists_method (marked : attachment.Marked)
    (free : attachment.isTaken index = false) :
    ∃ method, attachment.methods[index]? = some method := by
  rcases Nat.lt_or_ge index attachment.methods.size with hlt | hge
  · exact ⟨_, Array.getElem?_eq_getElem hlt⟩
  · rw [isTaken, Array.getElem?_eq_none (by rw [marked]; exact hge)] at free
    cases free

/-- A method that has its lines keeps them. -/
structure Keeps (attachment after : Attachment) (index : Nat) : Prop where
  method : after.methods[index]? = attachment.methods[index]?
  taken : after.isTaken index = true

theorem readSubsection_keeps (taken : attachment.isTaken index = true)
    (h : attachment.readSubsection search checksums subsection content position
      = .done after last) : attachment.Keeps after index := by
  obtain ⟨header, -, ⟨-, rfl⟩ | ⟨target, tables, hfree, -, rfl⟩⟩ := readSubsection_cases h
  · exact ⟨rfl, taken⟩
  · have hne : target ≠ index := by
      rintro rfl
      rw [isTaken_of_free? hfree] at taken
      cases taken
    exact ⟨getElem?_attach_of_ne hne, (isTaken_attach_of_ne hne).trans taken⟩

theorem readSubsections_keeps (taken : attachment.isTaken index = true)
    (h : attachment.readSubsections search checksums frames content position
      = .done after last) : attachment.Keeps after index := by
  induction frames generalizing attachment position with
  | nil =>
    cases h
    exact ⟨rfl, taken⟩
  | cons subsection rest ih =>
    obtain ⟨between, _, hfirst, hrest⟩ := Reader.bind_eq_done_iff.mp h
    have hkept := readSubsection_keeps taken hfirst
    have hrest := ih hkept.taken hrest
    exact ⟨hrest.method.trans hkept.method, hrest.taken⟩

theorem Marked.readSubsection (marked : attachment.Marked)
    (h : attachment.readSubsection search checksums subsection content position
      = .done after last) : after.Marked := by
  obtain ⟨header, -, ⟨-, rfl⟩ | ⟨target, tables, -, -, rfl⟩⟩ := readSubsection_cases h
  · exact marked
  · exact marked.attach tables

/-! ### Subsections with a method -/

/-- Among the subsections that are read one after the other, one has a method at an index. -/
inductive Serves (search : SiteSearch) (checksums : ChecksumTable) (content : ByteArray) :
    Attachment → (position : Nat) → List Subsection → (frame : Subsection) →
      (hasColumns : Bool) → (index : Nat) → Prop
  | here {attachment : Attachment} {position blocks index : Nat} {frame : Subsection}
      {rest : List Subsection} {header : LinesHeader} :
      LinesHeader.read content frame.start = .done header blocks →
        attachment.free? search ⟨header.segment, header.address⟩ = some index →
          Serves search checksums content attachment position (frame :: rest) frame
            header.hasColumns index
  | later {attachment between : Attachment} {position middle index : Nat}
      {earlier frame : Subsection} {rest : List Subsection} {hasColumns : Bool} :
      attachment.readSubsection search checksums earlier content position = .done between middle →
        Serves search checksums content between middle rest frame hasColumns index →
          Serves search checksums content attachment position (earlier :: rest) frame hasColumns
            index

namespace Serves

theorem mem
    (serves : attachment.Serves search checksums content position frames frame hasColumns index) :
    frame ∈ frames := by
  induction serves with
  | here => exact List.mem_cons_self
  | later _ _ ih => exact List.mem_cons_of_mem _ ih

/-- If all subsections are accepted, the method has the tables of its subsection. -/
theorem exists_tables
    (serves : attachment.Serves search checksums content position frames frame hasColumns index)
    (marked : attachment.Marked)
    (h : attachment.readSubsections search checksums frames content position = .done after last) :
    ∃ method behind, after.methods[index]? = some method ∧
      LineTable.readBlocks checksums hasColumns frame.stop content (frame.start + 12)
        = .done method.lines behind := by
  induction serves with
  | here hheader hfree =>
    obtain ⟨between, middle, hfirst, hrest⟩ := Reader.bind_eq_done_iff.mp h
    obtain ⟨header, hheader', hcases⟩ := readSubsection_cases hfirst
    rw [hheader] at hheader'
    cases hheader'
    rcases hcases with ⟨hnone, -⟩ | ⟨target, tables, hfree', htables, rfl⟩
    · rw [hfree] at hnone
      cases hnone
    · rw [hfree] at hfree'
      cases hfree'
      obtain ⟨method, hmethod⟩ := marked.exists_method (isTaken_of_free? hfree)
      have hkept := (readSubsections_keeps isTaken_attach_self hrest).method
      rw [getElem?_attach_self hmethod] at hkept
      exact ⟨_, middle, hkept, htables⟩
  | later hearlier _ ih =>
    obtain ⟨between, middle, hfirst, hrest⟩ := Reader.bind_eq_done_iff.mp h
    rw [hearlier] at hfirst
    cases hfirst
    exact ih (marked.readSubsection hearlier) hrest

end Serves

/-- A block that is refused stands behind the start of some subsection. -/
theorem exists_frame_of_refused {offset stopped : Nat}
    (inside : ∀ frame ∈ frames, frame.stop ≤ content.size)
    (h : attachment.readSubsections search checksums frames content position
      = .failed (.ofKindAt .invalidLineBlock offset) stopped) :
    ∃ frame ∈ frames, frame.start ≤ offset := by
  induction frames generalizing attachment position with
  | nil => cases h
  | cons frame rest ih =>
    obtain ⟨hframe, hinside⟩ := List.forall_mem_cons.mp inside
    rcases Reader.bind_eq_failed_iff.mp h with hfirst | ⟨_, _, -, hrest⟩
    · obtain ⟨header, index, -, -, hblocks⟩ := readSubsection_refused hfirst
      have hoffset := LineTable.inside_of_whileBelow hframe
        (LineTable.readBlocks_eq_failed_iff.mp hblocks)
      exact ⟨frame, List.mem_cons_self, by omega⟩
    · obtain ⟨later, member, hlater⟩ := ih hinside hrest
      exact ⟨later, List.mem_cons_of_mem _ member, hlater⟩

/-- A block of a subsection with a method is the reason why a region is refused if it passes the end
of its subsection, and only then. -/
theorem Serves.refused_iff
    (serves : attachment.Serves search checksums content position frames frame hasColumns index)
    (inside : ∀ frame ∈ frames, frame.stop ≤ content.size) (ordered : Subsection.Ordered frames)
    {tables : Array LineTable} {block : Nat}
    (reaches : Reader.Reaches frame.stop
      (LineTable.readNextBlock checksums hasColumns frame.stop) content #[] (frame.start + 12)
      tables block)
    (hlt : block < frame.stop) (hheader : block + 12 ≤ content.size) :
    (∃ stopped, attachment.readSubsections search checksums frames content position
      = .failed (.ofKindAt .invalidLineBlock block) stopped) ↔
        frame.stop < LineTable.blockStop content hasColumns block := by
  induction serves with
  | @here attachment position blocks index frame rest header hread hfree =>
    obtain ⟨hframe, hinside⟩ := List.forall_mem_cons.mp inside
    have hblocks := LineTable.readBlocks_refused_iff reaches hlt hheader hframe
    rw [← hblocks]
    constructor
    · rintro ⟨stopped, h⟩
      rcases Reader.bind_eq_failed_iff.mp h with hfirst | ⟨_, _, -, hrest⟩
      · obtain ⟨header', index', hread', -, hfailed⟩ := readSubsection_refused hfirst
        rw [hread] at hread'
        cases hread'
        exact ⟨stopped, hfailed⟩
      · -- later subsections start behind the end of this one
        obtain ⟨later, member, hlater⟩ := exists_frame_of_refused hinside hrest
        have hbehind := (List.pairwise_cons.mp ordered).1 later member
        omega
    · rintro ⟨stopped, hfailed⟩
      obtain ⟨rfl, hsize⟩ := LinesHeader.read_stop hread
      refine ⟨stopped, Reader.bind_eq_failed_iff.mpr (.inl ?_)⟩
      rw [readSubsection, Reader.bind_apply, Reader.seek_of_le (by omega)]
      dsimp only
      rw [Reader.bind_apply, hread]
      dsimp only
      rw [hfree]
      exact Reader.bind_eq_failed_iff.mpr (.inl hfailed)
  | later hearlier _ ih =>
    rw [← ih (List.forall_mem_cons.mp inside).2 (List.pairwise_cons.mp ordered).2 reaches hlt]
    refine exists_congr fun stopped => ?_
    rw [readSubsections, Reader.bind_apply, hearlier]

end Attachment

/-! ### A line region -/

variable {search : SiteSearch} {checksums : ChecksumTable} {methods : List Method}
  {start stop behind index : Nat} {frames : List Subsection} {frame : Subsection}
  {hasColumns : Bool}

/-- A lines subsection that has a method gives it the blocks that tile the subsection behind its
header, if the region is accepted.  A block of it with a header that can be read is the reason why
the region is refused if it passes the end of the subsection, and only then; otherwise the block is
read as the format says. -/
theorem readLinesBy_tiles
    (hframes : Subsection.readKind Subsection.linesKind start stop content position
      = .done frames behind)
    (serves : (Attachment.ofMethods methods).Serves search checksums content behind frames frame
      hasColumns index) :
    (∀ lined last, readLinesBy search checksums start stop methods content position
        = .done lined last → frame.start + 12 ≤ frame.stop →
      ∃ method, lined[index]? = some method ∧
        LineTable.Tiles content checksums hasColumns frame.stop (frame.start + 12) method.lines) ∧
    ∀ tables block, Reader.Reaches frame.stop
        (LineTable.readNextBlock checksums hasColumns frame.stop) content #[] (frame.start + 12)
        tables block →
      block < frame.stop → block + 12 ≤ content.size →
        ((∃ stopped, readLinesBy search checksums start stop methods content position
            = .failed (.ofKindAt .invalidLineBlock block) stopped) ↔
          frame.stop < LineTable.blockStop content hasColumns block) ∧
        (LineTable.blockStop content hasColumns block ≤ frame.stop →
          LineTable.readBlock checksums hasColumns frame.stop content block
            = .done (LineTable.atOffset content checksums hasColumns block)
                (LineTable.blockStop content hasColumns block)) := by
  have hinside : ∀ frame ∈ frames, frame.stop ≤ content.size := fun frame member =>
    (Subsection.readKind_inside hframes frame member).stop_le_size
  have hframe := hinside frame serves.mem
  constructor
  · intro lined last h hsize
    obtain ⟨_, _, hframes', h⟩ := Reader.bind_eq_done_iff.mp h
    rw [hframes] at hframes'
    cases hframes'
    obtain ⟨after, _, hafter, h⟩ := Reader.bind_eq_done_iff.mp h
    cases h
    obtain ⟨method, _, hmethod, hblocks⟩ := serves.exists_tables (.ofMethods methods) hafter
    exact ⟨method, by rwa [Array.getElem?_toList], .of_readBlocks hsize hframe hblocks⟩
  · intro tables block reaches hlt hheader
    constructor
    · rw [← serves.refused_iff hinside (Subsection.readKind_ordered hframes) reaches hlt hheader]
      refine exists_congr fun stopped => ?_
      rw [readLinesBy, Reader.bind_apply, hframes]
      dsimp only
      rw [Reader.bind_eq_failed_iff]
      constructor
      · rintro (h | ⟨_, _, -, h⟩)
        · exact h
        · cases h
      · exact .inl
    · intro hfits
      rw [LineTable.readBlock_eq hheader hframe, if_neg (Nat.not_lt.mpr hfits)]

/-- A lines subsection of one block with the given count, and two entries with columns. -/
def twoEntries (count : UInt8) : ByteArray := ⟨#[
  0xf2, 0, 0, 0, 48, 0, 0, 0, 0, 1, 0, 0, 1, 0, 1, 0, 0, 0, 0, 0,
  7, 0, 0, 0, count, 0, 0, 0, 36, 0, 0, 0,
  0, 0, 0, 0, 5, 0, 0, 0x82, 4, 0, 0, 0, 9, 0, 0, 0x80,
  1, 0, 10, 0, 3, 0, 20, 0]⟩

theorem readLinesBy_tiles_twoEntries :
    let method : List LineTable → Method := fun lines =>
      ⟨3, 1, 0x100, 0, 0, none, default, [], none, none, none, [], none, lines⟩
    let lines := [⟨0, 5, 7, 1, 10⟩, ⟨4, 9, 9, 3, 20⟩]
    readLinesBy .binary ∅ 0 56 [method []] (twoEntries 2) 0
      = .done [method [⟨7, none, lines⟩]] 56 ∧
    LineTable.Tiles (twoEntries 2) ∅ true 56 20 [⟨7, none, lines⟩] ∧
    ∃ stopped, readLinesBy .binary ∅ 0 56 [method []] (twoEntries 3) 0
      = .failed (.ofKindAt .invalidLineBlock 20) stopped := by
  intro method lines
  have hframes : ∀ count, Subsection.readKind Subsection.linesKind 0 56 (twoEntries count) 0
      = .done [⟨0xf2, 8, 56⟩] 56 := by
    intro count
    cbv
  have hheader : ∀ count, LinesHeader.read (twoEntries count) 8 = .done ⟨0x100, 1, true⟩ 20 := by
    intro count
    cbv
  have hfree : (Attachment.ofMethods [method []]).free? .binary ⟨1, 0x100⟩ = some 0 := by cbv
  have hserves (count : UInt8) : (Attachment.ofMethods [method []]).Serves .binary ∅
      (twoEntries count) 56 [⟨0xf2, 8, 56⟩] ⟨0xf2, 8, 56⟩ true 0 :=
    @Attachment.Serves.here _ _ _ _ _ _ _ _ _ ⟨0x100, 1, true⟩ (hheader count) hfree
  have haccepted : readLinesBy .binary ∅ 0 56 [method []] (twoEntries 2) 0
      = .done [method [⟨7, none, lines⟩]] 56 := by cbv
  obtain ⟨haccepts, -⟩ := readLinesBy_tiles (hframes 2) (hserves 2)
  obtain ⟨-, hrefuses⟩ := readLinesBy_tiles (hframes 3) (hserves 3)
  refine ⟨haccepted, ?_, ?_⟩
  · obtain ⟨found, hfound, tiles⟩ := haccepts _ _ haccepted (by decide)
    cases hfound
    exact tiles
  · exact (hrefuses #[] 20 .start (by decide) (by decide)).1.mpr (by decide +kernel)

end ManagedPdb
