import ManagedPdb.Line.Attachment
import ManagedPdb.Proofs.Ahead
import ManagedPdb.Proofs.Line.ChecksumRecord
import ManagedPdb.Proofs.Loops
import ManagedPdb.Proofs.Symbol.Frames

/-!
# Frames of a line region

A line region is a row of subsections, and their frames lie in the region.  What is in a subsection
is not held to its frame, except for the blocks of lines: a checksum record or the header of a lines
subsection is read from the whole stream, behind the subsection and even behind the region.
`InFrame.readChecksums` and `InFrame.readLines` are the decoders that do hold it.  What they give
depends on nothing but the region (`lineRegion_frames`), and what they accept is decoded in the same
way; but the decoders accept more, and give other results for the same region
(`checksums_short_subsection`).
-/

namespace ManagedPdb

variable {α σ : Type}

/-! ### Frames in the region -/

theorem Reader.Reaches.of_whileBelow {stop : Nat} {body : σ → Reader σ} {content : ByteArray}
    {first state value : σ} {start position last : Nat}
    (reaches : Reaches stop body content first start state position)
    (h : whileBelow stop body state content position = .done value last) :
    Reaches stop body content first start value last := by
  induction hlength : content.size - position using Nat.strongRecOn
    generalizing position state with
  | ind _ ih =>
    subst hlength
    rcases Nat.lt_or_ge position stop with hstop | hstop
    · rcases whileBelow_eq_done h with ⟨hle, -, -⟩ | ⟨state', next, hfirst, hlt, hle, hrest⟩
      · omega
      · exact ih _ (by omega) (reaches.step hstop hfirst hlt hle) hrest rfl
    · rw [whileBelow_of_le hstop] at h
      cases h
      exact reaches

/-- The frame lies behind `start`, inside the region and the content. -/
structure Subsection.Inside (frame : Subsection) (start limit : Nat) (content : ByteArray) :
    Prop where
  behind : start + 8 ≤ frame.start
  start_le_stop : frame.start ≤ frame.stop
  stop_le_limit : frame.stop ≤ limit
  stop_le_size : frame.stop ≤ content.size

namespace Subsection

variable {start limit position next : Nat} {content : ByteArray}

theorem readNext_inside {found found' : Array Subsection} (hposition : start ≤ position)
    (inside : ∀ frame ∈ found, frame.Inside start limit content)
    (h : readNext limit found content position = .done found' next) :
    ∀ frame ∈ found', frame.Inside start limit content := by
  unfold readNext at h
  obtain ⟨kind, _, hkind, h⟩ := Reader.bind_eq_done_iff.mp h
  obtain ⟨-, -, rfl⟩ := Reader.uint32_eq_done hkind
  obtain ⟨length, _, hlength, h⟩ := Reader.bind_eq_done_iff.mp h
  obtain ⟨-, -, rfl⟩ := Reader.uint32_eq_done hlength
  obtain ⟨_, _, hstart, h⟩ := Reader.bind_eq_done_iff.mp h
  cases hstart
  by_cases hlimit : limit < position + 4 + 4 + length.toNat
  · rw [if_pos hlimit] at h
    cases h
  rw [if_neg hlimit] at h
  obtain ⟨_, _, hseek, h⟩ := Reader.bind_eq_done_iff.mp h
  obtain ⟨hsize, rfl⟩ := Reader.seek_eq_done_iff.mp hseek
  obtain ⟨_, _, -, h⟩ := Reader.bind_eq_done_iff.mp h
  split at h
  · cases h
    intro frame member
    rcases Array.mem_push.mp member with member | rfl
    · exact inside frame member
    · constructor <;> dsimp only <;> omega
  · cases h
    exact inside

/-- The frames of a region lie in it. -/
theorem readAll_inside {frames : List Subsection}
    (h : readAll start limit content position = .done frames next) :
    ∀ frame ∈ frames, frame.Inside start limit content := by
  obtain ⟨_, first, hseek, hfound⟩ := Reader.bind_eq_done_iff.mp h
  obtain ⟨-, hfirst⟩ := Reader.seek_eq_done_iff.mp hseek
  rw [hfirst] at hfound
  obtain ⟨found, _, hloop, hframes⟩ := Reader.bind_eq_done_iff.mp hfound
  cases hframes
  have hall : ∀ {found last}, Reader.Reaches limit (readNext limit) content #[] start found last →
      start ≤ last ∧ ∀ frame ∈ found, frame.Inside start limit content := by
    intro found last reaches
    induction reaches with
    | start => exact ⟨Nat.le_refl _, by simp⟩
    | step _ _ hstep hlt _ ih =>
      exact ⟨Nat.le_trans ih.1 (Nat.le_of_lt hlt), readNext_inside ih.1 ih.2 hstep⟩
  intro frame member
  exact (hall (.of_whileBelow .start hloop)).2 frame (Array.mem_toList_iff.mp member)

theorem readKind_inside {kind : UInt32} {frames : List Subsection}
    (h : readKind kind start limit content position = .done frames next) :
    ∀ frame ∈ frames, frame.Inside start limit content := by
  obtain ⟨all, _, hall, h⟩ := Reader.bind_eq_done_iff.mp h
  cases h
  intro frame member
  exact readAll_inside hall frame (List.mem_filter.mp member).1

end Subsection

/-! ### Decoding inside the frames -/

/-- The head of a checksum record and its checksum: the name, the kind and the bytes. -/
def ChecksumRecord.readFields : Reader (UInt32 × UInt8 × ByteArray) := do
  let nameId ← Reader.uint32
  let length ← Reader.uint8
  let kind ← Reader.uint8
  let checksum ← Reader.bytes length.toNat
  return (nameId, kind, checksum)

namespace InFrame

/-- The next checksum record, as in `ChecksumTable.readRecord`, with all its bytes from its
subsection. -/
def readChecksumRecord (load : SourceLoader σ) (subsection : Subsection)
    (state : ChecksumTable × σ) : Reader (ChecksumTable × σ) := do
  let fileId := UInt32.ofNat ((← Reader.position) - subsection.start)
  let fields ← Reader.within subsection.stop ChecksumRecord.readFields
  let entered ← Reader.ofExcept (load fields.1 fields.2.1 fields.2.2 state.2)
  Reader.align 4
  return (state.1.insert fileId entered.1, entered.2)

def readChecksumSubsections (load : SourceLoader σ) (state : ChecksumTable × σ) :
    (subsections : List Subsection) → Reader (ChecksumTable × σ)
  | [] => return state
  | subsection :: rest => do
    Reader.seek subsection.start
    let state ← Reader.whileBelow subsection.stop (readChecksumRecord load subsection) state
    readChecksumSubsections load state rest

/-- The source files of a module, as in `ChecksumTable.read`, from the bytes in front of `stop` and
with every record inside its subsection. -/
def readChecksums (load : SourceLoader σ) (start stop : Nat) (sources : σ) :
    Reader (ChecksumTable × σ) :=
  Reader.within stop do
    let subsections ← Subsection.readKind Subsection.checksumsKind start stop
    readChecksumSubsections load (∅, sources) subsections

/-- A lines subsection, as in `Attachment.readSubsection`, with its header inside it. -/
def readLinesSubsection (checksums : ChecksumTable) (attachment : Attachment)
    (subsection : Subsection) : Reader Attachment := do
  Reader.seek subsection.start
  let header ← Reader.within subsection.stop LinesHeader.read
  match attachment.free? .binary ⟨header.segment, header.address⟩ with
  | none => return attachment
  | some index =>
    return attachment.attach index
      (← LineTable.readBlocks checksums header.hasColumns subsection.stop)

def readLinesSubsections (checksums : ChecksumTable) (attachment : Attachment) :
    (subsections : List Subsection) → Reader Attachment
  | [] => return attachment
  | subsection :: rest => do
    let attachment ← readLinesSubsection checksums attachment subsection
    readLinesSubsections checksums attachment rest

/-- The methods with their lines, as in `ManagedPdb.readLines`, from the bytes in front of `stop`
and with every header inside its subsection. -/
def readLines (checksums : ChecksumTable) (start stop : Nat) (methods : List Method) :
    Reader (List Method) :=
  Reader.within stop do
    let subsections ← Subsection.readKind Subsection.linesKind start stop
    let attachment ← readLinesSubsections checksums (Attachment.ofMethods methods) subsections
    return attachment.methods.toList

end InFrame

/-! ### What is accepted inside the frames -/

namespace Reader.Stable

protected theorem ofExcept (result : Except DecodeError α) : Stable (Reader.ofExcept result) := by
  cases result with
  | ok value => exact .pure value
  | error error => exact ⟨nofun⟩

protected theorem whileBelow (stop : Nat) {body : σ → Reader σ}
    (hbody : ∀ state, Stable (body state)) (state : σ) :
    Stable (Reader.whileBelow stop body state) := by
  refine Stable.iterate (fun state => Stable.position.bind fun position => ?_) state
  exact .ite ((hbody state).bind fun _ => .pure _) (.pure _)

theorem subsections (kind : UInt32) (start limit : Nat) :
    Stable (Subsection.readKind kind start limit) := by
  have hnext : ∀ found, Stable (Subsection.readNext limit found) := by
    intro found
    have hrest : ∀ (kind : UInt32) (start stop : Nat), Stable (do
        Reader.seek stop
        Reader.align 4
        if kind &&& Subsection.ignoredFlag = 0 then return found.push { kind, start, stop }
        else return found) := fun kind start stop =>
      (Stable.seek _).bind fun _ => (Stable.align 4).bind fun _ => .ite (.pure _) (.pure _)
    refine Stable.uint32.bind fun kind => Stable.uint32.bind fun length =>
      Stable.position.bind fun start => ?_
    exact .ite (.bind (.failAt ..) fun _ => hrest ..) (hrest ..)
  have hall : Stable (Subsection.readAll start limit) :=
    (Stable.seek start).bind fun _ => (Stable.whileBelow limit hnext #[]).bind fun _ => .pure _
  exact hall.bind fun _ => .pure _

theorem checksumFields : Stable ChecksumRecord.readFields :=
  Stable.uint32.bind fun _ => Stable.uint8.bind fun _ => Stable.uint8.bind fun _ =>
    (Stable.bytes _).bind fun _ => .pure _

theorem checksumRecord (load : SourceLoader σ) (start : Nat) (state : ChecksumTable × σ) :
    Stable (ChecksumTable.readRecord load start state) :=
  Stable.position.bind fun _ => Stable.uint32.bind fun _ => Stable.uint8.bind fun _ =>
    Stable.uint8.bind fun _ => (Stable.bytes _).bind fun _ => (Stable.ofExcept _).bind fun _ =>
      (Stable.align 4).bind fun _ => .pure _

theorem checksumSubsections (load : SourceLoader σ) (subsections : List Subsection)
    (state : ChecksumTable × σ) :
    Stable (ChecksumTable.readSubsections load state subsections) := by
  induction subsections generalizing state with
  | nil => exact .pure state
  | cons subsection rest ih =>
    exact (Stable.seek _).bind fun _ =>
      (Stable.whileBelow _ (checksumRecord load subsection.start) state).bind ih

theorem checksums (load : SourceLoader σ) (start stop : Nat) (sources : σ) :
    Stable (ChecksumTable.read load start stop sources) :=
  (subsections ..).bind fun _ => checksumSubsections load _ _

theorem linesHeader : Stable LinesHeader.read :=
  Stable.uint32.bind fun _ => Stable.uint16.bind fun _ => Stable.uint16.bind fun _ =>
    Stable.uint32.bind fun _ => .pure _

theorem lineColumns (lines : List LineRecord) (before : Array LineRecord) :
    Stable (LineRecord.readColumns before lines) := by
  induction lines generalizing before with
  | nil => exact .pure _
  | cons line lines ih => exact Stable.uint16.bind fun _ => Stable.uint16.bind fun _ => ih _

theorem lineBlocks (checksums : ChecksumTable) (hasColumns : Bool) (stop : Nat) :
    Stable (LineTable.readBlocks checksums hasColumns stop) := by
  have hrecord : Stable LineRecord.read :=
    Stable.uint32.bind fun _ => Stable.uint32.bind fun _ => .pure _
  have hblock : Stable (LineTable.readBlock checksums hasColumns stop) := by
    refine Stable.position.bind fun start => Stable.uint32.bind fun fileId =>
      Stable.uint32.bind fun count => Stable.uint32.bind fun _ => Stable.position.bind
        fun inside => ?_
    have hlines : Stable (do
        let lines ← Reader.times count.toNat LineRecord.read
        let lines ← if hasColumns then LineRecord.readColumns #[] lines else pure lines
        Reader.seek (inside + count.toNat * LineTable.entrySize hasColumns)
        return ({ fileId, file := checksums.file? fileId, lines } : LineTable)) := by
      refine (Stable.times _ hrecord).bind fun lines => ?_
      have hlast : ∀ lines, Stable (do
          Reader.seek (inside + count.toNat * LineTable.entrySize hasColumns)
          return ({ fileId, file := checksums.file? fileId, lines } : LineTable)) :=
        fun lines => (Stable.seek _).bind fun _ => .pure _
      exact .ite ((lineColumns lines #[]).bind hlast) ((Stable.pure lines).bind hlast)
    exact .ite (.bind (.failAt ..) fun _ => hlines) hlines
  exact (Stable.whileBelow stop (fun _ => hblock.bind fun _ => .pure _) #[]).bind fun _ => .pure _

end Reader.Stable

theorem Reader.Stable.linesSubsection (checksums : ChecksumTable) (attachment : Attachment)
    (subsection : Subsection) :
    Stable (attachment.readSubsection .binary checksums subsection) := by
  refine (Stable.seek _).bind fun _ => linesHeader.bind fun header => ?_
  cases attachment.free? .binary ⟨header.segment, header.address⟩ with
  | none => exact .pure _
  | some index => exact (lineBlocks ..).bind fun _ => .pure _

theorem Reader.Stable.lines (checksums : ChecksumTable) (start stop : Nat)
    (methods : List Method) : Stable (readLines checksums start stop methods) := by
  have hall : ∀ (subsections : List Subsection) (attachment : Attachment),
      Stable (attachment.readSubsections .binary checksums subsections) := by
    intro subsections
    induction subsections with
    | nil => exact fun attachment => .pure attachment
    | cons subsection rest ih =>
      exact fun attachment => (linesSubsection checksums attachment subsection).bind ih
  exact (subsections ..).bind fun _ => (hall _ _).bind fun _ => .pure _

namespace InFrame

theorem readChecksumRecord_sim (load : SourceLoader σ) (subsection : Subsection)
    (state : ChecksumTable × σ) :
    ReaderSim AnyExcuse Eq (readChecksumRecord load subsection state)
      (ChecksumTable.readRecord load subsection.start state) := by
  have hrecord : ChecksumTable.readRecord load subsection.start state = (do
      let position ← Reader.position
      let fields ← ChecksumRecord.readFields
      let entered ← Reader.ofExcept (load fields.1 fields.2.1 fields.2.2 state.2)
      Reader.align 4
      return (state.1.insert (UInt32.ofNat (position - subsection.start)) entered.1,
        entered.2)) := by
    simp only [ChecksumTable.readRecord, ChecksumRecord.readFields, bind_assoc, pure_bind]
  rw [hrecord]
  refine .bind_same fun position => ?_
  -- only the fields are held to the subsection; loading and padding are the same on both sides
  refine (Reader.Stable.checksumFields.within_sim subsection.stop).bind ?_
  rintro fields _ rfl
  exact .refl _

theorem readChecksumSubsections_sim (load : SourceLoader σ) (subsections : List Subsection)
    (state : ChecksumTable × σ) :
    ReaderSim AnyExcuse Eq (readChecksumSubsections load state subsections)
      (ChecksumTable.readSubsections load state subsections) := by
  induction subsections generalizing state with
  | nil => exact .pure rfl
  | cons subsection rest ih =>
    refine .bind_same fun _ => (ReaderSim.whileBelow ?_ rfl).bind ?_
    · rintro state _ rfl
      exact readChecksumRecord_sim load subsection state
    · rintro state _ rfl
      exact ih state

theorem readLinesSubsection_sim (checksums : ChecksumTable) (attachment : Attachment)
    (subsection : Subsection) :
    ReaderSim AnyExcuse Eq (readLinesSubsection checksums attachment subsection)
      (attachment.readSubsection .binary checksums subsection) := by
  refine .bind_same fun _ => (Reader.Stable.linesHeader.within_sim subsection.stop).bind ?_
  rintro header _ rfl
  exact .refl _

theorem readLinesSubsections_sim (checksums : ChecksumTable) (subsections : List Subsection)
    (attachment : Attachment) :
    ReaderSim AnyExcuse Eq (readLinesSubsections checksums attachment subsections)
      (attachment.readSubsections .binary checksums subsections) := by
  induction subsections generalizing attachment with
  | nil => exact .pure rfl
  | cons subsection rest ih =>
    refine (readLinesSubsection_sim checksums attachment subsection).bind ?_
    rintro attachment _ rfl
    exact ih attachment

/-- What is accepted in front of `stop` is accepted in the whole content. -/
theorem done_of_within {left right : Reader α} (hsim : ReaderSim AnyExcuse Eq left right)
    (hstable : right.Stable) {stop position next : Nat} {content : ByteArray} {value : α}
    (h : left.within stop content position = .done value next) :
    right content position = .done value next := by
  obtain ⟨_, hright, rfl⟩ := hsim.exists_done h
  obtain ⟨_, hwhole, rfl⟩ := (hstable.within_sim stop).exists_done hright
  exact hwhole

theorem readChecksums_done {load : SourceLoader σ} {start stop position next : Nat} {sources : σ}
    {content : ByteArray} {found : ChecksumTable × σ}
    (h : readChecksums load start stop sources content position = .done found next) :
    ChecksumTable.read load start stop sources content position = .done found next :=
  done_of_within (.bind_same fun _ => readChecksumSubsections_sim load _ _)
    (Reader.Stable.checksums load start stop sources) h

theorem readLines_done {checksums : ChecksumTable} {start stop position next : Nat}
    {methods lined : List Method} {content : ByteArray}
    (h : readLines checksums start stop methods content position = .done lined next) :
    ManagedPdb.readLines checksums start stop methods content position = .done lined next := by
  refine done_of_within (.bind_same fun subsections => ?_)
    (Reader.Stable.lines checksums start stop methods) h
  refine (readLinesSubsections_sim checksums subsections _).bind ?_
  rintro attachment _ rfl
  exact .pure rfl

end InFrame

/-! ### Nothing but the region -/

namespace Reader.Ahead

variable {low : Nat}

protected theorem within {reader : Reader α} (h : Ahead low reader) (stop : Nat) :
    Ahead low (reader.within stop) :=
  ⟨fun _ _ _ agree hposition => h.same _ _ _ (agree.extract stop) hposition,
    fun _ _ _ _ hposition hdone => h.stays _ _ _ _ hposition hdone⟩

protected theorem ofExcept (result : Except DecodeError α) :
    Ahead low (Reader.ofExcept result) := by
  cases result with
  | ok value => exact .pure value
  | error error => exact ⟨fun _ _ _ _ _ => rfl, nofun⟩

theorem checksumFields : Ahead low ChecksumRecord.readFields :=
  Ahead.uint32.bind fun _ => Ahead.uint8.bind fun _ => Ahead.uint8.bind fun _ =>
    (Ahead.bytes _).bind fun _ => .pure _

theorem linesHeader : Ahead low LinesHeader.read :=
  Ahead.uint32.bind fun _ => Ahead.uint16.bind fun _ => Ahead.uint16.bind fun _ =>
    Ahead.uint32.bind fun _ => .pure _

theorem lineColumns (lines : List LineRecord) (before : Array LineRecord) :
    Ahead low (LineRecord.readColumns before lines) := by
  induction lines generalizing before with
  | nil => exact .pure _
  | cons line lines ih => exact Ahead.uint16.bind fun _ => Ahead.uint16.bind fun _ => ih _

end Reader.Ahead

namespace Reader.SameFrom

variable {low : Nat}

theorem readNext (limit : Nat) (found : Array Subsection) :
    SameFrom low (Subsection.readNext limit found) := by
  have hrest : ∀ (kind : UInt32) (start stop : Nat), SameFrom low (do
      Reader.seek stop
      Reader.align 4
      if kind &&& Subsection.ignoredFlag = 0 then return found.push { kind, start, stop }
      else return found) := by
    intro kind start stop
    refine SameAnywhere.sameFrom ?_
    exact (SameAnywhere.seek stop).bind fun _ _ _ _ _ =>
      (SameAnywhere.align 4).bind fun _ _ _ _ _ => .ite (.pure _) (.pure _)
  refine .bind .uint32 fun kind => .bind .uint32 fun length => .bind .position fun start => ?_
  exact .ite (.failAt_bind _ _ _) (hrest kind start _)

theorem lineBlocks (checksums : ChecksumTable) (hasColumns : Bool) (stop : Nat) :
    SameFrom low (LineTable.readBlocks checksums hasColumns stop) := by
  have hrecord : Ahead low LineRecord.read :=
    Ahead.uint32.bind fun _ => Ahead.uint32.bind fun _ => .pure _
  have hblock : SameFrom low (LineTable.readBlock checksums hasColumns stop) := by
    refine .bind .position fun start => .bind .uint32 fun fileId => .bind .uint32 fun count =>
      .bind .uint32 fun _ => .bind .position fun inside => ?_
    have hlast : ∀ lines, SameFrom low (do
        Reader.seek (inside + count.toNat * LineTable.entrySize hasColumns)
        return ({ fileId, file := checksums.file? fileId, lines } : LineTable)) :=
      fun lines => (SameAnywhere.seek _).sameFrom.bind_pure _
    have hlines : SameFrom low (do
        let lines ← Reader.times count.toNat LineRecord.read
        let lines ← if hasColumns then LineRecord.readColumns #[] lines else pure lines
        Reader.seek (inside + count.toNat * LineTable.entrySize hasColumns)
        return ({ fileId, file := checksums.file? fileId, lines } : LineTable)) := by
      refine .bind (.times _ hrecord) fun lines => ?_
      exact .ite (.bind (.lineColumns lines #[]) hlast) (.bind (.pure lines) hlast)
    exact .ite (.failAt_bind _ _ _) hlines
  have hblocks : SameFrom low (Reader.whileBelow stop (fun tables => do
      return tables.push (← LineTable.readBlock checksums hasColumns stop)) #[]) :=
    .whileBelow (fun _ => hblock.bind_pure _) _
  exact hblocks.bind_pure _

theorem checksumRecord (load : SourceLoader σ) (subsection : Subsection)
    (state : ChecksumTable × σ) :
    SameFrom low (InFrame.readChecksumRecord load subsection state) := by
  refine .bind .position fun position => .bind (.within .checksumFields _) fun fields =>
    .bind (.ofExcept _) fun entered => ?_
  exact (SameAnywhere.align 4).sameFrom.bind_pure _

end Reader.SameFrom

namespace Reader.SameAnywhere

variable {start : Nat}

theorem readKind (kind : UInt32) (limit : Nat) :
    SameAnywhere start (Subsection.readKind kind start limit) := by
  have hall : SameAnywhere start (Subsection.readAll start limit) := by
    refine .seek_bind (Nat.le_refl start) (SameFrom.bind_pure ?_ _)
    exact .whileBelow (SameFrom.readNext limit) _
  exact hall.bind fun _ _ _ _ _ => .pure _

theorem checksumSubsections (load : SourceLoader σ) {subsections : List Subsection}
    (behind : ∀ subsection ∈ subsections, start ≤ subsection.start) (state : ChecksumTable × σ) :
    SameAnywhere start (InFrame.readChecksumSubsections load state subsections) := by
  induction subsections generalizing state with
  | nil => exact .pure state
  | cons subsection rest ih =>
    obtain ⟨hfirst, hrest⟩ := List.forall_mem_cons.mp behind
    exact .seek_bind hfirst
      (.bind_anywhere (.whileBelow (SameFrom.checksumRecord load subsection) state) (ih hrest))

theorem linesSubsection (checksums : ChecksumTable) (attachment : Attachment)
    {subsection : Subsection} (behind : start ≤ subsection.start) :
    SameAnywhere start (InFrame.readLinesSubsection checksums attachment subsection) := by
  refine .seek_bind behind (.bind (.within .linesHeader _) fun header => ?_)
  cases attachment.free? .binary ⟨header.segment, header.address⟩ with
  | none => exact (SameAnywhere.pure _).sameFrom
  | some index => exact (SameFrom.lineBlocks checksums _ _).bind_pure _

theorem linesSubsections (checksums : ChecksumTable) {subsections : List Subsection}
    (behind : ∀ subsection ∈ subsections, start ≤ subsection.start) (attachment : Attachment) :
    SameAnywhere start (InFrame.readLinesSubsections checksums attachment subsections) := by
  induction subsections generalizing attachment with
  | nil => exact .pure attachment
  | cons subsection rest ih =>
    obtain ⟨hfirst, hrest⟩ := List.forall_mem_cons.mp behind
    exact (linesSubsection checksums attachment hfirst).bind fun _ _ _ _ _ => ih hrest _

end Reader.SameAnywhere

theorem Reader.uint8_eq_done {content : ByteArray} {position stop : Nat} {value : UInt8}
    (h : uint8 content position = .done value stop) :
    position + 1 ≤ content.size ∧ stop = position + 1 := by
  obtain ⟨number, middle, hword, h⟩ := bind_eq_done_iff.mp h
  obtain ⟨hle, -, hmiddle⟩ := word_eq_done_iff.mp hword
  cases h
  exact ⟨hle, hmiddle⟩

namespace InFrame

/-- A record that is read in front of `stop` ends there or before. -/
theorem checksumFields_inside {stop position next : Nat} {content : ByteArray}
    {fields : UInt32 × UInt8 × ByteArray}
    (h : ChecksumRecord.readFields.within stop content position = .done fields next) :
    next = position + 6 + fields.2.2.size ∧ next ≤ stop := by
  obtain ⟨nameId, _, hname, h⟩ := Reader.bind_eq_done_iff.mp h
  obtain ⟨-, -, rfl⟩ := Reader.uint32_eq_done hname
  obtain ⟨length, _, hlength, h⟩ := Reader.bind_eq_done_iff.mp h
  obtain ⟨-, rfl⟩ := Reader.uint8_eq_done hlength
  obtain ⟨kind, _, hkind, h⟩ := Reader.bind_eq_done_iff.mp h
  obtain ⟨-, rfl⟩ := Reader.uint8_eq_done hkind
  obtain ⟨checksum, _, hchecksum, h⟩ := Reader.bind_eq_done_iff.mp h
  obtain ⟨hle, hsize, rfl⟩ := Reader.bytes_size hchecksum
  cases h
  rw [ByteArray.size_extract] at hle
  dsimp only
  omega

/-- A header that is read in front of `stop` ends there or before. -/
theorem linesHeader_inside {stop position next : Nat} {content : ByteArray} {header : LinesHeader}
    (h : LinesHeader.read.within stop content position = .done header next) :
    next = position + 12 ∧ next ≤ stop := by
  obtain ⟨_, _, haddress, h⟩ := Reader.bind_eq_done_iff.mp h
  obtain ⟨-, -, rfl⟩ := Reader.uint32_eq_done haddress
  obtain ⟨_, _, hsegment, h⟩ := Reader.bind_eq_done_iff.mp h
  obtain ⟨-, rfl⟩ := Reader.uint16_eq_done hsegment
  obtain ⟨_, _, hflags, h⟩ := Reader.bind_eq_done_iff.mp h
  obtain ⟨-, rfl⟩ := Reader.uint16_eq_done hflags
  obtain ⟨_, _, hsize, h⟩ := Reader.bind_eq_done_iff.mp h
  obtain ⟨hle, -, rfl⟩ := Reader.uint32_eq_done hsize
  cases h
  rw [ByteArray.size_extract] at hle
  omega

variable {start stop : Nat} {left right : ByteArray}

/-- What is read in front of the end of a region is the same for every content with the region. -/
theorem run_region {reader : Reader α} (h : Reader.SameAnywhere start reader)
    (hleft : stop ≤ left.size) (hright : stop ≤ right.size)
    (region : left.extract start stop = right.extract start stop) :
    (reader.within stop).run left = (reader.within stop).run right := by
  have hagree := h _ _ 0 (AgreeFrom.of_region hleft hright region)
  unfold Reader.run Reader.within
  rw [hagree]

theorem readChecksums_region (load : SourceLoader σ) (sources : σ) (hleft : stop ≤ left.size)
    (hright : stop ≤ right.size) (region : left.extract start stop = right.extract start stop) :
    (readChecksums load start stop sources).run left
      = (readChecksums load start stop sources).run right := by
  refine run_region ?_ hleft hright region
  refine (Reader.SameAnywhere.readKind _ _).bind fun content position frames next h => ?_
  refine .checksumSubsections load (fun frame member => ?_) _
  have inside := Subsection.readKind_inside h frame member
  exact Nat.le_trans (Nat.le_add_right start 8) inside.behind

theorem readLines_region (checksums : ChecksumTable) (methods : List Method)
    (hleft : stop ≤ left.size) (hright : stop ≤ right.size)
    (region : left.extract start stop = right.extract start stop) :
    (readLines checksums start stop methods).run left
      = (readLines checksums start stop methods).run right := by
  refine run_region ?_ hleft hright region
  refine (Reader.SameAnywhere.readKind _ _).bind fun content position frames next h => ?_
  have hframes : ∀ attachment, Reader.SameAnywhere start
      (readLinesSubsections checksums attachment frames) := by
    refine .linesSubsections checksums fun frame member => ?_
    have inside := Subsection.readKind_inside h frame member
    exact Nat.le_trans (Nat.le_add_right start 8) inside.behind
  exact (hframes _).bind fun _ _ _ _ _ => .pure _

end InFrame

/-! ### The decoders and the frames -/

variable {start stop : Nat} {left right : ByteArray}

/-- The frames of a line region lie in it.  Decoders that hold records and headers to their frames
look at nothing but the region, and what they accept is decoded from every content with that
region. -/
theorem lineRegion_frames (load : SourceLoader σ) (sources : σ) (checksums : ChecksumTable)
    (methods : List Method) (hleft : stop ≤ left.size) (hright : stop ≤ right.size)
    (region : left.extract start stop = right.extract start stop) :
    (∀ position frames next, Subsection.readAll start stop left position = .done frames next →
      ∀ frame ∈ frames, frame.Inside start stop left) ∧
    (∀ (frame : Subsection) position fields next,
      ChecksumRecord.readFields.within frame.stop left position = .done fields next →
        next = position + 6 + fields.2.2.size ∧ next ≤ frame.stop) ∧
    (∀ (frame : Subsection) position header next,
      LinesHeader.read.within frame.stop left position = .done header next →
        next = position + 12 ∧ next ≤ frame.stop) ∧
    (InFrame.readChecksums load start stop sources).run left
      = (InFrame.readChecksums load start stop sources).run right ∧
    (InFrame.readLines checksums start stop methods).run left
      = (InFrame.readLines checksums start stop methods).run right ∧
    (∀ found, (InFrame.readChecksums load start stop sources).run left = .ok found →
      (ChecksumTable.read load start stop sources).run right = .ok found) ∧
    (∀ lined, (InFrame.readLines checksums start stop methods).run left = .ok lined →
      (readLines checksums start stop methods).run right = .ok lined) := by
  have hchecksums := InFrame.readChecksums_region load sources hleft hright region
  have hlines := InFrame.readLines_region checksums methods hleft hright region
  refine ⟨fun _ _ _ => Subsection.readAll_inside, fun _ _ _ _ => InFrame.checksumFields_inside,
    fun _ _ _ _ => InFrame.linesHeader_inside, hchecksums, hlines, ?_, ?_⟩
  · intro found h
    rw [hchecksums] at h
    obtain ⟨next, hdone⟩ := Reader.run_eq_ok_iff.mp h
    exact Reader.run_eq_ok_iff.mpr ⟨next, InFrame.readChecksums_done hdone⟩
  · intro lined h
    rw [hlines] at h
    obtain ⟨next, hdone⟩ := Reader.run_eq_ok_iff.mp h
    exact Reader.run_eq_ok_iff.mpr ⟨next, InFrame.readLines_done hdone⟩

/-- Keeps the records as they are. -/
def keepRecords : SourceLoader (List (UInt32 × UInt8 × List UInt8)) :=
  fun nameId kind checksum records =>
    .ok (⟨records.length⟩, records ++ [(nameId, kind, checksum.data.toList)])

/-- A checksum subsection with one record, and a lines subsection without blocks. -/
def fullSubsections : ByteArray := ⟨#[
  0xf4, 0, 0, 0, 8, 0, 0, 0, 7, 0, 0, 0, 1, 3, 9, 0,
  0xf2, 0, 0, 0, 12, 0, 0, 0, 0, 16, 0, 0, 1, 0, 0, 0, 4, 0, 0, 0]⟩

theorem exists_of_map_eq_ok {result : Except DecodeError α} {f : α → σ} {value : σ}
    (h : result.map f = .ok value) : ∃ found, result = .ok found ∧ f found = value := by
  cases result with
  | error error => cases h
  | ok found => exact ⟨found, rfl, Except.ok.inj h⟩

theorem lineRegion_frames_fullSubsections :
    ∃ found lined, found.2 = [(7, 3, [9])] ∧ lined = [] ∧
      (ChecksumTable.read keepRecords 0 36 []).run (fullSubsections ++ ⟨#[1]⟩) = .ok found ∧
      (readLines ∅ 0 36 []).run (fullSubsections ++ ⟨#[1]⟩) = .ok lined := by
  have region : fullSubsections.extract 0 36 = (fullSubsections ++ ⟨#[1]⟩).extract 0 36 := by
    decide +kernel
  obtain ⟨-, -, -, -, -, hchecksums, hlines⟩ :=
    lineRegion_frames keepRecords [] ∅ [] (by decide) (by decide) region
  have hfound : ((InFrame.readChecksums keepRecords 0 36 []).run fullSubsections).map (·.2)
      = .ok [(7, 3, [9])] := by decide +kernel
  have hlined : ((InFrame.readLines ∅ 0 36 []).run fullSubsections).map (·.length) = .ok 0 := by
    decide +kernel
  obtain ⟨found, hfound, hrecords⟩ := exists_of_map_eq_ok hfound
  obtain ⟨lined, hlined, hlength⟩ := exists_of_map_eq_ok hlined
  exact ⟨found, lined, hrecords, List.length_eq_zero_iff.mp hlength, hchecksums found hfound,
    hlines lined hlined⟩

/-- The frame of a checksum subsection of length one, and the name of a record. -/
def shortChecksums : ByteArray := ⟨#[0xf4, 0, 0, 0, 1, 0, 0, 0, 7, 0, 0, 0]⟩

/-- The frame of a lines subsection of length one, and an address. -/
def shortLines : ByteArray := ⟨#[0xf2, 0, 0, 0, 1, 0, 0, 0, 0, 16, 0, 0]⟩

/-- The rest of the record, and that of the header, are read from behind the region: its bytes
decide what the record is, and without them there is an error.  Held to its frame, the record is
refused. -/
theorem checksums_short_subsection :
    let records := fun content =>
      ((ChecksumTable.read keepRecords 0 12 []).run content).map (·.2)
    let lined := fun content => ((readLines ∅ 0 12 []).run content).map (·.length)
    records shortChecksums = .error (.ofKindAt .unexpectedEnd 12) ∧
    records (shortChecksums ++ ⟨#[0, 0, 0, 0]⟩) = .ok [(7, 0, [])] ∧
    records (shortChecksums ++ ⟨#[1, 3, 9, 0]⟩) = .ok [(7, 3, [9])] ∧
    ((InFrame.readChecksums keepRecords 0 12 []).run (shortChecksums ++ ⟨#[1, 3, 9, 0]⟩)).map (·.2)
      = .error (.ofKindAt .unexpectedEnd 8) ∧
    lined shortLines = .error (.ofKindAt .unexpectedEnd 12) ∧
    lined (shortLines ++ ⟨#[1, 0, 0, 0, 0, 0, 0, 0]⟩) = .ok 0 := by
  exact ⟨by decide +kernel, by decide +kernel, by decide +kernel, by decide +kernel,
    by decide +kernel, by decide +kernel⟩

end ManagedPdb
