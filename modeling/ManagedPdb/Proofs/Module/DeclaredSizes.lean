import ManagedPdb.Module.DebugStream
import ManagedPdb.Proofs.Draft.Modules
import ManagedPdb.Proofs.Line.Indexed
import ManagedPdb.Proofs.Needs
import ManagedPdb.Proofs.Rows

/-!
# The declared sizes of the debug information stream

The header of the stream declares how long its parts are.  The module descriptors fill their part
exactly, one behind the other (`ModuleRow`), and the stream list is read where the other parts end.
But it is read as eleven streams whatever its declared size: a shorter one is not refused, and the
bytes behind it decide (`DebugStream.read_declared`).  So a list that is too short for the token
remap stream has one all the same (`DebugStream.remapStream_behind_list`).
-/

namespace ManagedPdb

variable {content : ByteArray} {keepNames : Bool} {position next start stop : Nat}

/-! ### The header -/

namespace DebugStreamHeader

/-- The header, with its fields at their offsets. -/
def atStart (content : ByteArray) : DebugStreamHeader where
  age := UInt32.ofNat (LittleEndian.read content 8 4)
  moduleListSize := UInt32.ofNat (LittleEndian.read content 24 4)
  sectionContributionSize := UInt32.ofNat (LittleEndian.read content 28 4)
  sectionMapSize := UInt32.ofNat (LittleEndian.read content 32 4)
  fileInfoSize := UInt32.ofNat (LittleEndian.read content 36 4)
  typeServerMapSize := UInt32.ofNat (LittleEndian.read content 40 4)
  streamListSize := UInt32.ofNat (LittleEndian.read content 48 4)
  editAndContinueSize := UInt32.ofNat (LittleEndian.read content 52 4)

theorem read_of_le (h : 64 ≤ content.size) : read content 0 = .done (atStart content) 64 := by
  simp (disch := omega) only [read, Reader.int32, Reader.bind_apply, Reader.uint32_of_le,
    Reader.uint16_of_le, Reader.pure_apply]
  rfl

protected theorem measured : Reader.Measured read := by
  refine .bind .int32 fun _ => .bind .uint32 fun _ => .bind .uint32 fun _ => ?_
  refine .bind .uint16 fun _ => .bind .uint16 fun _ => .bind .uint16 fun _ => ?_
  refine .bind .uint16 fun _ => .bind .uint16 fun _ => .bind .uint16 fun _ => ?_
  refine .bind .uint32 fun _ => .bind .uint32 fun _ => .bind .uint32 fun _ => ?_
  refine .bind .uint32 fun _ => .bind .uint32 fun _ => .bind .uint32 fun _ => ?_
  refine .bind .uint32 fun _ => .bind .uint32 fun _ => ?_
  exact .bind .uint16 fun _ => .bind .uint16 fun _ => .bind .uint32 fun _ => .pure _

theorem eq_of_read {header : DebugStreamHeader} (h : read content 0 = .done header next) :
    64 ≤ content.size ∧ header = atStart content ∧ next = 64 := by
  -- the header needs all of its bytes, which it finds if more stand behind the content
  have hmore := @read_of_le (content ++ Bytes.zeros 64) (by simp)
  have hsize : 64 ≤ content.size := by
    apply Nat.le_of_not_lt
    intro hlt
    obtain ⟨_, _, hfailed, -⟩ := (DebugStreamHeader.measured.needs hmore).short (Nat.zero_le _) hlt
    rw [Bytes.extract_append_left (Nat.le_refl _), ByteArray.extract_zero_size, h] at hfailed
    cases hfailed
  rw [read_of_le hsize] at h
  cases h
  exact ⟨hsize, rfl, rfl⟩

/-- Where the module list ends. -/
def modulesStop (header : DebugStreamHeader) : Nat := 64 + header.moduleListSize.toNat

/-- Where the stream list starts: behind all other parts. -/
def listStart (header : DebugStreamHeader) : Nat :=
  header.modulesStop + (header.skippedSizes.map UInt32.toNat).sum

/-- Where the stream list is declared to end. -/
def listStop (header : DebugStreamHeader) : Nat := header.listStart + header.streamListSize.toNat

/-- Where the stream list ends, or its eleventh stream. -/
def needed (header : DebugStreamHeader) : Nat :=
  if header.streamListSize = 0 then header.listStart
  else header.listStart + max 22 header.streamListSize.toNat

/-- The token remap stream, which stands in the list if there is one. -/
def remapIn (header : DebugStreamHeader) (content : ByteArray) : Option UInt32 :=
  if header.streamListSize = 0 then none
  else streamOfField (UInt16.ofNat (LittleEndian.read content (header.listStart + 12) 2))

theorem needed_eq_listStop_iff {header : DebugStreamHeader} :
    header.needed = header.listStop ↔
      header.streamListSize = 0 ∨ 22 ≤ header.streamListSize.toNat := by
  rw [needed, listStop]
  by_cases hzero : header.streamListSize = 0
  · simp [hzero]
  · rw [if_neg hzero, or_iff_right hzero]
    omega

end DebugStreamHeader

/-! ### The module list -/

protected theorem SectionContribution.measured : Reader.Measured SectionContribution.read := by
  refine .bind .uint16 fun _ => .bind .uint16 fun _ => .bind .uint32 fun _ => ?_
  refine .bind .uint32 fun _ => .bind .uint32 fun _ => .bind .uint16 fun _ => ?_
  exact .bind .uint16 fun _ => .bind .uint32 fun _ => .bind .uint32 fun _ => .pure _

/-- A descriptor ends with its padding. -/
theorem ModuleDescriptor.endsAligned (keepNames : Bool) :
    Reader.EndsAligned (ModuleDescriptor.read keepNames) := by
  refine .bind .uint32 fun _ => .bind SectionContribution.measured fun _ => ?_
  refine .bind .uint16 fun _ => .bind .uint16 fun _ => .bind .uint32 fun _ => ?_
  refine .bind .uint32 fun _ => .bind .uint32 fun _ => .bind .uint16 fun _ => ?_
  refine .bind .uint16 fun _ => .bind .uint32 fun _ => .bind .uint32 fun _ => ?_
  refine .bind .uint32 fun _ => .bind .terminatedString fun _ => .ite ?_ ?_
  · exact .bind (.map some .terminatedString) fun _ => .align _
  · exact .bind .skipTerminated fun _ => .bind (.pure none) fun _ => .align _

/-- A descriptor, and where it stands. -/
structure ModuleFrame where
  descriptor : ModuleDescriptor
  start : Nat
  stop : Nat

/-- Descriptors that stand one behind the other up to `stop`.  Each starts at a multiple of four and
is read from its own bytes. -/
inductive ModuleRow (keepNames : Bool) (content : ByteArray) (stop : Nat) :
    Nat → List ModuleFrame → Prop
  | done : ModuleRow keepNames content stop stop []
  | step {start next : Nat} {descriptor : ModuleDescriptor} {frames : List ModuleFrame}
      (aligned : start % 4 = 0) (advances : start < next) (inside : next ≤ content.size)
      (needs : Reader.Needs (ModuleDescriptor.read keepNames) content start descriptor next next)
      (rest : ModuleRow keepNames content stop next frames) :
      ModuleRow keepNames content stop start (⟨descriptor, start, next⟩ :: frames)

namespace DebugStream

/-- A turn of the loop over the module list. -/
def readNextModule (keepNames : Bool) (modules : Array ModuleDescriptor) :
    Reader (Array ModuleDescriptor) := do
  return modules.push (← ModuleDescriptor.read keepNames)

theorem readNextModule_eq_done {modules modules' : Array ModuleDescriptor}
    (h : readNextModule keepNames modules content position = .done modules' next) :
    ∃ descriptor, ModuleDescriptor.read keepNames content position = .done descriptor next ∧
      modules' = modules.push descriptor := by
  obtain ⟨descriptor, _, hread, h⟩ := Reader.bind_eq_done_iff.mp h
  cases h
  exact ⟨descriptor, hread, rfl⟩

/-- The loop over the module list comes by a row of descriptors. -/
theorem exists_row_of_whileBelow (hsize : content.size < 2 ^ 64) (haligned : start % 4 = 0)
    (hstart : start ≤ content.size) {before modules : Array ModuleDescriptor}
    (h : Reader.whileBelow stop (readNextModule keepNames) before content start
      = .done modules stop) :
    ∃ frames, ModuleRow keepNames content stop start frames ∧
      modules.toList = before.toList ++ frames.map ModuleFrame.descriptor := by
  -- on the bytes that are left
  induction hlength : content.size - start using Nat.strongRecOn generalizing start before with
  | ind _ ih =>
    subst hlength
    rcases Reader.whileBelow_eq_done h with
      ⟨-, rfl, rfl⟩ | ⟨modules', next, hnext, hlt, hle, hrest⟩
    · exact ⟨[], .done, by simp⟩
    · obtain ⟨descriptor, hread, rfl⟩ := readNextModule_eq_done hnext
      obtain ⟨hmod, hneeds⟩ :=
        (ModuleDescriptor.endsAligned keepNames).needs hsize hstart hread (by omega)
      obtain ⟨frames, row, hmodules⟩ := ih _ (by omega) hmod hle hrest rfl
      refine ⟨_, .step haligned hlt hle hneeds row, ?_⟩
      rw [hmodules]
      simp

end DebugStream

namespace ModuleRow

variable {frames : List ModuleFrame}

theorem le (row : ModuleRow keepNames content stop start frames) : start ≤ stop := by
  induction row with
  | done => exact Nat.le_refl _
  | step _ advances _ _ _ ih => omega

theorem le_size (row : ModuleRow keepNames content stop start frames)
    (hstart : start ≤ content.size) : stop ≤ content.size := by
  induction row with
  | done => exact hstart
  | step _ _ inside _ _ ih => exact ih inside

/-- The loop over the list needs the row, and nothing behind it. -/
theorem needs (row : ModuleRow keepNames content stop start frames)
    (before : Array ModuleDescriptor) :
    Reader.Needs (Reader.whileBelow stop (DebugStream.readNextModule keepNames) before) content
      start (before ++ (frames.map ModuleFrame.descriptor).toArray) stop stop := by
  induction row generalizing before with
  | done => simpa using Reader.Needs.whileBelow_done (Nat.le_refl _)
  | @step start next descriptor frames _ advances inside needs rest ih =>
    have hbody : Reader.Needs (DebugStream.readNextModule keepNames before) content start
        (before.push descriptor) next next := needs.bind_of_le (.pure _) (Nat.le_refl _)
    have hle := rest.le
    have hpush : before ++ ((⟨descriptor, start, next⟩ :: frames).map
        ModuleFrame.descriptor).toArray
          = before.push descriptor ++ (frames.map ModuleFrame.descriptor).toArray := by simp
    rw [hpush]
    exact .whileBelow_step (by omega) advances inside hbody (ih _)

end ModuleRow

/-! ### The parts of the stream -/

namespace DebugStream

/-- The module list is a row of descriptors that fills its declared size. -/
theorem exists_row_of_readModules (hsize : content.size < 2 ^ 64) (haligned : start % 4 = 0)
    (hstart : start ≤ content.size) {size : Nat} {modules : List ModuleDescriptor}
    (h : readModules size keepNames content start = .done modules next) :
    next = start + size ∧ next ≤ content.size ∧
      Reader.Needs (readModules size keepNames) content start modules next next ∧
      ∃ frames, ModuleRow keepNames content next start frames ∧
        modules = frames.map ModuleFrame.descriptor := by
  obtain ⟨_, _, hposition, h⟩ := Reader.bind_eq_done_iff.mp h
  cases hposition
  obtain ⟨found, last, hloop, h⟩ := Reader.bind_eq_done_iff.mp h
  obtain ⟨_, _, hposition, h⟩ := Reader.bind_eq_done_iff.mp h
  cases hposition
  by_cases hlast : last = start + size
  · rw [if_neg (not_not.mpr hlast)] at h
    cases h
    subst hlast
    obtain ⟨frames, row, hmodules⟩ := exists_row_of_whileBelow hsize haligned hstart hloop
    refine ⟨rfl, row.le_size hstart, ?_, frames, row, by simpa using hmodules⟩
    have hfound : found = #[] ++ (frames.map ModuleFrame.descriptor).toArray :=
      Array.toList_inj.mp (by simpa using hmodules)
    refine .bind_of_le .position (.bind_of_le (hfound ▸ row.needs #[])
      (.bind_of_le .position ?_ (Nat.le_refl _)) (Nat.le_refl _)) row.le
    rw [if_neg (not_not.mpr rfl)]
    exact .pure _
  · rw [if_pos hlast] at h
    cases h

theorem measured_skipAll (sizes : List UInt32) : Reader.Measured (skipAll sizes) := by
  induction sizes with
  | nil => exact .pure ()
  | cons size sizes ih => exact .bind (.skip size.toNat) fun _ => ih

theorem skipAll_eq_done {sizes : List UInt32} (h : skipAll sizes content start = .done () next) :
    next = start + (sizes.map UInt32.toNat).sum := by
  induction sizes generalizing start with
  | nil =>
    cases h
    rfl
  | cons size sizes ih =>
    obtain ⟨_, _, hskip, h⟩ := Reader.bind_eq_done_iff.mp h
    obtain ⟨-, -, rfl⟩ := Reader.Stable.skip_eq_done_iff.mp hskip
    rw [ih h, List.map_cons, List.sum_cons, Nat.add_assoc]

theorem skipAll_of_le {sizes : List UInt32}
    (h : start + (sizes.map UInt32.toNat).sum ≤ content.size) :
    skipAll sizes content start = .done () (start + (sizes.map UInt32.toNat).sum) := by
  induction sizes generalizing start with
  | nil => rfl
  | cons size sizes ih =>
    rw [List.map_cons, List.sum_cons, ← Nat.add_assoc] at h ⊢
    rw [skipAll, Reader.bind_apply, Reader.skip, if_pos (by omega)]
    exact ih h

/-- The stream list needs eleven streams, and its declared size. -/
theorem readStreamList_needs {size : Nat} {found : Option UInt32} (hstart : start ≤ content.size)
    (h : readStreamList size content start = .done found next) :
    next = start + size ∧
      found = streamOfField (UInt16.ofNat (LittleEndian.read content (start + 12) 2)) ∧
      Reader.Needs (readStreamList size) content start found next (start + max 22 size) := by
  have hwidth : ∀ {position value next}, Reader.uint16 content position = .done value next →
      next = position + 2 := fun h => (Reader.uint16_eq_done h).2
  obtain ⟨_, _, hposition, h⟩ := Reader.bind_eq_done_iff.mp h
  cases hposition
  obtain ⟨fields, last, htimes, h⟩ := Reader.bind_eq_done_iff.mp h
  obtain ⟨_, _, hseek, h⟩ := Reader.bind_eq_done_iff.mp h
  obtain ⟨hstop, rfl⟩ := Reader.seek_eq_done_iff.mp hseek
  cases h
  obtain ⟨row, rfl⟩ := (Reader.times_eq_done_iff hwidth).mp htimes
  have hneeds := (Reader.Measured.times 11 .uint16 .uint16).needs htimes
  have hinside := hneeds.le_size htimes hstart
  have hsixth : fields[6]? = some (UInt16.ofNat (LittleEndian.read content (start + 12) 2)) := by
    have hread := @Reader.times_eq _ content Reader.uint16
      (fun index => UInt16.ofNat (LittleEndian.read content (start + 2 * index) 2))
      (fun index => start + 2 * index) 11
      fun index hindex => Reader.uint16_of_le (by omega)
    cases htimes.symm.trans hread
    rfl
  refine ⟨rfl, by rw [hsixth]; rfl, ?_⟩
  refine .bind .position (hneeds.bind ((Reader.Needs.seek hstop).bind (.pure _) rfl) rfl) ?_
  omega

/-- The stream behind the parts that are skipped. -/
def readLast (header : DebugStreamHeader) (modules : List ModuleDescriptor) :
    Reader DebugStream := do
  let tokenRemapStream ←
    if header.streamListSize = 0 then pure none
    else readStreamList header.streamListSize.toNat
  return { age := header.age, modules, tokenRemapStream }

theorem readLast_needs {header : DebugStreamHeader} {modules : List ModuleDescriptor}
    {stream : DebugStream} (hstart : header.listStart ≤ content.size)
    (h : readLast header modules content header.listStart = .done stream next) :
    stream = ⟨header.age, modules, header.remapIn content⟩ ∧ next = header.listStop ∧
      Reader.Needs (readLast header modules) content header.listStart stream next
        header.needed := by
  unfold readLast at h ⊢
  unfold DebugStreamHeader.remapIn DebugStreamHeader.listStop DebugStreamHeader.needed
  by_cases hzero : header.streamListSize = 0
  · simp only [if_pos hzero] at h ⊢
    cases h
    refine ⟨rfl, by simp [hzero], .bind_of_le (.pure none) (.pure _) (Nat.le_refl _)⟩
  · simp only [if_neg hzero] at h ⊢
    obtain ⟨found, _, hfound, h⟩ := Reader.bind_eq_done_iff.mp h
    cases h
    obtain ⟨rfl, rfl, hneeds⟩ := readStreamList_needs hstart hfound
    exact ⟨rfl, rfl, hneeds.bind (.pure _) (by omega)⟩

/-! ### The whole stream -/

/-- What is accepted, in content that fits into the address space, starts with the header and the
module descriptors, which fill their declared size one behind the other.  The stream list stands
behind the other parts, and the reader stops where the list is declared to end.

The token remap stream is the seventh stream of the list, whatever the size of the list is, unless
that is zero.  So the bytes up to the declared end decide only if the list is empty or has room for
eleven streams; otherwise they are too few, and the bytes behind them decide as well. -/
theorem read_declared (hsize : content.size < 2 ^ 64) {stream : DebugStream}
    (h : read keepNames content 0 = .done stream next) :
    ∃ header, DebugStreamHeader.read content 0 = .done header 64 ∧
      header = DebugStreamHeader.atStart content ∧ stream.age = header.age ∧
      (∃ frames, ModuleRow keepNames content header.modulesStop 64 frames ∧
        stream.modules = frames.map ModuleFrame.descriptor) ∧
      stream.tokenRemapStream = header.remapIn content ∧
      next = header.listStop ∧ header.needed ≤ content.size ∧
      Reader.Needs (read keepNames) content 0 stream next header.needed ∧
      (header.needed = header.listStop ↔
        header.streamListSize = 0 ∨ 22 ≤ header.streamListSize.toNat) := by
  obtain ⟨header, _, hheader, hrest⟩ := Reader.bind_eq_done_iff.mp h
  obtain ⟨hfront, rfl, rfl⟩ := DebugStreamHeader.eq_of_read hheader
  generalize DebugStreamHeader.atStart content = header at hheader hrest ⊢
  obtain ⟨modules, _, hmodules, hrest⟩ := Reader.bind_eq_done_iff.mp hrest
  obtain ⟨rfl, hinside, hlist, frames, row, hframes⟩ :=
    exists_row_of_readModules hsize (by decide) hfront hmodules
  obtain ⟨⟨⟩, _, hskip, hrest⟩ := Reader.bind_eq_done_iff.mp hrest
  obtain rfl := skipAll_eq_done hskip
  have hskipped := (measured_skipAll header.skippedSizes).needs hskip
  obtain ⟨rfl, rfl, hlast⟩ := readLast_needs (hskipped.le_size hskip hinside) hrest
  have hmodulesStop : 64 + header.moduleListSize.toNat ≤ header.needed :=
    Nat.le_trans hskipped.le hlast.le
  have hneeds : Reader.Needs (read keepNames) content 0
      ⟨header.age, modules, header.remapIn content⟩ header.listStop header.needed := by
    refine (DebugStreamHeader.measured.needs hheader).bind_of_le ?_ (by omega)
    refine hlist.bind_of_le ?_ hmodulesStop
    exact hskipped.bind_of_le hlast hlast.le
  exact ⟨header, hheader, rfl, rfl, ⟨frames, row, hframes⟩, rfl, rfl,
    hneeds.le_size h (Nat.zero_le _), hneeds, DebugStreamHeader.needed_eq_listStop_iff⟩

/-- Two modules, and a list of eleven streams behind them. -/
def twoModules : ByteArray :=
  { modules := [.ofName "a", .ofName "bc.obj"] : ImageDraft }.debugStream [none, some 2] (some 7)

/-- Two descriptors, of 68 and 80 bytes, and nothing behind the list of 22 bytes. -/
theorem read_declared_twoModules :
    ∃ stream next, twoModules.size < 2 ^ 64 ∧ read true twoModules 0 = .done stream next ∧
      (∃ frames, ModuleRow true twoModules 212 64 frames ∧
        frames.map (fun frame => frame.descriptor.name) = ["a", "bc.obj"]) ∧
      stream.tokenRemapStream = some 7 ∧ next = 234 ∧
      Reader.Needs (read true) twoModules 0 stream next 234 := by
  have hnamed : ∀ descriptor ∈ [ModuleDraft.ofName "a", ModuleDraft.ofName "bc.obj"],
      descriptor.Named := by
    simp only [List.forall_mem_cons]
    exact ⟨⟨by decide, by decide⟩, ⟨by decide, by decide⟩, by simp⟩
  have hsize : twoModules.size = 234 := by decide +kernel
  have hread := ImageDraft.reads_debugStream hnamed [none, some 2] (some 7)
    (show twoModules.size < 2 ^ 32 by omega) twoModules (.self _)
  obtain ⟨header, -, rfl, -, ⟨frames, row, hframes⟩, hremap, hnext, -, hneeds, -⟩ :=
    read_declared (show twoModules.size < 2 ^ 64 by omega) hread
  have hmodulesStop : (DebugStreamHeader.atStart twoModules).modulesStop = 212 := by decide +kernel
  have hlistStop : (DebugStreamHeader.atStart twoModules).listStop = 234 := by decide +kernel
  have hneeded : (DebugStreamHeader.atStart twoModules).needed = 234 := by decide +kernel
  rw [hmodulesStop] at row
  rw [hlistStop] at hnext
  rw [hneeded] at hneeds
  refine ⟨_, _, by omega, hread, ⟨frames, row, ?_⟩, by decide, hnext, hneeds⟩
  have hnames := congrArg (List.map ModuleDescriptor.name) hframes
  rw [List.map_map] at hnames
  exact hnames.symm

/-- No modules, and four bytes of a stream list.  The seventh stream of a longer list stands behind
them. -/
def shortList (remap : UInt8) : ByteArray := ⟨#[
  0, 0, 0, 0, 0, 0, 0, 0, 0, 0, 0, 0, 0, 0, 0, 0, 0, 0, 0, 0, 0, 0, 0, 0,
  0, 0, 0, 0, 0, 0, 0, 0, 0, 0, 0, 0, 0, 0, 0, 0, 0, 0, 0, 0, 0, 0, 0, 0,
  4, 0, 0, 0, 0, 0, 0, 0, 0, 0, 0, 0, 0, 0, 0, 0,
  0, 0, 0, 0, 0, 0, 0, 0, 0, 0, 0, 0, remap, 0, 0, 0, 0, 0, 0, 0, 0, 0]⟩

/-- Without modules, the stream list follows the parts that are skipped. -/
theorem read_eq_readLast (hmodules : (DebugStreamHeader.atStart content).moduleListSize = 0)
    (hinside : (DebugStreamHeader.atStart content).listStart ≤ content.size) :
    read keepNames content 0 = readLast (DebugStreamHeader.atStart content) [] content
      (DebugStreamHeader.atStart content).listStart := by
  have hstop : (DebugStreamHeader.atStart content).modulesStop = 64 := by
    rw [DebugStreamHeader.modulesStop, hmodules]
    rfl
  rw [DebugStreamHeader.listStart, hstop] at hinside ⊢
  have hlist : readModules 0 keepNames content 64 = .done [] 64 := by
    unfold readModules
    rw [Reader.bind_apply, Reader.position_apply]
    dsimp only
    rw [Reader.bind_apply, Reader.whileBelow_of_le (Nat.le_refl 64)]
    rfl
  rw [read, Reader.bind_apply,
    DebugStreamHeader.read_of_le (Nat.le_trans (Nat.le_add_right _ _) hinside)]
  dsimp only
  rw [hmodules, Reader.bind_apply, show (0 : UInt32).toNat = 0 from rfl, hlist]
  dsimp only
  rw [Reader.bind_apply, skipAll_of_le hinside]
  rfl

/-- The bytes up to the declared end do not decide the token remap stream, and they do not suffice
to read it. -/
theorem remapStream_behind_list :
    (DebugStreamHeader.atStart (shortList 7)).listStop = 68 ∧
      (shortList 7).extract 0 68 = (shortList 8).extract 0 68 ∧
      read true (shortList 7) 0 = .done ⟨0, [], some 7⟩ 68 ∧
      read true (shortList 8) 0 = .done ⟨0, [], some 8⟩ 68 ∧
      ∃ stopped, read true ((shortList 7).extract 0 68) 0
        = .failed (.ofKindAt .unexpectedEnd 68) stopped := by
  refine ⟨by decide +kernel, by decide +kernel, ?_, ?_, ?_⟩
  · rw [read_eq_readLast (by decide +kernel) (by decide +kernel)]
    rfl
  · rw [read_eq_readLast (by decide +kernel) (by decide +kernel)]
    rfl
  · rw [read_eq_readLast (by decide +kernel) (by decide +kernel)]
    exact ⟨_, rfl⟩

end DebugStream

end ManagedPdb
