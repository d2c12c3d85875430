import ManagedPdb.Proofs.Ensures
import ManagedPdb.Proofs.Simulation
import Mathlib.Data.List.Induction

/-!
# Checksum records one by one

The table of source files of a module is made from the checksum records of its line region, in the
order in which they stand: the loader finds the file of each, which then is the file of the record's
offset (`ChecksumTable.exists_records`).  So an offset has a file exactly if a record starts there,
and the last such record says which file it is (`ChecksumRecord.Entered.file?_cases`).  Conversely,
records that can be read and loaded make a table (`ChecksumTable.run_read_of_records`).
-/

namespace ManagedPdb

/-- A record of a checksum subsection. -/
structure ChecksumRecord where
  /-- Where it starts in its subsection. -/
  offset : Nat
  nameId : UInt32
  kind : UInt8
  checksum : ByteArray

namespace ChecksumRecord

/-- The offset as line tables write it. -/
def fileId (record : ChecksumRecord) : UInt32 := UInt32.ofNat record.offset

/-- Puts the next record of a subsection that starts at `start` behind the records `found`. -/
def readNext (start : Nat) (found : List ChecksumRecord) : Reader (List ChecksumRecord) := do
  let offset := (← Reader.position) - start
  let nameId ← Reader.uint32
  let length ← Reader.uint8
  let kind ← Reader.uint8
  let checksum ← Reader.bytes length.toNat
  Reader.align 4
  return found ++ [⟨offset, nameId, kind, checksum⟩]

def readSubsections (found : List ChecksumRecord) :
    (subsections : List Subsection) → Reader (List ChecksumRecord)
  | [] => return found
  | subsection :: rest => do
    Reader.seek subsection.start
    let found ← Reader.whileBelow subsection.stop (readNext subsection.start) found
    readSubsections found rest

/-- All checksum records of the line region `start … stop`. -/
def readAll (start stop : Nat) : Reader (List ChecksumRecord) := do
  let subsections ← Subsection.readKind Subsection.checksumsKind start stop
  readSubsections [] subsections

variable {σ : Type}

/-- Enters the file of a record. -/
def enter (load : SourceLoader σ) (state : ChecksumTable × σ) (record : ChecksumRecord) :
    Except DecodeError (ChecksumTable × σ) := do
  let (file, sources) ← load record.nameId record.kind record.checksum state.2
  return (state.1.insert record.fileId file, sources)

/-- What the loader keeps once it has found the files of all records. -/
def loadAll (load : SourceLoader σ) (sources : σ) (records : List ChecksumRecord) :
    Except DecodeError σ :=
  records.foldlM
    (fun sources record => return (← load record.nameId record.kind record.checksum sources).2)
    sources

/-- The table and the state of the loader are what the records give. -/
def Entered (load : SourceLoader σ) (sources : σ) (state : ChecksumTable × σ)
    (found : List ChecksumRecord) : Prop :=
  found.foldlM (enter load) (∅, sources) = .ok state

end ChecksumRecord

/-! ### From the reader of tables to records -/

section

variable {σ : Type} {load : SourceLoader σ} {sources : σ}

/-- A loader may refuse records that can be read. -/
theorem ChecksumTable.readRecord_records (start : Nat) {state : ChecksumTable × σ}
    {found : List ChecksumRecord} (entered : ChecksumRecord.Entered load sources state found) :
    ReaderSim (fun _ => True) (ChecksumRecord.Entered load sources) (readRecord load start state)
      (ChecksumRecord.readNext start found) := by
  unfold readRecord ChecksumRecord.readNext
  refine .bind_same fun position => .bind_same fun nameId => .bind_same fun length =>
    .bind_same fun kind => .bind_same fun checksum => ?_
  cases hload : load nameId kind checksum state.2 with
  | error error => exact fun _ position => .excused position _ trivial
  | ok loaded =>
    refine .bind_same fun _ => .pure ?_
    show List.foldlM _ _ _ = _
    rw [List.foldlM_append, show found.foldlM _ _ = _ from entered]
    show ChecksumRecord.enter load state _ >>= pure = _
    rw [ChecksumRecord.enter, hload]
    rfl

theorem ChecksumTable.readSubsections_records (subsections : List Subsection)
    {state : ChecksumTable × σ} {found : List ChecksumRecord}
    (entered : ChecksumRecord.Entered load sources state found) :
    ReaderSim (fun _ => True) (ChecksumRecord.Entered load sources)
      (readSubsections load state subsections)
      (ChecksumRecord.readSubsections found subsections) := by
  induction subsections generalizing state found with
  | nil => exact .pure entered
  | cons subsection rest ih =>
    exact .bind_same fun _ =>
      (ReaderSim.whileBelow (fun _ _ => readRecord_records subsection.start) entered).bind
        fun _ _ => ih

/-- The table is made from the records that stand in the line region. -/
theorem ChecksumTable.exists_records {start stop position last : Nat} {content : ByteArray}
    {found : ChecksumTable × σ}
    (h : ChecksumTable.read load start stop sources content position = .done found last) :
    ∃ records, (ChecksumRecord.readAll start stop).run content = .ok records ∧
      ChecksumRecord.Entered load sources found records := by
  have hsim : ReaderSim (fun _ => True) (ChecksumRecord.Entered load sources)
      (ChecksumTable.read load start stop sources) (ChecksumRecord.readAll start stop) :=
    .bind_same fun subsections => readSubsections_records subsections rfl
  obtain ⟨records, hrecords, entered⟩ := hsim.exists_done h
  have hrestarts : (ChecksumRecord.readAll start stop).Restarts :=
    .bind (.bind (.bind (.seek _)))
  exact ⟨records, hrestarts.run hrecords, entered⟩

end

/-! ### From records to the table -/

section

variable {σ : Type} {load : SourceLoader σ} {sources : σ} {content : ByteArray}
  {position next : Nat}

/-- A record that was read can be entered into a table where the loader finds its file. -/
theorem ChecksumTable.readRecord_of_readNext {start : Nat} {found found' : List ChecksumRecord}
    (h : ChecksumRecord.readNext start found content position = .done found' next) :
    ∃ record, found' = found ++ [record] ∧ ∀ state state',
      ChecksumRecord.enter load state record = .ok state' →
        readRecord load start state content position = .done state' next := by
  obtain ⟨_, _, hposition, h⟩ := Reader.bind_eq_done_iff.mp h
  cases hposition
  obtain ⟨nameId, _, hname, h⟩ := Reader.bind_eq_done_iff.mp h
  obtain ⟨length, _, hlength, h⟩ := Reader.bind_eq_done_iff.mp h
  obtain ⟨kind, _, hkind, h⟩ := Reader.bind_eq_done_iff.mp h
  obtain ⟨checksum, _, hchecksum, h⟩ := Reader.bind_eq_done_iff.mp h
  obtain ⟨_, _, halign, h⟩ := Reader.bind_eq_done_iff.mp h
  cases h
  refine ⟨_, rfl, fun state state' henter => ?_⟩
  obtain ⟨⟨file, sources⟩, hload, henter⟩ := bind_eq_ok_iff.mp henter
  cases henter
  dsimp only at hload
  refine Reader.bind_eq_done_iff.mpr ⟨_, _, rfl, ?_⟩
  refine Reader.bind_eq_done_iff.mpr ⟨_, _, hname, ?_⟩
  refine Reader.bind_eq_done_iff.mpr ⟨_, _, hlength, ?_⟩
  refine Reader.bind_eq_done_iff.mpr ⟨_, _, hkind, ?_⟩
  refine Reader.bind_eq_done_iff.mpr ⟨_, _, hchecksum, ?_⟩
  rw [hload]
  exact Reader.bind_eq_done_iff.mpr ⟨_, _, rfl, Reader.bind_eq_done_iff.mpr ⟨_, _, halign, rfl⟩⟩

/-- The same for all records of a subsection. -/
theorem ChecksumTable.whileBelow_of_readNext {start stop : Nat} {found found' : List ChecksumRecord}
    (h : Reader.whileBelow stop (ChecksumRecord.readNext start) found content position
      = .done found' next) :
    ∃ more, found' = found ++ more ∧ ∀ state state',
      more.foldlM (ChecksumRecord.enter load) state = .ok state' →
        Reader.whileBelow stop (readRecord load start) state content position
          = .done state' next := by
  induction hlength : content.size - position using Nat.strongRecOn generalizing found position with
  | ind _ ih =>
    subst hlength
    rcases Nat.lt_or_ge position stop with hstop | hstop
    · rcases Reader.whileBelow_eq_done h with ⟨hle, -, -⟩ | ⟨middle, place, hfirst, hlt, hle, hrest⟩
      · omega
      · obtain ⟨record, rfl, hrecord⟩ := readRecord_of_readNext hfirst
        obtain ⟨more, rfl, hmore⟩ := ih _ (by omega) hrest rfl
        refine ⟨record :: more, by simp, fun state state' hall => ?_⟩
        rw [List.foldlM_cons] at hall
        obtain ⟨state'', henter, hall⟩ := bind_eq_ok_iff.mp hall
        have hnext := hrecord state state'' henter
        rw [Reader.whileBelow_of_lt hstop fun _ _ hdone => ?_, Reader.bind_apply, hnext]
        · exact hmore state'' state' hall
        · rw [hnext] at hdone
          cases hdone
          exact ⟨hlt, hle⟩
    · rw [Reader.whileBelow_of_le hstop] at h
      cases h
      refine ⟨[], by simp, fun state state' hall => ?_⟩
      cases hall
      exact Reader.whileBelow_of_le hstop

theorem ChecksumTable.readSubsections_of_records {subsections : List Subsection}
    {found found' : List ChecksumRecord}
    (h : ChecksumRecord.readSubsections found subsections content position = .done found' next) :
    ∃ more, found' = found ++ more ∧ ∀ state state',
      more.foldlM (ChecksumRecord.enter load) state = .ok state' →
        readSubsections load state subsections content position = .done state' next := by
  induction subsections generalizing found position with
  | nil =>
    cases h
    refine ⟨[], by simp, fun state state' hall => ?_⟩
    cases hall
    rfl
  | cons subsection rest ih =>
    obtain ⟨_, start, hseek, h⟩ := Reader.bind_eq_done_iff.mp h
    obtain ⟨middle, place, hloop, hrest⟩ := Reader.bind_eq_done_iff.mp h
    obtain ⟨first, rfl, hfirst⟩ := whileBelow_of_readNext hloop
    obtain ⟨more, rfl, hmore⟩ := ih hrest
    refine ⟨first ++ more, by simp, fun state state' hall => ?_⟩
    rw [List.foldlM_append] at hall
    obtain ⟨state'', hfirstAll, hmoreAll⟩ := bind_eq_ok_iff.mp hall
    exact Reader.bind_eq_done_iff.mpr ⟨_, _, hseek, Reader.bind_eq_done_iff.mpr
      ⟨_, _, hfirst state state'' hfirstAll, hmore state'' state' hmoreAll⟩⟩

/-- Records that stand in the line region make a table where the loader finds all their files. -/
theorem ChecksumTable.run_read_of_records {start stop : Nat} {records : List ChecksumRecord}
    (hrecords : (ChecksumRecord.readAll start stop).run content = .ok records)
    {state : ChecksumTable × σ} (entered : ChecksumRecord.Entered load sources state records) :
    (ChecksumTable.read load start stop sources).run content = .ok state := by
  obtain ⟨last, h⟩ := Reader.run_eq_ok_iff.mp hrecords
  obtain ⟨subsections, middle, hsubsections, h⟩ := Reader.bind_eq_done_iff.mp h
  obtain ⟨more, hmore, hread⟩ := readSubsections_of_records h
  rw [List.nil_append] at hmore
  subst hmore
  exact Reader.run_eq_ok_iff.mpr
    ⟨last, Reader.bind_eq_done_iff.mpr ⟨_, _, hsubsections, hread _ _ entered⟩⟩

end

/-! ### Where records stand -/

/-- The frames of a kind that is not ignored, with their lengths. -/
theorem Subsection.readKind_ensures (kind : UInt32) (start limit : Nat) :
    Reader.Ensures (fun frames => ∀ frame ∈ frames, frame.kind = kind ∧
      frame.kind &&& ignoredFlag = 0 ∧ frame.stop < frame.start + 2 ^ 32)
      (readKind kind start limit) := by
  let Framed (frame : Subsection) : Prop :=
    frame.kind &&& ignoredFlag = 0 ∧ frame.stop < frame.start + 2 ^ 32
  have hnext : ∀ found : Array Subsection, (∀ frame ∈ found, Framed frame) →
      Reader.Ensures (fun found => ∀ frame ∈ found, Framed frame) (readNext limit found) := by
    intro found framed
    refine .bind fun kind => .bind fun length => .bind fun start => .ite .fail_bind ?_
    refine .bind fun _ => .bind fun _ => ?_
    by_cases hkind : kind &&& ignoredFlag = 0
    · rw [if_pos hkind]
      refine .pure fun frame member => ?_
      rcases Array.mem_push.mp member with member | rfl
      · exact framed frame member
      · exact ⟨hkind, Nat.add_lt_add_left length.toNat_lt start⟩
    · rw [if_neg hkind]
      exact .pure framed
  have hall : Reader.Ensures (fun frames => ∀ frame ∈ frames, Framed frame)
      (readAll start limit) := by
    refine .bind fun _ => (Reader.Ensures.whileBelow limit hnext (by simp)).bind_of
      fun found framed => .pure ?_
    intro frame member
    exact framed frame (Array.mem_toList_iff.mp member)
  refine hall.bind_of fun frames framed => .pure ?_
  intro frame member
  obtain ⟨hmember, hkind⟩ := List.mem_filter.mp member
  exact ⟨beq_iff_eq.mp hkind, framed frame hmember⟩

namespace ChecksumRecord

/-- A record stands in its subsection, so that its offset fits into 32 bits. -/
theorem readAll_ensures (start stop : Nat) :
    Reader.Ensures (fun records => ∀ record ∈ records, record.offset < 2 ^ 32)
      (readAll start stop) := by
  refine (Subsection.readKind_ensures _ start stop).bind_of fun subsections hframes => ?_
  have hbefore : ∀ record ∈ ([] : List ChecksumRecord), record.offset < 2 ^ 32 := nofun
  generalize ([] : List ChecksumRecord) = found at hbefore ⊢
  induction subsections generalizing found with
  | nil => exact .pure hbefore
  | cons subsection rest ih =>
    have hlength := (hframes subsection List.mem_cons_self).2.2
    refine .bind fun _ => Reader.Ensures.bind_of ?_ fun found hfound =>
      ih (fun frame member => hframes frame (List.mem_cons_of_mem _ member)) found hfound
    intro content position value last hdone
    refine Reader.Ensures.whileBelow_forward
      (R := fun records => ∀ record ∈ records, record.offset < 2 ^ 32) ?_ hbefore hdone
    intro found position found' next hstart hfound hnext
    obtain ⟨_, _, hposition, hnext⟩ := Reader.bind_eq_done_iff.mp hnext
    cases hposition
    have hensures : Reader.Ensures (fun records => ∀ record ∈ records, record.offset < 2 ^ 32)
        (do
          let nameId ← Reader.uint32
          let length ← Reader.uint8
          let kind ← Reader.uint8
          let checksum ← Reader.bytes length.toNat
          Reader.align 4
          return found ++ [(⟨position - subsection.start, nameId, kind, checksum⟩ :
            ChecksumRecord)]) := by
      refine .bind fun _ => .bind fun _ => .bind fun _ => .bind fun _ => .bind fun _ => .pure ?_
      intro record member
      rcases List.mem_append.mp member with member | member
      · exact hfound record member
      · obtain rfl := List.mem_singleton.mp member
        show position - subsection.start < 2 ^ 32
        omega
    exact hensures _ _ _ _ hnext

/-! ### What the table holds -/

variable {σ : Type} {load : SourceLoader σ} {sources : σ}

theorem fileId_eq_iff {record : ChecksumRecord} (h : record.offset < 2 ^ 32) {fileId : UInt32} :
    record.fileId = fileId ↔ record.offset = fileId.toNat := by
  rw [ChecksumRecord.fileId, ← UInt32.toNat_inj, UInt32.toNat_ofNat_of_lt' h]

theorem loadAll_append (load : SourceLoader σ) (sources : σ) (left right : List ChecksumRecord) :
    loadAll load sources (left ++ right) = loadAll load sources left >>= (loadAll load · right) :=
  List.foldlM_append

theorem Entered.loadAll_eq {state : ChecksumTable × σ} {records : List ChecksumRecord}
    (entered : Entered load sources state records) :
    loadAll load sources records = .ok state.2 := by
  unfold Entered at entered
  generalize (∅ : ChecksumTable) = table at entered
  induction records generalizing sources table with
  | nil =>
    cases entered
    rfl
  | cons record records ih =>
    rw [List.foldlM_cons] at entered
    obtain ⟨middle, hrecord, hrest⟩ := bind_eq_ok_iff.mp entered
    obtain ⟨loaded, hload, hrecord⟩ := bind_eq_ok_iff.mp hrecord
    cases hrecord
    rw [loadAll, List.foldlM_cons, hload, ok_bind]
    exact ih _ hrest

/-- No record starts at an offset without a file, and the last record that starts at an offset says
which file it has. -/
theorem Entered.file?_cases {state : ChecksumTable × σ} {records : List ChecksumRecord}
    (entered : Entered load sources state records) (fileId : UInt32) :
    (state.1.file? fileId = none ∧ ∀ record ∈ records, record.fileId ≠ fileId) ∨
    ∃ before record after ref sources' sources'', records = before ++ record :: after ∧
      record.fileId = fileId ∧ (∀ later ∈ after, later.fileId ≠ fileId) ∧
      loadAll load sources before = .ok sources' ∧
      load record.nameId record.kind record.checksum sources' = .ok (ref, sources'') ∧
      state.1.file? fileId = some ref := by
  induction records using List.reverseRecOn generalizing state with
  | nil =>
    cases entered
    exact .inl ⟨Std.HashMap.getElem?_empty, nofun⟩
  | append_singleton records record ih =>
    unfold Entered at entered
    rw [List.foldlM_append] at entered
    obtain ⟨middle, hrecords, hlast⟩ := bind_eq_ok_iff.mp entered
    obtain ⟨_, hrecord, hlast⟩ := bind_eq_ok_iff.mp hlast
    cases hlast
    obtain ⟨⟨ref, sources'⟩, hload, hrecord⟩ := bind_eq_ok_iff.mp hrecord
    cases hrecord
    have hfile : ChecksumTable.file? (middle.1.insert record.fileId ref) fileId
        = if record.fileId = fileId then some ref else middle.1.file? fileId := by
      unfold ChecksumTable.file?
      rw [Std.HashMap.getElem?_insert]
      simp only [beq_iff_eq]
    dsimp only
    rw [hfile]
    by_cases hid : record.fileId = fileId
    · rw [if_pos hid]
      exact .inr ⟨records, record, [], ref, middle.2, sources', rfl, hid, nofun,
        Entered.loadAll_eq hrecords, hload, rfl⟩
    · rw [if_neg hid]
      rcases ih hrecords with ⟨hnone, hother⟩ |
        ⟨before, earlier, after, ref', first, second, rfl, hearlier, hafter, hbefore, hfirst, hsome⟩
      · refine .inl ⟨hnone, fun other member => ?_⟩
        rcases List.mem_append.mp member with member | member
        · exact hother other member
        · rwa [List.mem_singleton.mp member]
      · refine .inr ⟨before, earlier, after ++ [record], ref', first, second, by simp, hearlier, ?_,
          hbefore, hfirst, hsome⟩
        intro later member
        rcases List.mem_append.mp member with member | member
        · exact hafter later member
        · rwa [List.mem_singleton.mp member]

end ChecksumRecord

end ManagedPdb
