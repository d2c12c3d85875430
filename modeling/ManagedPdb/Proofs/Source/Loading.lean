import ManagedPdb.Proofs.Source.Sharing

/-!
# Which records can be loaded

Whether the loader finds the file of a record does not depend on the files that it has found before,
nor on what the record says about the file: the name must be known, and the stream about the file,
if there is one, must be one that can be read (`SourceLibrary.Loads`).  So records that can be
loaded in one order can be loaded in any other (`SourceLibrary.loads_of_entered`,
`SourceLibrary.exists_entered`).
-/

namespace ManagedPdb

/-- The stream about a file is read alike whatever else is known about the file. -/
theorem SourceFile.readStream_sim (file file' : SourceFile) :
    ReaderSim NoExcuse (fun _ _ => True) file.readStream file'.readStream := by
  refine .bind_same fun _ => .bind_same fun _ => .bind_same fun _ => .bind_same fun position =>
    .bind_same fun size => ?_
  by_cases hend : position = size
  · simp only [if_pos hend]
    exact .pure trivial
  · simp only [if_neg hend]
    refine .bind_same fun _ => .bind_same fun _ => .bind_same fun sourceSize =>
      .bind_same fun _ => ?_
    by_cases hempty : sourceSize = 0
    · simp only [if_pos hempty]
      exact .pure trivial
    · simp only [if_neg hempty]
      exact .bind_same fun _ => .pure trivial

namespace SourceLibrary

/-- What the streams say about the source file with a name can be read. -/
def Describable (library : SourceLibrary) (name : String) : Prop :=
  ∃ file, library.describeWhole (.ofName name) = .ok file

/-- The name of the record is known, and the file with that name can be described. -/
def Loads (library : SourceLibrary) (record : ChecksumRecord) : Prop :=
  ∃ name, library.nameOf? record = some name ∧ library.Describable name

/-- All files of the table can be described. -/
def Covers (library : SourceLibrary) (table : SourceTable) : Prop :=
  ∀ name ref, table.find? name = some ref → library.Describable name

/-- The libraries have the same names. -/
structure Alike (library library' : SourceLibrary) : Prop where
  info : library'.info = library.info
  names : library'.names = library.names

/-- The stream about the source file of the record, if there is one, has the same content in both
libraries. -/
def SameSource (library library' : SourceLibrary) (record : ChecksumRecord) : Prop :=
  ∀ name, library.nameOf? record = some name →
    ∀ index, library.info.stream? (sourceStreamName name) = some index → ∀ content,
      library'.container.content index = .ok content ↔
        library.container.content index = .ok content

variable {library library' : SourceLibrary} {record : ChecksumRecord}
  {records : List ChecksumRecord}

theorem covers_empty (library : SourceLibrary) : library.Covers .empty := by
  intro name ref h
  simp [SourceTable.find?, SourceTable.empty] at h

/-- Whether a file can be described depends on its name alone. -/
theorem describable_iff (file : SourceFile) :
    library.Describable file.name ↔ ∃ file', library.describeWhole file = .ok file' := by
  have hname : (SourceFile.ofName file.name).name = file.name := rfl
  unfold Describable describeWhole
  rw [hname]
  cases library.info.stream? (sourceStreamName file.name) with
  | none => exact ⟨fun _ => ⟨_, rfl⟩, fun _ => ⟨_, rfl⟩⟩
  | some index =>
    dsimp only
    cases library.container.content index with
    | error error => exact ⟨nofun, nofun⟩
    | ok content =>
      by_cases hempty : content.size = 0
      · simp only [ok_bind, if_pos hempty]
        exact ⟨fun _ => ⟨_, rfl⟩, fun _ => ⟨_, rfl⟩⟩
      · simp only [ok_bind, if_neg hempty]
        have hsim := (SourceFile.readStream_sim (.ofName file.name) file).run content
        generalize (SourceFile.ofName file.name).readStream.run content = left at hsim ⊢
        generalize file.readStream.run content = right at hsim ⊢
        cases hsim with
        | ok _ => exact ⟨fun _ => ⟨_, rfl⟩, fun _ => ⟨_, rfl⟩⟩
        | error error => exact ⟨nofun, nofun⟩
        | excused _ excused => exact excused.elim

/-- A record that is loaded into a table that can be described can be loaded into any. -/
theorem loads_of_load (paged : library.container.Paged) {session session' : SourceSession}
    {ref : SourceRef} (covers : library.Covers session.table)
    (h : library.load record.nameId record.kind record.checksum session = .ok (ref, session')) :
    library.Loads record ∧ library.Covers session'.table := by
  unfold load at h
  cases hname : library.names.name? record.nameId with
  | none =>
    rw [hname] at h
    cases h
  | some name =>
    rw [hname] at h
    dsimp only at h
    cases hfind : session.table.find? name with
    | some known =>
      rw [hfind] at h
      cases h
      exact ⟨⟨name, hname, covers name ref hfind⟩, covers⟩
    | none =>
      rw [hfind] at h
      obtain ⟨⟨file, cursor⟩, hdescribe, h⟩ := bind_eq_ok_iff.mp h
      cases h
      have hfile : (library.describe (record.file name)).run' session.cursor = .ok file :=
        congrArg (Prod.fst <$> ·) hdescribe
      obtain ⟨hfileName, -⟩ := describes_of_describe paged hfile
      have hdescribable : library.Describable name := (describable_iff (record.file name)).mpr
        ⟨file, (run'_describe paged _ _).symm.trans hfile⟩
      refine ⟨⟨name, hname, hdescribable⟩, ?_⟩
      intro other ref hother
      rw [SourceTable.find?_add_iff, hfileName] at hother
      by_cases hsame : name = other
      · exact hsame ▸ hdescribable
      · rw [if_neg hsame] at hother
        exact covers other ref hother

theorem Loads.exists_load (paged : library.container.Paged) (loads : library.Loads record)
    (session : SourceSession) : ∃ found,
      library.load record.nameId record.kind record.checksum session = .ok found := by
  obtain ⟨name, hname, hdescribable⟩ := loads
  unfold load
  rw [show library.names.name? record.nameId = some name from hname]
  dsimp only
  cases session.table.find? name with
  | some known => exact ⟨_, rfl⟩
  | none =>
    obtain ⟨file, hfile⟩ := (describable_iff (record.file name)).mp hdescribable
    rw [← run'_describe paged _ session.cursor] at hfile
    cases hdescribe : library.describe (record.file name) session.cursor with
    | error error =>
      have herror : (library.describe (record.file name)).run' session.cursor = .error error :=
        congrArg (Prod.fst <$> ·) hdescribe
      rw [herror] at hfile
      cases hfile
    | ok found =>
      exact ⟨_, bind_eq_ok_iff.mpr ⟨found, hdescribe, rfl⟩⟩

/-! ### All records of a module -/

theorem loads_of_entered (paged : library.container.Paged) {sources : SourceSession}
    {state : ChecksumTable × SourceSession} (covers : library.Covers sources.table)
    (entered : ChecksumRecord.Entered library.load sources state records) :
    (∀ record ∈ records, library.Loads record) ∧ library.Covers state.2.table := by
  have hloadAll := entered.loadAll_eq
  generalize state.2 = session at hloadAll
  clear entered
  induction records generalizing sources with
  | nil =>
    cases hloadAll
    exact ⟨nofun, covers⟩
  | cons record records ih =>
    rw [ChecksumRecord.loadAll, List.foldlM_cons] at hloadAll
    obtain ⟨middle, hfirst, hrest⟩ := bind_eq_ok_iff.mp hloadAll
    obtain ⟨found, hload, hfirst⟩ := bind_eq_ok_iff.mp hfirst
    cases hfirst
    obtain ⟨hloads, hmiddle⟩ := loads_of_load paged covers hload
    obtain ⟨hall, hlast⟩ := ih hmiddle hrest
    exact ⟨List.forall_mem_cons.mpr ⟨hloads, hall⟩, hlast⟩

theorem exists_entered (paged : library.container.Paged)
    (loads : ∀ record ∈ records, library.Loads record) (sources : SourceSession) :
    ∃ state, ChecksumRecord.Entered library.load sources state records := by
  unfold ChecksumRecord.Entered
  generalize (∅ : ChecksumTable) = table
  induction records generalizing sources table with
  | nil => exact ⟨_, rfl⟩
  | cons record records ih =>
    obtain ⟨hfirst, hrest⟩ := List.forall_mem_cons.mp loads
    obtain ⟨found, hload⟩ := hfirst.exists_load paged sources
    rw [List.foldlM_cons, ChecksumRecord.enter, hload, ok_bind]
    exact ih hrest _ _

/-! ### Two libraries -/

theorem Alike.nameOf?_eq (alike : library.Alike library') (record : ChecksumRecord) :
    library'.nameOf? record = library.nameOf? record := by
  rw [nameOf?, alike.names, nameOf?]

theorem Alike.loads (alike : library.Alike library')
    (sameSource : library.SameSource library' record) (h : library.Loads record) :
    library'.Loads record := by
  obtain ⟨name, hname, file, h⟩ := h
  refine ⟨name, (alike.nameOf?_eq record).trans hname, ?_⟩
  unfold Describable describeWhole at *
  rw [alike.info]
  have hname' : (SourceFile.ofName name).name = name := rfl
  rw [hname'] at h ⊢
  cases hindex : library.info.stream? (sourceStreamName name) with
  | none => exact ⟨_, rfl⟩
  | some index =>
    rw [hindex] at h
    obtain ⟨content, hcontent, h⟩ := bind_eq_ok_iff.mp h
    have hcontent' := (sameSource name hname index hindex content).mpr hcontent
    exact ⟨file, bind_eq_ok_iff.mpr ⟨content, hcontent', h⟩⟩

end SourceLibrary

end ManagedPdb
