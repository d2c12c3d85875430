import ManagedPdb.Proofs.Source.Description

/-!
# The table of source files

A file enters the table with the first record that resolves to its name, and later records with
that name find it there.  So the table always has one file for each name that has been seen,
described by the first of its records (`SourceLibrary.Catalogues`); loading one more record keeps
this (`SourceLibrary.Catalogues.load`), and so do all records of a file one after the other
(`ModuleReading.ReadAll.catalogues`).
-/

namespace ManagedPdb

namespace SourceTable

/-- The files that are found by their places stay at them. -/
def Extends (table table' : SourceTable) : Prop :=
  ∀ ref file, table.file? ref = some file → table'.file? ref = some file

theorem Extends.refl (table : SourceTable) : table.Extends table := fun _ _ h => h

theorem Extends.trans {first second third : SourceTable} (hfirst : first.Extends second)
    (hsecond : second.Extends third) : first.Extends third :=
  fun ref file h => hsecond ref file (hfirst ref file h)

theorem extends_add (table : SourceTable) (file : SourceFile) :
    table.Extends (table.add file).2 := fun _ _ => ImageDraft.file?_add file

theorem file?_add_iff {table : SourceTable} {new file : SourceFile} {ref : SourceRef} :
    (table.add new).2.file? ref = some file ↔
      table.file? ref = some file ∨ ref = (table.add new).1 ∧ file = new := by
  constructor
  · intro h
    rw [file?, add, Array.getElem?_push] at h
    split at h
    · next hindex => exact .inr ⟨congrArg SourceRef.mk hindex, (Option.some.inj h).symm⟩
    · exact .inl h
  · rintro (h | ⟨rfl, rfl⟩)
    · exact extends_add table new ref file h
    · exact ImageDraft.file?_add_new table file

end SourceTable

/-! ### What the table holds -/

namespace SourceLibrary

/-- The name that a record resolves to. -/
def nameOf? (library : SourceLibrary) (record : ChecksumRecord) : Option String :=
  library.names.name? record.nameId

/-- The first of the records that resolves to a name. -/
def first? (library : SourceLibrary) (records : List ChecksumRecord) (name : String) :
    Option ChecksumRecord :=
  records.find? (library.nameOf? · == some name)

/-- The table has the files of the records, by their names, each described by its first record. -/
structure Catalogues (library : SourceLibrary) (records : List ChecksumRecord)
    (table : SourceTable) : Prop where
  find : ∀ {name ref}, table.find? name = some ref ↔
    ∃ file, table.file? ref = some file ∧ file.name = name
  listed : ∀ record ∈ records, ∀ name, library.nameOf? record = some name →
    ∃ ref, table.find? name = some ref
  described : ∀ {ref file}, table.file? ref = some file →
    ∃ record, library.first? records file.name = some record ∧ library.Describes record file

variable {library : SourceLibrary} {records : List ChecksumRecord} {table : SourceTable}

theorem first?_append_of_some {record : ChecksumRecord} {name : String}
    (h : library.first? records name = some record) (more : List ChecksumRecord) :
    library.first? (records ++ more) name = some record := by
  rw [first?, List.find?_append, show records.find? _ = _ from h, Option.some_or]

namespace Catalogues

theorem empty (library : SourceLibrary) : library.Catalogues [] .empty where
  find := by simp [SourceTable.find?, SourceTable.file?, SourceTable.empty]
  listed := nofun
  described := by simp [SourceTable.file?, SourceTable.empty]

/-- Files have one place if and only if they have one name. -/
theorem ref_eq_iff (catalogues : library.Catalogues records table) {ref ref' : SourceRef}
    {file file' : SourceFile} (h : table.file? ref = some file)
    (h' : table.file? ref' = some file') :
    ref = ref' ↔ file.name = file'.name := by
  constructor
  · rintro rfl
    rw [h] at h'
    rw [Option.some.inj h']
  · intro hname
    have hfind := catalogues.find.mpr ⟨file, h, hname⟩
    have hfind' := catalogues.find.mpr ⟨file', h', rfl⟩
    exact Option.some.inj (hfind.symm.trans hfind')

/-- A record whose name is known adds nothing. -/
theorem known (catalogues : library.Catalogues records table) {record : ChecksumRecord}
    {name : String} (hname : library.nameOf? record = some name) {ref : SourceRef}
    (hfind : table.find? name = some ref) : library.Catalogues (records ++ [record]) table where
  find := catalogues.find
  listed := by
    intro other member
    rcases List.mem_append.mp member with member | member
    · exact catalogues.listed other member
    · rw [List.mem_singleton.mp member, hname]
      rintro _ ⟨⟩
      exact ⟨ref, hfind⟩
  described := by
    intro ref file hfile
    obtain ⟨first, hfirst, hdescribes⟩ := catalogues.described hfile
    exact ⟨first, first?_append_of_some hfirst [record], hdescribes⟩

/-- A record whose name is new adds a file, which it describes. -/
theorem add (catalogues : library.Catalogues records table) {record : ChecksumRecord}
    {file : SourceFile} (hname : library.nameOf? record = some file.name)
    (hfind : table.find? file.name = none) (hdescribes : library.Describes record file) :
    library.Catalogues (records ++ [record]) (table.add file).2 where
  find := by
    intro name ref
    rw [SourceTable.find?_add_iff]
    simp only [SourceTable.file?_add_iff]
    by_cases hfileName : file.name = name
    · rw [if_pos hfileName]
      constructor
      · intro href
        exact ⟨file, .inr ⟨href, rfl⟩, hfileName⟩
      · rintro ⟨other, hother | ⟨href, -⟩, hotherName⟩
        · -- no other file has this name
          have hknown := catalogues.find.mpr ⟨other, hother, hotherName⟩
          rw [← hfileName, hfind] at hknown
          cases hknown
        · exact href
    · rw [if_neg hfileName, catalogues.find]
      constructor
      · rintro ⟨other, hother, hotherName⟩
        exact ⟨other, .inl hother, hotherName⟩
      · rintro ⟨other, hother | ⟨-, rfl⟩, hotherName⟩
        · exact ⟨other, hother, hotherName⟩
        · exact absurd hotherName hfileName
  listed := by
    intro other member name hother
    simp only [SourceTable.find?_add_iff]
    by_cases hfileName : file.name = name
    · simp only [if_pos hfileName, exists_eq]
    · simp only [if_neg hfileName]
      rcases List.mem_append.mp member with member | member
      · exact catalogues.listed other member name hother
      · rw [List.mem_singleton.mp member, hname] at hother
        exact absurd (Option.some.inj hother) hfileName
  described := by
    intro ref other hother
    rcases SourceTable.file?_add_iff.mp hother with hother | ⟨-, rfl⟩
    · obtain ⟨first, hfirst, hdescribes⟩ := catalogues.described hother
      exact ⟨first, first?_append_of_some hfirst [record], hdescribes⟩
    · refine ⟨record, ?_, hdescribes⟩
      -- no earlier record resolves to a name that is not found
      have hearlier : library.first? records other.name = none := by
        rw [first?, List.find?_eq_none]
        intro earlier member hearlier
        obtain ⟨ref, href⟩ := catalogues.listed earlier member other.name (beq_iff_eq.mp hearlier)
        rw [hfind] at href
        cases href
      rw [first?, List.find?_append, show records.find? _ = _ from hearlier, Option.none_or,
        List.find?_cons_of_pos (by rw [hname, beq_self_eq_true])]

/-- Loading a record gives the file with its name. -/
theorem load (paged : library.container.Paged) {record : ChecksumRecord}
    {session session' : SourceSession} {ref : SourceRef}
    (catalogues : library.Catalogues records session.table)
    (h : library.load record.nameId record.kind record.checksum session = .ok (ref, session')) :
    library.Catalogues (records ++ [record]) session'.table ∧
      session.table.Extends session'.table ∧
      ∃ file, session'.table.file? ref = some file ∧ library.nameOf? record = some file.name := by
  unfold SourceLibrary.load at h
  cases hname : library.names.name? record.nameId with
  | none =>
    rw [hname] at h
    cases h
  | some name =>
    rw [hname] at h
    dsimp only at h
    cases hfind : session.table.find? name with
    | some known =>
      rw [hfind] at h
      cases h
      obtain ⟨file, hfile, hfileName⟩ := catalogues.find.mp hfind
      exact ⟨catalogues.known hname hfind, .refl _, file, hfile, hfileName ▸ hname⟩
    | none =>
      rw [hfind] at h
      obtain ⟨⟨file, cursor⟩, hdescribe, h⟩ := bind_eq_ok_iff.mp h
      cases h
      have hfile : (library.describe (record.file name)).run' session.cursor = .ok file :=
        congrArg (Prod.fst <$> ·) hdescribe
      obtain ⟨rfl, hdescribes⟩ := describes_of_describe paged hfile
      exact ⟨catalogues.add hname hfind hdescribes, SourceTable.extends_add _ _, file,
        ImageDraft.file?_add_new _ _, hname⟩

/-- Loading records one after the other keeps the table a catalogue. -/
theorem loadAll (paged : library.container.Paged) {more : List ChecksumRecord}
    {session session' : SourceSession} (catalogues : library.Catalogues records session.table)
    (h : ChecksumRecord.loadAll library.load session more = .ok session') :
    library.Catalogues (records ++ more) session'.table ∧
      session.table.Extends session'.table := by
  induction more generalizing records session with
  | nil =>
    cases h
    rw [List.append_nil]
    exact ⟨catalogues, .refl _⟩
  | cons record more ih =>
    rw [ChecksumRecord.loadAll, List.foldlM_cons] at h
    obtain ⟨middle, hfirst, hrest⟩ := bind_eq_ok_iff.mp h
    obtain ⟨⟨ref, middle⟩, hload, hfirst⟩ := bind_eq_ok_iff.mp hfirst
    cases hfirst
    obtain ⟨hmiddle, hextends, -⟩ := load paged catalogues hload
    obtain ⟨hlast, hextends'⟩ := ih hmiddle hrest
    rw [List.append_assoc, List.singleton_append] at hlast
    exact ⟨hlast, hextends.trans hextends'⟩

end Catalogues

end SourceLibrary

/-! ### The files of a module -/

namespace ModuleReading

/-- The last record of the module that starts at an offset. -/
def recordAt? (reading : ModuleReading) (fileId : UInt32) : Option ChecksumRecord :=
  reading.records.reverse.find? (·.offset == fileId.toNat)

/-- What is found for a file number: nothing if no record of the module starts there, and otherwise
the file with the name to which the last such record resolves. -/
structure Resolves (reading : ModuleReading) (library : SourceLibrary)
    (file? : SourceRef → Option SourceFile) (fileId : UInt32) (found : Option SourceRef) :
    Prop where
  isSome_iff : found.isSome ↔ ∃ record ∈ reading.records, record.offset = fileId.toNat
  file : ∀ ref, found = some ref → ∃ record file, reading.recordAt? fileId = some record ∧
    file? ref = some file ∧ library.nameOf? record = some file.name

variable {library : SourceLibrary} {keepNames : Bool} {sources sources' : SourceSession}
  {reading : ModuleReading}

theorem Reads.offset_lt (reads : reading.Reads library keepNames sources sources')
    {record : ChecksumRecord} (member : record ∈ reading.records) : record.offset < 2 ^ 32 :=
  (ChecksumRecord.readAll_ensures _ _).run reads.records record member

/-- The records of one more module keep the table a catalogue, and say which files the module
has. -/
theorem Reads.catalogues (paged : library.container.Paged)
    (reads : reading.Reads library keepNames sources sources') {records : List ChecksumRecord}
    (catalogues : library.Catalogues records sources.table) :
    library.Catalogues (records ++ reading.records) sources'.table ∧
      sources.table.Extends sources'.table ∧
      ∀ fileId, reading.Resolves library sources'.table.file? fileId
        (reading.checksums.file? fileId) := by
  have hloadAll := ChecksumRecord.Entered.loadAll_eq reads.entered
  obtain ⟨hlast, hextends⟩ := catalogues.loadAll paged hloadAll
  refine ⟨hlast, hextends, fun fileId => ?_⟩
  have hoffset : ∀ {record}, record ∈ reading.records →
      (record.fileId = fileId ↔ record.offset = fileId.toNat) := fun member =>
    ChecksumRecord.fileId_eq_iff (reads.offset_lt member)
  rcases reads.entered.file?_cases fileId with ⟨hnone, hother⟩ |
    ⟨before, record, after, ref, middle, next, hrecords, hid, hafter, hbefore, hload, hsome⟩
  · dsimp only at hnone
    rw [hnone]
    refine ⟨⟨nofun, ?_⟩, nofun⟩
    rintro ⟨record, member, hrecord⟩
    exact absurd ((hoffset member).mpr hrecord) (hother record member)
  · have member : record ∈ reading.records := by simp [hrecords]
    have hrecord : record.offset = fileId.toNat := (hoffset member).mp hid
    dsimp only at hsome
    rw [hsome]
    refine ⟨⟨fun _ => ⟨record, member, hrecord⟩, fun _ => rfl⟩, ?_⟩
    rintro _ ⟨⟩
    -- the records behind this one only add files
    obtain ⟨hmiddle, -⟩ := catalogues.loadAll paged hbefore
    obtain ⟨hnext, -, file, hfile, hname⟩ := hmiddle.load paged hload
    have hrest : ChecksumRecord.loadAll library.load next after = .ok sources' := by
      rw [hrecords, ChecksumRecord.loadAll_append, hbefore, ok_bind, ChecksumRecord.loadAll,
        List.foldlM_cons, hload, ok_bind] at hloadAll
      exact hloadAll
    refine ⟨record, file, ?_, (hnext.loadAll paged hrest).2 ref file hfile, hname⟩
    have hlater : after.reverse.find? (fun later => later.offset == fileId.toNat) = none := by
      rw [List.find?_eq_none]
      intro later hlater hsame
      have hmember : later ∈ reading.records := by simp [hrecords, List.mem_reverse.mp hlater]
      exact hafter later (List.mem_reverse.mp hlater) ((hoffset hmember).mpr (beq_iff_eq.mp hsame))
    rw [recordAt?, hrecords, List.reverse_append, List.reverse_cons, List.append_assoc,
      List.find?_append, hlater, Option.none_or, List.singleton_append,
      List.find?_cons_of_pos (by simpa using hrecord)]

theorem Resolves.mono {file? file?' : SourceRef → Option SourceFile} {fileId : UInt32}
    {found : Option SourceRef} (resolves : reading.Resolves library file? fileId found)
    (h : ∀ ref file, file? ref = some file → file?' ref = some file) :
    reading.Resolves library file?' fileId found := by
  refine ⟨resolves.isSome_iff, fun ref href => ?_⟩
  obtain ⟨record, file, hrecord, hfile, hname⟩ := resolves.file ref href
  exact ⟨record, file, hrecord, h ref file hfile, hname⟩

/-- The records of all modules make the table a catalogue. -/
theorem ReadAll.catalogues (paged : library.container.Paged) {readings : List ModuleReading}
    (readAll : ReadAll library keepNames sources readings sources') {records : List ChecksumRecord}
    (catalogues : library.Catalogues records sources.table) :
    library.Catalogues (records ++ readings.flatMap ModuleReading.records) sources'.table ∧
      sources.table.Extends sources'.table ∧
      ∀ reading ∈ readings, ∀ fileId, reading.Resolves library sources'.table.file? fileId
        (reading.checksums.file? fileId) := by
  induction readAll generalizing records with
  | nil sources =>
    rw [List.flatMap_nil, List.append_nil]
    exact ⟨catalogues, .refl _, nofun⟩
  | cons hreads _ ih =>
    obtain ⟨hmiddle, hextends, hresolves⟩ := hreads.catalogues paged catalogues
    obtain ⟨hlast, hextends', hrest⟩ := ih hmiddle
    rw [List.append_assoc, ← List.flatMap_cons] at hlast
    refine ⟨hlast, hextends.trans hextends', List.forall_mem_cons.mpr ⟨?_, hrest⟩⟩
    exact fun fileId => (hresolves fileId).mono hextends'

end ModuleReading

end ManagedPdb
