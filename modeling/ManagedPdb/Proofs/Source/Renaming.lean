import ManagedPdb.Proofs.Source.Loading

/-!
# Other places for the same files

Two tables with the same files may list them in different orders.  If the same records have been
loaded into both, and records with one name say the same, then a change of places takes one table to
the other (`SourceLibrary.Catalogues.renames`), and what a module finds for its file numbers changes
along with it (`ModuleReading.Resolves.rename`).
-/

namespace ManagedPdb

/-- The change of places takes the files of the left table to those of the right one: each file to
an equal one, different files to different ones, and no file is left over. -/
structure RenamesSources (file? file?' : SourceRef → Option SourceFile)
    (rename : SourceRef → SourceRef) : Prop where
  file : ∀ ref file, file? ref = some file → file?' (rename ref) = some file
  injective : ∀ ref ref', (file? ref).isSome → (file? ref').isSome → rename ref = rename ref' →
    ref = ref'
  surjective : ∀ ref' file, file?' ref' = some file →
    ∃ ref, file? ref = some file ∧ rename ref = ref'

/-- The place in the right table of the file with the same name. -/
def SourceTable.renaming (table table' : SourceTable) (ref : SourceRef) : SourceRef :=
  ((table.file? ref).bind fun file => table'.find? file.name).getD ref

namespace SourceLibrary

variable {library library' : SourceLibrary} {records records' : List ChecksumRecord}
  {table table' : SourceTable}

/-- Records with one name say the same about their file. -/
def Unanimous (library : SourceLibrary) (records : List ChecksumRecord) : Prop :=
  ∀ record ∈ records, ∀ record' ∈ records, ∀ name, library.nameOf? record = some name →
    library.nameOf? record' = some name →
      record.kind = record'.kind ∧ record.checksum = record'.checksum

theorem mem_of_first? {record : ChecksumRecord} {name : String}
    (h : library.first? records name = some record) :
    record ∈ records ∧ library.nameOf? record = some name := by
  unfold first? at h
  exact ⟨List.mem_of_find?_eq_some h, by simpa using List.find?_some h⟩

/-- A file is described by one record at most, as far as it matters. -/
theorem Alike.describes_unique (alike : library.Alike library') {record record' : ChecksumRecord}
    {file file' : SourceFile} (sameSource : library.SameSource library' record)
    (hrecord : library.nameOf? record = some file.name) (hname : file'.name = file.name)
    (hagree : record.kind = record'.kind ∧ record.checksum = record'.checksum)
    (h : library.Describes record file) (h' : library'.Describes record' file') : file' = file := by
  have hfile : record'.file file.name = record.file file.name := by
    rw [ChecksumRecord.file, ← hagree.1, ← hagree.2, ChecksumRecord.file]
  unfold Describes at h h'
  rw [hname, alike.info, hfile] at h'
  have hcontents := sameSource file.name hrecord
  rw [stream?_sourceStreamName] at hcontents
  cases hindex : library.info.streams["/SRC/FILES/" ++ Upper.ofString file.name]? with
  | none =>
    rw [hindex] at h h'
    exact h'.trans h.symm
  | some index =>
    rw [hindex] at h h'
    obtain ⟨content, hcontent, hfile⟩ := h
    obtain ⟨content', hcontent', hfile'⟩ := h'
    rw [hcontents index hindex, hcontent] at hcontent'
    cases hcontent'
    exact hfile'.trans hfile.symm

namespace Catalogues

/-- A file of one table is in the other, too. -/
theorem find_renaming (catalogues : library.Catalogues records table)
    (catalogues' : library'.Catalogues records' table') (alike : library.Alike library')
    (sameSources : ∀ record ∈ records, library.SameSource library' record)
    (subset : records ⊆ records') (unanimous : library.Unanimous records') {ref : SourceRef}
    {file : SourceFile} (h : table.file? ref = some file) :
    table'.find? file.name = some (table.renaming table' ref) ∧
      table'.file? (table.renaming table' ref) = some file := by
  obtain ⟨record, hrecord, hdescribes⟩ := catalogues.described h
  obtain ⟨member, hname⟩ := mem_of_first? hrecord
  obtain ⟨ref', hfind⟩ := catalogues'.listed record (subset member) file.name
    ((alike.nameOf?_eq record).trans hname)
  have hrenaming : table.renaming table' ref = ref' := by
    rw [SourceTable.renaming, h, Option.bind_some, hfind, Option.getD_some]
  obtain ⟨file', hfile', hfileName⟩ := catalogues'.find.mp hfind
  obtain ⟨record', hrecord', hdescribes'⟩ := catalogues'.described hfile'
  obtain ⟨member', hname'⟩ := mem_of_first? hrecord'
  rw [hfileName, alike.nameOf?_eq record'] at hname'
  have hagree := unanimous record (subset member) record' member' file.name hname hname'
  obtain rfl := alike.describes_unique (sameSources record member) hname hfileName hagree
    hdescribes hdescribes'
  rw [hrenaming]
  exact ⟨hfind, hfile'⟩

/-- The tables have the same files if the same records have been loaded into both. -/
theorem renames (catalogues : library.Catalogues records table)
    (catalogues' : library'.Catalogues records' table') (alike : library.Alike library')
    (sameSources : ∀ record ∈ records, library.SameSource library' record)
    (perm : records.Perm records') (unanimous : library.Unanimous records) :
    RenamesSources table.file? table'.file? (table.renaming table') := by
  have unanimous' : library.Unanimous records' := fun record member record' member' =>
    unanimous record (perm.mem_iff.mpr member) record' (perm.mem_iff.mpr member')
  have hfind : ∀ {ref file}, table.file? ref = some file →
      table'.find? file.name = some (table.renaming table' ref) ∧
        table'.file? (table.renaming table' ref) = some file :=
    catalogues.find_renaming catalogues' alike sameSources perm.subset unanimous'
  constructor
  case file => exact fun ref file h => (hfind h).2
  case injective =>
    intro ref ref' hsome hsome' hsame
    obtain ⟨file, hfile⟩ := Option.isSome_iff_exists.mp hsome
    obtain ⟨file', hfile'⟩ := Option.isSome_iff_exists.mp hsome'
    have h := (hfind hfile).2
    rw [hsame, (hfind hfile').2] at h
    cases h
    exact (catalogues.ref_eq_iff hfile hfile').mpr rfl
  case surjective =>
    intro ref' file h'
    obtain ⟨record, hrecord, -⟩ := catalogues'.described h'
    obtain ⟨member, hname⟩ := mem_of_first? hrecord
    rw [alike.nameOf?_eq] at hname
    obtain ⟨ref, hlisted⟩ := catalogues.listed record (perm.mem_iff.mpr member) file.name hname
    obtain ⟨file', hfile, hfileName⟩ := catalogues.find.mp hlisted
    obtain ⟨-, hrenamed⟩ := hfind hfile
    have hsame : ref' = table.renaming table' ref :=
      (catalogues'.ref_eq_iff h' hrenamed).mpr hfileName.symm
    rw [← hsame, h'] at hrenamed
    cases hrenamed
    exact ⟨ref, hfile, hsame.symm⟩

end Catalogues

end SourceLibrary

/-- A module that finds its files in both tables finds the same ones. -/
theorem ModuleReading.Resolves.rename {library library' : SourceLibrary}
    {reading reading' : ModuleReading} {file? file?' : SourceRef → Option SourceFile}
    {rename : SourceRef → SourceRef} {fileId : UInt32} {found found' : Option SourceRef}
    (resolves : reading.Resolves library file? fileId found)
    (resolves' : reading'.Resolves library' file?' fileId found')
    (alike : library.Alike library') (sameRecords : reading'.records = reading.records)
    (renames : RenamesSources file? file?' rename)
    (distinct : ∀ ref ref' file file', file?' ref = some file → file?' ref' = some file' →
      file.name = file'.name → ref = ref') :
    found' = found.map rename := by
  -- whether a file number means anything is up to the records alone
  have hsome : found'.isSome ↔ found.isSome := by
    rw [resolves.isSome_iff, resolves'.isSome_iff, sameRecords]
  cases found with
  | none =>
    cases found' with
    | none => rfl
    | some ref' => exact absurd (hsome.mp rfl) Bool.false_ne_true
  | some ref =>
    obtain ⟨ref', rfl⟩ := Option.isSome_iff_exists.mp (hsome.mpr rfl)
    obtain ⟨record, file, hrecord, hfile, hname⟩ := resolves.file ref rfl
    obtain ⟨record', file', hrecord', hfile', hname'⟩ := resolves'.file ref' rfl
    rw [ModuleReading.recordAt?, sameRecords, ← ModuleReading.recordAt?, hrecord] at hrecord'
    cases hrecord'
    rw [alike.nameOf?_eq, hname] at hname'
    exact congrArg some (distinct ref' (rename ref) file' file hfile' (renames.file ref file hfile)
      (Option.some.inj hname').symm)

end ManagedPdb
