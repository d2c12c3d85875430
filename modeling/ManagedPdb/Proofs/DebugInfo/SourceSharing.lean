import ManagedPdb.DebugInfo.Lookup
import ManagedPdb.Proofs.DebugInfo.MethodOrder
import ManagedPdb.Proofs.Draft.LineRegion
import ManagedPdb.Proofs.Line.TableFiles
import ManagedPdb.Proofs.Source.Sharing

/-!
# The source files of a whole file

Line tables and token lines refer to source files by their places in one table.  All modules share
this table, while each has file numbers of its own: what a file number stands for is said by the
checksum records of the module alone, and what is known about the file by the first record of any
module that resolves to its name (`DebugInfo.sources_shared`).
-/

namespace ManagedPdb

/-- All line tables of a module name the files of their file numbers. -/
theorem ModuleReading.Reads.filesOf {library : SourceLibrary} {keepNames : Bool}
    {sources sources' : SourceSession} {reading : ModuleReading}
    (reads : reading.Reads library keepNames sources sources') :
    ∀ method ∈ reading.lined, FilesOf reading.checksums method.lines := by
  by_cases hname : reading.descriptor.name = tokenLineModule
  · rw [(reads.tokenLines hname).2.2]
    exact nofun
  · obtain ⟨hfound, hlined, -⟩ := reads.methods hname
    obtain ⟨last, hlined⟩ := Reader.run_eq_ok_iff.mp hlined
    refine filesOf_readLines (Method.sortedBySite_sort reading.found) ?_ hlined
    intro method member
    exact (lines_of_readMethods _ _).run hfound method ((Method.perm_sort _).mem_iff.mp member)

namespace DebugInfo

/-- A line table or a token line refers to the source file at a place. -/
inductive RefersTo (info : DebugInfo) (ref : SourceRef) : Prop
  | line {method : Method} {table : LineTable} (inFile : method ∈ info.methods.toList)
      (inMethod : table ∈ method.lines) (file : table.file = some ref)
  | tokenLine {token : UInt32} {line : TokenLine} (inFile : line ∈ (info.tokenLine token).toList)
      (file : line.file = some ref)

/-- Where the source files of a file come from, of which the streams of some modules are read. -/
structure SharesSources (info : DebugInfo) (library : SourceLibrary) (remap : TokenRemap)
    (readings : List ModuleReading) : Prop where
  /-- There is a source file wherever a line table or a token line refers to. -/
  referred : ∀ ref, info.RefersTo ref → ∃ file, info.source? ref = some file
  /-- Source files are the same if and only if their names are equal. -/
  shared : ∀ ref ref' file file', info.source? ref = some file → info.source? ref' = some file' →
    (ref = ref' ↔ file.name = file'.name)
  /-- A source file is described by the first record that resolves to its name. -/
  described : ∀ ref file, info.source? ref = some file → ∃ record,
    library.first? (readings.flatMap ModuleReading.records) file.name = some record ∧
    library.Describes record file
  /-- Line tables belong to methods of modules, and say what the records of these modules say. -/
  lines : ∀ method ∈ info.methods.toList, ∃ reading ∈ readings, ∃ lined ∈ reading.lined,
    remap.apply lined = .ok method ∧ method.lines = lined.lines
  lineFiles : ∀ reading ∈ readings, ∀ lined ∈ reading.lined, ∀ table ∈ lined.lines,
    reading.Resolves library info.source? table.fileId table.file
  /-- Token lines are those of modules, and say what the records of these modules say. -/
  tokenLines : ∀ token, ∀ line ∈ (info.tokenLine token).toList,
    ∃ reading ∈ readings, (token, line) ∈ reading.resolved
  tokenLineFiles : ∀ reading ∈ readings, ∀ entry ∈ reading.resolved,
    reading.Resolves library info.source? entry.2.fileId entry.2.file

variable {options : DecodeOptions} {image : ByteArray} {info : DebugInfo} {library : SourceLibrary}
  {remap : TokenRemap} {readings : List ModuleReading} {session : SourceSession}

theorem MadeOf.exists_lined (made : MadeOf options image info library remap readings session)
    {method : Method} (member : method ∈ info.methods.toList) :
    ∃ reading ∈ readings, ∃ lined ∈ reading.lined,
      remap.apply lined = .ok method ∧ method.lines = lined.lines := by
  obtain ⟨renamed, hrenamed, hmethods⟩ := made.methods
  rw [hmethods, (Method.perm_sort renamed).mem_iff] at member
  obtain ⟨lined, hlined, happly⟩ :=
    exists_of_mem_of_forall₂ (forall₂_of_mapM_eq_ok hrenamed).flip member
  obtain ⟨reading, hreading, hlined⟩ := List.mem_flatMap.mp hlined
  refine ⟨reading, hreading, lined, hlined, happly, ?_⟩
  rw [(TokenRemap.changes_of_apply happly).others]

theorem MadeOf.exists_resolved (made : MadeOf options image info library remap readings session)
    {token : UInt32} {line : TokenLine} (member : line ∈ (info.tokenLine token).toList) :
    ∃ reading ∈ readings, (token, line) ∈ reading.resolved := by
  rw [tokenLine, made.tokenLines, TokenLines.toList_ofToken_foldl] at member
  rcases List.mem_append.mp member with member | member
  · exact absurd member (by simp [TokenLines.ofToken])
  · obtain ⟨entry, hentry, rfl⟩ := List.mem_map.mp member
    obtain ⟨hresolved, htoken⟩ := List.mem_filter.mp hentry
    obtain rfl := of_decide_eq_true htoken
    exact List.mem_flatMap.mp hresolved

theorem MadeOf.source?_eq (made : MadeOf options image info library remap readings session) :
    info.source? = session.table.file? := by
  funext ref
  rw [source?, made.sources]
  rfl

/-- What is read of a module that was written is what its draft holds. -/
theorem MadeOf.stream?_of_written {draft : ImageDraft} {names : List String}
    (writable : draft.Writable names)
    (made : MadeOf options draft.image info library remap readings session)
    {reading : ModuleReading} (member : reading ∈ readings) {entry : ModuleDraft × Option UInt16}
    (numbered : entry ∈ draft.numberedModules)
    (written : reading.descriptor = entry.1.written entry.2) :
    entry.1.stream? = some reading.content ∧ reading.content.size < 2 ^ 31 := by
  obtain ⟨_, _, reads⟩ := made.readAll.exists_reads member
  obtain ⟨index, hstream, hcontent⟩ := reads.stream
  obtain ⟨container, hcontainer, holds⟩ := Layout.exists_holds writable.fits
  obtain rfl : container = library.container := Except.ok.inj (hcontainer.symm.trans made.ofImage)
  rw [holds.content_eq] at hcontent
  rw [written] at hstream
  rcases writable.module_cases entry numbered
    with ⟨-, hnone⟩ | ⟨index', content, hmodule, hsome, hread, hsize⟩
  · rw [hstream] at hnone
    cases hnone
  · rw [hstream] at hsome
    cases hsome
    rw [hread] at hcontent
    cases hcontent
    exact ⟨hmodule, hsize⟩

/-- The source files of a file that is decoded are shared by all its modules. -/
theorem MadeOf.sharesSources (made : MadeOf options image info library remap readings session) :
    info.SharesSources library remap readings := by
  have paged : library.container.Paged := Container.paged_of_ofImage made.ofImage
  obtain ⟨catalogues, -, hresolves⟩ := made.readAll.catalogues paged (.empty library)
  rw [List.nil_append] at catalogues
  have hlines : ∀ reading ∈ readings, ∀ lined ∈ reading.lined, ∀ table ∈ lined.lines,
      reading.Resolves library info.source? table.fileId table.file := by
    intro reading hreading lined hlined table htable
    obtain ⟨_, _, reads⟩ := made.readAll.exists_reads hreading
    rw [reads.filesOf lined hlined table htable, made.source?_eq]
    exact hresolves reading hreading table.fileId
  have htokenLines : ∀ reading ∈ readings, ∀ entry ∈ reading.resolved,
      reading.Resolves library info.source? entry.2.fileId entry.2.file := by
    intro reading hreading entry hentry
    obtain ⟨⟨token, line⟩, -, rfl⟩ := List.mem_map.mp hentry
    rw [made.source?_eq]
    exact hresolves reading hreading line.fileId
  constructor
  case referred =>
    -- whatever refers to a file has found it by a record of its module
    intro ref refers
    cases refers with
    | @line method table inFile inMethod hfile =>
      obtain ⟨reading, hreading, lined, hlined, -, hsame⟩ := made.exists_lined inFile
      obtain ⟨_, file, -, hsource, -⟩ :=
        (hlines reading hreading lined hlined table (hsame ▸ inMethod)).file ref hfile
      exact ⟨file, hsource⟩
    | tokenLine inFile hfile =>
      obtain ⟨reading, hreading, hentry⟩ := made.exists_resolved inFile
      obtain ⟨_, file, -, hsource, -⟩ := (htokenLines reading hreading _ hentry).file ref hfile
      exact ⟨file, hsource⟩
  case shared =>
    intro ref ref' file file' hsource hsource'
    rw [made.source?_eq] at hsource hsource'
    exact catalogues.ref_eq_iff hsource hsource'
  case described =>
    intro ref file hsource
    rw [made.source?_eq] at hsource
    exact catalogues.described hsource
  case lines => exact fun method => made.exists_lined
  case lineFiles => exact hlines
  case tokenLines => exact fun token line => made.exists_resolved
  case tokenLineFiles => exact htokenLines

/-- Two line tables or token lines of a file that is decoded refer to the same source file if and
only if the names are equal.  What is known about a file is what the first record says that resolves
to its name, in the order of the modules that are read, and what the stream with its upper-case name
says.  And a line table or a token line has a file if and only if a record of its own module starts
at its file number. -/
theorem sources_shared (h : decodeWith options image = .ok info) :
    ∃ library remap readings session, MadeOf options image info library remap readings session ∧
      info.SharesSources library remap readings := by
  obtain ⟨library, remap, readings, session, made⟩ := exists_madeOf h
  exact ⟨library, remap, readings, session, made, made.sharesSources⟩

end DebugInfo

namespace DebugInfo

/-- Two modules with one source file, which they know by different numbers. -/
def sharedDraft : ImageDraft where
  nameBuffer := (["a.cs", "a.cs"].foldl ImageDraft.addName {}).nameBuffer
  modules := [
    { ModuleDraft.ofName "a.obj" with
      symbols := some (SymbolRegion.ofCommands [.method 0x06000001 1 16 32 "a", .close 6]).bytes
      lines := (LineRegion.ofCommands
        [.checksum ⟨1, 1, ⟨#[7]⟩⟩, .lines ⟨1, 16, 32, [⟨0, [.single 0 5]⟩], false⟩]).bytes },
    { ModuleDraft.ofName "b.obj" with
      symbols := some (SymbolRegion.ofCommands [.method 0x06000002 2 16 33 "b", .close 6]).bytes
      lines := (LineRegion.ofCommands
        [.checksum ⟨6, 2, ⟨#[8]⟩⟩, .lines ⟨2, 16, 33, [⟨0, [.single 0 9]⟩], false⟩]).bytes }]

/-- Whatever record comes first describes the file. -/
theorem sources_shared_sharedDraft :
    ∃ info, decodeWith {} sharedDraft.image = .ok info ∧
      info.methods.toList.map (fun method => method.lines.length) = [1, 1] ∧
      info.sources.toList.map (fun file => (file.name, file.checksumKind)) = [("a.cs", 1)] ∧
      ∃ library remap readings, info.SharesSources library remap readings := by
  have writable : sharedDraft.Writable ["a.cs", "a.cs"] :=
    .of_modules rfl rfl rfl rfl (by decide) (by decide +kernel) (by decide +kernel)
      (by decide +kernel) (by decide +kernel) (by decide +kernel)
  have hscan : (sharedDraft.scanned ["a.cs", "a.cs"]).map (fun (methods, _, files) =>
      (methods.map fun method => method.lines.length,
        files.map fun file => (file.name, file.checksumKind)))
      = some ([1, 1], [("a.cs", 1)]) := by
    unfold ImageDraft.scanned ImageDraft.readModules ModuleDraft.readWith
      ModuleDescriptor.readStream ModuleDescriptor.readMethodsWithLines remapMethods
    simp only [Method.sort_eq_insertSort]
    decide +kernel
  obtain ⟨info, hinfo, -, hsaid⟩ := writable.exists_decode_of_scan hscan
  obtain ⟨hlines, hfiles⟩ := Prod.mk.inj hsaid
  obtain ⟨library, remap, readings, _, -, shares⟩ := sources_shared hinfo
  exact ⟨info, hinfo, hlines, hfiles, library, remap, readings, shares⟩

end DebugInfo

end ManagedPdb
