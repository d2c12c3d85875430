import ManagedPdb.Proofs.DebugInfo.Relabelling
import ManagedPdb.Proofs.DebugInfo.SourceSharing
import ManagedPdb.Proofs.Source.Renaming

/-!
# Reading a module again

What a module says depends on its own stream and, as far as it refers to source files, on the places
of these.  So a module that can be read behind some modules can be read behind any others
(`ModuleDescriptor.exists_decodeWhole`), and both readings are the same but for these places
(`ModuleReading.Reads.again`).
-/

namespace ManagedPdb

/-! ### Lines with other files -/

/-- The line table with the file that another table of source files has for its number. -/
def LineTable.refile (checksums : ChecksumTable) (table : LineTable) : LineTable :=
  { table with file := checksums.file? table.fileId }

section

variable (checksums checksums' : ChecksumTable)

theorem LineTable.readBlock_refile (hasColumns : Bool) (stop : Nat) :
    ReaderSim NoExcuse (fun table table' => table' = table.refile checksums')
      (readBlock checksums hasColumns stop) (readBlock checksums' hasColumns stop) := by
  have hlast : ∀ (blockStop : Nat) (fileId : UInt32) (lines : List LineRecord),
      ReaderSim NoExcuse (fun table table' => table' = refile checksums' table)
        (do
          Reader.seek blockStop
          return LineTable.mk fileId (checksums.file? fileId) lines)
        (do
          Reader.seek blockStop
          return LineTable.mk fileId (checksums'.file? fileId) lines) :=
    fun _ _ _ => .bind_same fun _ => .pure rfl
  refine .bind_same fun start => .bind_same fun fileId => .bind_same fun count =>
    .bind_same fun _ => .bind_same fun position => ?_
  refine .ite (.bind_same fun _ => ?_) ?_
  all_goals
    refine .bind_same fun lines => .ite (.bind_same fun lines => ?_) (.bind_same fun lines => ?_)
    all_goals exact hlast _ fileId lines

theorem LineTable.readBlocks_refile (hasColumns : Bool) (stop : Nat) :
    ReaderSim NoExcuse (fun tables tables' => tables' = tables.map (refile checksums'))
      (readBlocks checksums hasColumns stop) (readBlocks checksums' hasColumns stop) := by
  have hbody : ∀ tables tables' : Array LineTable, tables' = tables.map (refile checksums') →
      ReaderSim NoExcuse (fun tables tables' => tables' = tables.map (refile checksums'))
        (do return tables.push (← readBlock checksums hasColumns stop))
        (do return tables'.push (← readBlock checksums' hasColumns stop)) := by
    rintro tables _ rfl
    refine (readBlock_refile checksums checksums' hasColumns stop).bind ?_
    rintro table _ rfl
    exact .pure (Array.map_push ..).symm
  unfold readBlocks
  refine (ReaderSim.whileBelow hbody Array.map_empty.symm).bind ?_
  rintro tables _ rfl
  exact .pure (Array.toList_map ..)

/-- Methods without lines get the lines that they would get, but with other files. -/
theorem readLines_refile (start stop : Nat) {methods : List Method}
    (unlined : ∀ method ∈ methods, method.lines = []) :
    ReaderSim NoExcuse (fun lined lined' => lined'
        = lined.map (Method.relabel id (List.map (LineTable.refile checksums'))))
      (readLines checksums start stop methods) (readLines checksums' start stop methods) := by
  have hsame : methods.map (Method.relabel id (List.map (LineTable.refile checksums')))
      = methods := by
    refine (List.map_congr_left fun method member => ?_).trans (List.map_id methods)
    unfold Method.relabel
    rw [unlined method member, List.map_nil, ← unlined method member]
    rfl
  have hlines := readLines_relabel (LineTable.readBlocks_refile checksums checksums') id start stop
    methods
  rwa [hsame] at hlines

end

/-! ### One module -/

/-- The stream of the module, if it has one, has the same content in both containers. -/
def ModuleDescriptor.SameStream (descriptor : ModuleDescriptor) (container container' : Container) :
    Prop :=
  ∀ index, descriptor.stream? = some index → ∀ content,
    container'.content index = .ok content ↔ container.content index = .ok content

/-- A checksum record in the stream of a module, which is read. -/
def ModuleDescriptor.HasRecord (descriptor : ModuleDescriptor) (container : Container)
    (record : ChecksumRecord) : Prop :=
  descriptor.isRead = true ∧ ∃ index content records, descriptor.stream? = some index ∧
    container.content index = .ok content ∧
    (ChecksumRecord.readAll descriptor.linesStart descriptor.linesEnd).run content = .ok records ∧
    record ∈ records

theorem ModuleDescriptor.HasRecord.of_sameStream {descriptor : ModuleDescriptor}
    {container container' : Container} {record : ChecksumRecord}
    (same : descriptor.isRead = true → descriptor.SameStream container container')
    (h : descriptor.HasRecord container' record) : descriptor.HasRecord container record := by
  obtain ⟨isRead, index, content, records, hstream, hcontent, hrecords, member⟩ := h
  exact ⟨isRead, index, content, records, hstream,
    (same isRead index hstream content).mp hcontent, hrecords, member⟩

/-- What is read for the module is the same in both libraries: its stream and the streams about the
source files of its records.  The regions of a module that is not read only have to be in its
stream. -/
structure ModuleDescriptor.SameModule (descriptor : ModuleDescriptor)
    (library library' : SourceLibrary) : Prop where
  stream : descriptor.isRead = true → descriptor.SameStream library.container library'.container
  sources : ∀ record, descriptor.HasRecord library.container record →
    library.SameSource library' record
  regions : descriptor.isRead = false → ∀ index, descriptor.stream? = some index → ∀ content,
    library.container.content index = .ok content → descriptor.linesEnd ≤ content.size →
      ∃ content', library'.container.content index = .ok content' ∧
        descriptor.linesEnd ≤ content'.size

namespace ModuleReading

/-- A reading of the same module, which may find its source files at other places. -/
structure Again (reading reading' : ModuleReading) : Prop where
  descriptor : reading'.descriptor = reading.descriptor
  records : reading'.records = reading.records
  ranges : reading'.ranges = reading.ranges
  lined : reading'.lined
    = reading.lined.map (Method.relabel id (List.map (LineTable.refile reading'.checksums)))

variable {library library' : SourceLibrary} {keepNames : Bool}
  {sources last sources' last' : SourceSession} {reading reading' : ModuleReading}

theorem unlined_sort {limit : Nat} {content : ByteArray} {found : List Method}
    (h : (readMethods limit keepNames).run content = .ok found) :
    ∀ method ∈ Method.sort found, method.lines = [] := fun method member =>
  (lines_of_readMethods _ _).run h method ((Method.perm_sort _).mem_iff.mp member)

theorem Reads.hasRecord (reads : reading.Reads library keepNames sources last)
    (isRead : reading.descriptor.isRead = true) {record : ChecksumRecord}
    (member : record ∈ reading.records) :
    reading.descriptor.HasRecord library.container record := by
  obtain ⟨index, hstream, hcontent⟩ := reads.stream
  exact ⟨isRead, index, _, _, hstream, hcontent, reads.records, member⟩

/-- Two readings of one module differ in the places of source files alone. -/
theorem Reads.again (reads : reading.Reads library keepNames sources last)
    (reads' : reading'.Reads library' keepNames sources' last')
    (sameModule : reading'.descriptor = reading.descriptor)
    (sameStream : reading.descriptor.SameStream library.container library'.container) :
    reading.Again reading' := by
  obtain ⟨index, hstream, hcontent⟩ := reads.stream
  obtain ⟨index', hstream', hcontent'⟩ := reads'.stream
  rw [sameModule, hstream] at hstream'
  cases hstream'
  rw [sameStream index hstream, hcontent] at hcontent'
  obtain hsame : reading.content = reading'.content := Except.ok.inj hcontent'
  have hrecords := reads'.records
  rw [sameModule, ← hsame, reads.records] at hrecords
  by_cases hname : reading.descriptor.name = tokenLineModule
  · obtain ⟨hranges, -, hlined⟩ := reads.tokenLines hname
    obtain ⟨hranges', -, hlined'⟩ := reads'.tokenLines (sameModule ▸ hname)
    rw [sameModule, ← hsame, hranges] at hranges'
    refine ⟨sameModule, (Except.ok.inj hrecords).symm, (Except.ok.inj hranges').symm, ?_⟩
    rw [hlined, hlined', List.map_nil]
  · obtain ⟨hfound, hlined, hranges⟩ := reads.methods hname
    obtain ⟨hfound', hlined', hranges'⟩ := reads'.methods (sameModule ▸ hname)
    rw [sameModule, ← hsame, hfound] at hfound'
    rw [sameModule, ← hsame, ← Except.ok.inj hfound'] at hlined'
    refine ⟨sameModule, (Except.ok.inj hrecords).symm, hranges'.trans hranges.symm, ?_⟩
    have hsim := (readLines_refile reading.checksums reading'.checksums
      reading.descriptor.linesStart reading.descriptor.linesEnd (unlined_sort hfound)).run
      reading.content
    rw [hlined, hlined'] at hsim
    cases hsim with
    | ok related => exact related

/-- A module that has been read can be read behind any modules, where its records can be loaded. -/
theorem Reads.exists_readStream (reads : reading.Reads library keepNames sources last)
    (paged : library'.container.Paged) (loads : ∀ record ∈ reading.records, library'.Loads record)
    (findings : ModuleFindings SourceSession) : ∃ findings',
      (reading.descriptor.readStream library'.load keepNames findings).run reading.content
        = .ok findings' := by
  obtain ⟨state, entered⟩ := SourceLibrary.exists_entered paged loads findings.sources
  obtain ⟨next, htable⟩ :=
    Reader.run_eq_ok_iff.mp (ChecksumTable.run_read_of_records reads.records entered)
  -- checksums and lines go to places of their own, wherever the symbols end
  have hrestarts : (ChecksumTable.read library'.load reading.descriptor.linesStart
      reading.descriptor.linesEnd findings.sources).Restarts := .bind (.bind (.bind (.seek _)))
  unfold ModuleDescriptor.readStream
  by_cases hname : reading.descriptor.name = tokenLineModule
  · rw [if_pos hname]
    obtain ⟨middle, hranges⟩ := Reader.run_eq_ok_iff.mp (reads.tokenLines hname).1
    exact ⟨_, Reader.run_eq_ok_iff.mpr ⟨_, Reader.bind_eq_done_iff.mpr ⟨_, _, hranges,
      Reader.bind_eq_done_iff.mpr ⟨_, _, hrestarts _ _ middle _ _ htable, rfl⟩⟩⟩⟩
  rw [if_neg hname]
  by_cases hempty : reading.descriptor.symbolsSize = 0
  · rw [if_pos hempty]
    exact ⟨findings, rfl⟩
  rw [if_neg hempty]
  obtain ⟨hfound, hlined, -⟩ := reads.methods hname
  obtain ⟨middle, hmethods⟩ := Reader.run_eq_ok_iff.mp hfound
  obtain ⟨stop, hlines⟩ := Reader.run_eq_ok_iff.mp hlined
  obtain ⟨lined', hlines', -⟩ := (readLines_refile reading.checksums state.1
    reading.descriptor.linesStart reading.descriptor.linesEnd (unlined_sort hfound)).exists_done
    hlines
  exact ⟨_, Reader.run_eq_ok_iff.mpr ⟨_, Reader.bind_eq_done_iff.mpr ⟨_, _, hmethods,
    Reader.bind_eq_done_iff.mpr ⟨_, _, hrestarts _ _ middle _ _ htable,
      Reader.bind_eq_done_iff.mpr ⟨_, _, readLines_restarts _ _ _ _ _ _ next _ _ hlines', rfl⟩⟩⟩⟩⟩

end ModuleReading

namespace ModuleDescriptor

variable {library library' : SourceLibrary} {keepNames : Bool}

/-- A module that is decoded behind some modules can be decoded behind any. -/
theorem exists_decodeWhole (paged : library.container.Paged) (paged' : library'.container.Paged)
    (alike : library.Alike library') {descriptor : ModuleDescriptor}
    (same : descriptor.SameModule library library') {findings found : ModuleFindings SourceSession}
    (covers : library.Covers findings.sources.table)
    (h : descriptor.decodeWhole library keepNames findings = .ok found) :
    library.Covers found.sources.table ∧ ∀ findings', ∃ found',
      descriptor.decodeWhole library' keepNames findings' = .ok found' := by
  cases hstream : descriptor.stream? with
  | none =>
    rw [decodeWhole, hstream] at h
    cases h
    refine ⟨covers, fun findings' => ⟨findings', ?_⟩⟩
    rw [decodeWhole, hstream]
  | some index =>
    obtain ⟨content, hcontent, hregions, hread⟩ := (decodeWhole_eq_ok_iff paged hstream).mp h
    rcases reading_of_decode paged h with ⟨hskipped, rfl⟩ | ⟨hisRead, reading, rfl, reads, -⟩
    · have hempty : descriptor.name ≠ tokenLineModule ∧ descriptor.symbolsSize = 0 := by
        simpa [isRead, hstream] using hskipped
      obtain ⟨content', hcontent', hregions'⟩ :=
        same.regions hskipped index hstream content hcontent hregions
      refine ⟨covers, fun findings' => ⟨findings',
        (decodeWhole_eq_ok_iff paged' hstream).mpr ⟨content', hcontent', hregions', ?_⟩⟩⟩
      rw [readStream, if_neg hempty.1, if_pos hempty.2]
      rfl
    · obtain ⟨loads, hcovers⟩ := SourceLibrary.loads_of_entered paged covers reads.entered
      have hsame : reading.content = content := by
        obtain ⟨index', hstream', hread'⟩ := reads.stream
        rw [hstream] at hstream'
        cases hstream'
        rw [hcontent] at hread'
        exact (Except.ok.inj hread').symm
      have hcontent' := (same.stream hisRead index hstream content).mpr hcontent
      have loads' : ∀ record ∈ reading.records, library'.Loads record := fun record member =>
        alike.loads (same.sources record (reads.hasRecord hisRead member)) (loads record member)
      refine ⟨hcovers, fun findings' => ?_⟩
      obtain ⟨found', hfound'⟩ := reads.exists_readStream paged' loads' findings'
      rw [hsame] at hfound'
      exact ⟨found', (decodeWhole_eq_ok_iff paged' hstream).mpr
        ⟨content, hcontent', hregions, hfound'⟩⟩

/-- All modules of a row can be decoded in any other order. -/
theorem exists_foldlM_decodeWhole (paged : library.container.Paged)
    (paged' : library'.container.Paged) (alike : library.Alike library')
    {modules modules' : List ModuleDescriptor} (perm : modules.Perm modules')
    (sameModules : ∀ descriptor ∈ modules, descriptor.SameModule library library')
    {findings found : ModuleFindings SourceSession}
    (covers : library.Covers findings.sources.table)
    (h : modules.foldlM (decodeWhole library keepNames) findings = .ok found)
    (findings' : ModuleFindings SourceSession) : ∃ found',
      modules'.foldlM (decodeWhole library' keepNames) findings' = .ok found' := by
  -- each module can be decoded behind any others, so no order of them gets stuck
  have hall : ∀ descriptor ∈ modules, ∀ findings', ∃ found',
      descriptor.decodeWhole library' keepNames findings' = .ok found' := by
    clear perm
    induction modules generalizing findings with
    | nil => exact nofun
    | cons descriptor modules ih =>
      obtain ⟨hsame, hsames⟩ := List.forall_mem_cons.mp sameModules
      rw [List.foldlM_cons] at h
      obtain ⟨middle, hfirst, hrest⟩ := bind_eq_ok_iff.mp h
      obtain ⟨hmiddle, hdecodes⟩ := exists_decodeWhole paged paged' alike hsame covers hfirst
      exact List.forall_mem_cons.mpr ⟨hdecodes, ih hsames hmiddle hrest⟩
  have hall' : ∀ descriptor ∈ modules', ∀ findings', ∃ found',
      descriptor.decodeWhole library' keepNames findings' = .ok found' :=
    fun descriptor member => hall descriptor (perm.mem_iff.mpr member)
  clear h covers sameModules hall perm
  induction modules' generalizing findings' with
  | nil => exact ⟨findings', rfl⟩
  | cons descriptor modules' ih =>
    obtain ⟨hdecodes, hrest⟩ := List.forall_mem_cons.mp hall'
    obtain ⟨middle, hfirst⟩ := hdecodes findings'
    obtain ⟨found', hfound'⟩ := ih middle hrest
    exact ⟨found', by rw [List.foldlM_cons, hfirst, ok_bind, hfound']⟩

end ModuleDescriptor

end ManagedPdb
