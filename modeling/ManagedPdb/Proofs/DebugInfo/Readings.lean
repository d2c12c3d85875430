import ManagedPdb.Proofs.DebugInfo.Remapping
import ManagedPdb.Proofs.Line.ChecksumRecord

/-!
# What is read from each module

Of a file that is decoded, the streams of some modules are read, one after the other
(`ModuleDescriptor.isRead`).  A reading of a module is all that is found in its stream
(`ModuleReading`); what the modules add to the methods, the token lines and the source files is
what their readings hold, in the order of the modules (`DebugInfo.exists_readings`).
-/

namespace ManagedPdb

/-- Whether something is read from the stream of the module. -/
def ModuleDescriptor.isRead (descriptor : ModuleDescriptor) : Bool :=
  descriptor.stream?.isSome
    && (descriptor.name == tokenLineModule || descriptor.symbolsSize != 0)

/-- What is found in the stream of a module. -/
structure ModuleReading where
  descriptor : ModuleDescriptor
  /-- The stream. -/
  content : ByteArray
  /-- The checksum records, in their order. -/
  records : List ChecksumRecord
  /-- The source files by the offsets of their records. -/
  checksums : ChecksumTable
  /-- The methods as they stand in the stream. -/
  found : List Method
  /-- The methods by their places, with their lines. -/
  lined : List Method
  /-- The ranges of tokens as they stand in the stream. -/
  ranges : List (UInt32 × TokenLine)

namespace ModuleReading

/-- The ranges with their source files. -/
def resolved (reading : ModuleReading) : List (UInt32 × TokenLine) :=
  reading.ranges.map fun (token, line) => (token, line.resolve reading.checksums)

/-- The reading is what the stream of its module says, where the source files are at first those
of `sources` and in the end those of `sources'`. -/
structure Reads (library : SourceLibrary) (keepNames : Bool) (sources : SourceSession)
    (reading : ModuleReading) (sources' : SourceSession) : Prop where
  stream : ∃ index, reading.descriptor.stream? = some index ∧
    library.container.content index = .ok reading.content
  regions : reading.descriptor.linesEnd ≤ reading.content.size
  records : (ChecksumRecord.readAll reading.descriptor.linesStart reading.descriptor.linesEnd).run
    reading.content = .ok reading.records
  entered : ChecksumRecord.Entered library.load sources (reading.checksums, sources')
    reading.records
  tokenLines : reading.descriptor.name = tokenLineModule →
    (TokenLine.readAll reading.descriptor.symbolsEnd).run reading.content = .ok reading.ranges ∧
      reading.found = [] ∧ reading.lined = []
  methods : reading.descriptor.name ≠ tokenLineModule →
    (readMethods reading.descriptor.symbolsEnd keepNames).run reading.content = .ok reading.found ∧
      (readLines reading.checksums reading.descriptor.linesStart reading.descriptor.linesEnd
        (Method.sort reading.found)).run reading.content = .ok reading.lined ∧
      reading.ranges = []

/-- Readings in a row. -/
inductive ReadAll (library : SourceLibrary) (keepNames : Bool) :
    SourceSession → List ModuleReading → SourceSession → Prop
  | nil (sources) : ReadAll library keepNames sources [] sources
  | cons {sources middle last reading readings} :
      Reads library keepNames sources reading middle →
      ReadAll library keepNames middle readings last →
      ReadAll library keepNames sources (reading :: readings) last

/-- Each reading in a row is the reading of its module. -/
theorem ReadAll.exists_reads {library : SourceLibrary} {keepNames : Bool}
    {sources sources' : SourceSession} {readings : List ModuleReading}
    (readAll : ReadAll library keepNames sources readings sources') {reading : ModuleReading}
    (member : reading ∈ readings) :
    ∃ before after, reading.Reads library keepNames before after := by
  induction readAll with
  | nil => cases member
  | cons hreads _ ih =>
    rcases List.mem_cons.mp member with rfl | member
    · exact ⟨_, _, hreads⟩
    · exact ih member

end ModuleReading

/-! ### One module -/

theorem readLines_restarts (checksums : ChecksumTable) (start stop : Nat) (methods : List Method) :
    (readLines checksums start stop methods).Restarts :=
  .bind (.bind (.bind (.seek _)))

namespace ModuleDescriptor

variable {library : SourceLibrary} {keepNames : Bool} {descriptor : ModuleDescriptor}
  {findings findings' : ModuleFindings SourceSession}

/-- What a reading adds to what has been found. -/
structure Adds (reading : ModuleReading) (findings findings' : ModuleFindings SourceSession) :
    Prop where
  methods : findings'.methods.toList = findings.methods.toList ++ reading.lined
  tokenLines : findings'.tokenLines = reading.resolved.foldl TokenLines.add findings.tokenLines

theorem exists_reading_of_readStream {index : UInt32} {content : ByteArray}
    (hstream : descriptor.stream? = some index)
    (hcontent : library.container.content index = .ok content)
    (hregions : descriptor.linesEnd ≤ content.size) (hread : descriptor.isRead = true)
    (h : (descriptor.readStream library.load keepNames findings).run content = .ok findings') :
    ∃ reading : ModuleReading, reading.descriptor = descriptor ∧
      reading.Reads library keepNames findings.sources findings'.sources ∧
      Adds reading findings findings' := by
  obtain ⟨last, h⟩ := Reader.run_eq_ok_iff.mp h
  unfold readStream at h
  by_cases hname : descriptor.name = tokenLineModule
  · rw [if_pos hname] at h
    obtain ⟨ranges, _, hranges, h⟩ := Reader.bind_eq_done_iff.mp h
    obtain ⟨⟨checksums, sources⟩, _, htable, h⟩ := Reader.bind_eq_done_iff.mp h
    cases h
    obtain ⟨records, hrecords, entered⟩ := ChecksumTable.exists_records htable
    exact ⟨⟨descriptor, content, records, checksums, [], [], ranges⟩, rfl,
      ⟨⟨index, hstream, hcontent⟩, hregions, hrecords, entered,
        fun _ => ⟨Reader.run_eq_ok_iff.mpr ⟨_, hranges⟩, rfl, rfl⟩, fun h => absurd hname h⟩,
      ⟨(List.append_nil _).symm, rfl⟩⟩
  · have hsymbols : descriptor.symbolsSize ≠ 0 := by
      simpa [isRead, hstream, hname] using hread
    rw [if_neg hname, if_neg hsymbols] at h
    obtain ⟨found, _, hfound, h⟩ := Reader.bind_eq_done_iff.mp h
    obtain ⟨⟨checksums, sources⟩, _, htable, h⟩ := Reader.bind_eq_done_iff.mp h
    obtain ⟨lined, _, hlined, h⟩ := Reader.bind_eq_done_iff.mp h
    cases h
    obtain ⟨records, hrecords, entered⟩ := ChecksumTable.exists_records htable
    have hfoundAll := Reader.run_eq_ok_iff.mpr ⟨_, hfound⟩
    exact ⟨⟨descriptor, content, records, checksums, found, lined, []⟩, rfl,
      ⟨⟨index, hstream, hcontent⟩, hregions, hrecords, entered, fun h => absurd h hname,
        fun _ => ⟨hfoundAll, (readLines_restarts _ _ _ _).run hlined, rfl⟩⟩,
      ⟨by simp, rfl⟩⟩

/-- Adds what a module says, with its stream read as a whole. -/
def decodeWhole (library : SourceLibrary) (keepNames : Bool)
    (findings : ModuleFindings SourceSession) (descriptor : ModuleDescriptor) :
    Except DecodeError (ModuleFindings SourceSession) :=
  match descriptor.stream? with
  | none => .ok findings
  | some index => do
    let stream ← library.container.directory.stream index
    if stream.length.toNat < descriptor.linesEnd then .error (.ofKind .invalidModuleRegions)
    else
      let content ← stream.content library.container.file
      (descriptor.readStream library.load keepNames findings).run content

theorem run'_decode (paged : library.container.Paged) (keepNames : Bool)
    (findings : ModuleFindings SourceSession) (descriptor : ModuleDescriptor) (cursor : Cursor) :
    (descriptor.decode library keepNames findings).run' cursor
      = descriptor.decodeWhole library keepNames findings := by
  unfold decode decodeWhole
  cases descriptor.stream? with
  | none => rfl
  | some index =>
    dsimp only
    cases library.container.directory.stream index with
    | error error => rfl
    | ok stream =>
      show StateT.run' (if stream.length.toNat < descriptor.linesEnd then do
          throw (.ofKind .invalidModuleRegions)
          stream.stage library.container.file
            (descriptor.readStream library.load keepNames findings)
        else stream.stage library.container.file
          (descriptor.readStream library.load keepNames findings) : Staging _) cursor = _
      rw [ok_bind]
      by_cases hregions : stream.length.toNat < descriptor.linesEnd
      · rw [if_pos hregions, if_pos hregions]
        rfl
      · rw [if_neg hregions, if_neg hregions, StreamDescriptor.run'_stage paged]

/-- A module with a stream is decoded where its regions are in the stream and the stream can be
read. -/
theorem decodeWhole_eq_ok_iff (paged : library.container.Paged) {index : UInt32}
    (hstream : descriptor.stream? = some index) :
    descriptor.decodeWhole library keepNames findings = .ok findings' ↔
      ∃ content, library.container.content index = .ok content ∧
        descriptor.linesEnd ≤ content.size ∧
        (descriptor.readStream library.load keepNames findings).run content = .ok findings' := by
  unfold decodeWhole Container.content
  rw [hstream]
  dsimp only
  cases library.container.directory.stream index with
  | error error =>
    refine ⟨nofun, ?_⟩
    rintro ⟨_, hcontent, -⟩
    cases hcontent
  | ok stream =>
    simp only [ok_bind]
    cases hread : stream.content library.container.file with
    | error error =>
      refine ⟨fun h => ?_, by simp⟩
      split at h <;> cases h
    | ok content =>
      have hsize := StreamDescriptor.size_of_read_eq_ok paged hread
      by_cases hregions : stream.length.toNat < descriptor.linesEnd
      · rw [if_pos hregions]
        refine ⟨nofun, ?_⟩
        rintro ⟨_, ⟨⟩, hle, -⟩
        omega
      · rw [if_neg hregions, ok_bind]
        constructor
        · exact fun h => ⟨content, rfl, by omega, h⟩
        · rintro ⟨_, ⟨⟩, -, h⟩
          exact h

/-- A module that is decoded adds its reading, or nothing if its stream is not read. -/
theorem reading_of_decode (paged : library.container.Paged)
    (h : descriptor.decodeWhole library keepNames findings = .ok findings') :
    (descriptor.isRead = false ∧ findings' = findings) ∨
      (descriptor.isRead = true ∧ ∃ reading : ModuleReading, reading.descriptor = descriptor ∧
        reading.Reads library keepNames findings.sources findings'.sources ∧
        Adds reading findings findings') := by
  cases hstream : descriptor.stream? with
  | none =>
    rw [decodeWhole, hstream] at h
    cases h
    exact .inl ⟨by simp [isRead, hstream], rfl⟩
  | some index =>
    obtain ⟨content, hcontent, hregions, h⟩ := (decodeWhole_eq_ok_iff paged hstream).mp h
    cases hisRead : descriptor.isRead with
    | true =>
      exact .inr ⟨rfl, exists_reading_of_readStream hstream hcontent hregions hisRead h⟩
    | false =>
      have hskipped : descriptor.name ≠ tokenLineModule ∧ descriptor.symbolsSize = 0 := by
        simpa [isRead, hstream] using hisRead
      rw [readStream, if_neg hskipped.1, if_pos hskipped.2] at h
      cases h
      exact .inl ⟨rfl, rfl⟩

end ModuleDescriptor

/-! ### All modules -/

namespace DebugInfo

/-- The modules are decoded one after the other, each with its stream read as a whole. -/
theorem run'_foldlM_decode {library : SourceLibrary} (paged : library.container.Paged)
    (keepNames : Bool) (modules : List ModuleDescriptor)
    (findings : ModuleFindings SourceSession) :
    (modules.foldlM (ModuleDescriptor.decode library keepNames) findings).run' .empty
      = modules.foldlM (ModuleDescriptor.decodeWhole library keepNames) findings := by
  induction modules generalizing findings with
  | nil => rfl
  | cons descriptor modules ih =>
    rw [List.foldlM_cons, List.foldlM_cons, Staging.Steady.run'_bind (fun state _ =>
      .foldlM (Staging.Steady.decodeModule paged keepNames) modules state) .empty,
      ModuleDescriptor.run'_decode paged]
    exact bind_congr ih

/-- The modules whose streams are read add their readings, one after the other. -/
theorem exists_readings {library : SourceLibrary} (paged : library.container.Paged)
    {keepNames : Bool} (modules : List ModuleDescriptor)
    {findings findings' : ModuleFindings SourceSession}
    (h : (modules.foldlM (ModuleDescriptor.decode library keepNames) findings).run' .empty
      = .ok findings') :
    ∃ readings : List ModuleReading,
      readings.map ModuleReading.descriptor = modules.filter ModuleDescriptor.isRead ∧
      ModuleReading.ReadAll library keepNames findings.sources readings findings'.sources ∧
      findings'.methods.toList = findings.methods.toList ++ readings.flatMap ModuleReading.lined ∧
      findings'.tokenLines
        = (readings.flatMap ModuleReading.resolved).foldl TokenLines.add findings.tokenLines := by
  rw [run'_foldlM_decode paged] at h
  induction modules generalizing findings with
  | nil =>
    cases h
    exact ⟨[], rfl, .nil _, (List.append_nil _).symm, rfl⟩
  | cons descriptor modules ih =>
    rw [List.foldlM_cons] at h
    obtain ⟨middle, hfirst, hrest⟩ := bind_eq_ok_iff.mp h
    obtain ⟨readings, hdescriptors, hreadAll, hmethods, htokenLines⟩ := ih hrest
    rcases ModuleDescriptor.reading_of_decode paged hfirst with
      ⟨hskipped, rfl⟩ | ⟨hread, reading, rfl, hreads, hadds⟩
    · refine ⟨readings, ?_, hreadAll, hmethods, htokenLines⟩
      rw [hdescriptors, List.filter_cons_of_neg (by simp [hskipped])]
    · refine ⟨reading :: readings, ?_, .cons hreads hreadAll, ?_, ?_⟩
      · rw [List.map_cons, hdescriptors, List.filter_cons_of_pos hread]
      · rw [hmethods, hadds.methods, List.flatMap_cons, List.append_assoc]
      · rw [htokenLines, hadds.tokenLines, List.flatMap_cons, List.foldl_append]

/-- How a file was decoded: the table of new tokens, the readings of its modules, and the source
files in the end. -/
structure MadeOf (options : DecodeOptions) (image : ByteArray) (info : DebugInfo)
    (library : SourceLibrary) (remap : TokenRemap) (readings : List ModuleReading)
    (session : SourceSession) : Prop where
  ofImage : Container.ofImage image = .ok library.container
  ofContainer : (SourceLibrary.ofContainer library.container).run' .empty = .ok library
  newTokens : if options.applyTokenRemap then tokenRemap options.keepNames image = .ok remap
    else remap = .identity
  descriptors : readings.map ModuleReading.descriptor
    = info.modules.filter ModuleDescriptor.isRead
  readAll : ModuleReading.ReadAll library options.keepNames ⟨.empty, .empty⟩ readings session
  methods : ∃ renamed, (readings.flatMap ModuleReading.lined).mapM remap.apply = .ok renamed ∧
    info.methods.toList = Method.sort renamed
  tokenLines : info.tokenLines
    = (readings.flatMap ModuleReading.resolved).foldl TokenLines.add ∅
  sources : info.sources = session.table.files

/-- A file that is decoded is made of the readings of its modules. -/
theorem exists_madeOf {options : DecodeOptions} {image : ByteArray} {info : DebugInfo}
    (h : decodeWith options image = .ok info) :
    ∃ library remap readings session, MadeOf options image info library remap readings session := by
  obtain ⟨container, library, debug, findings, found⟩ := exists_found h
  have paged : container.Paged := Container.paged_of_ofImage found.ofImage
  obtain rfl := SourceLibrary.container_of_ofContainer paged found.ofContainer
  obtain ⟨readings, hdescriptors, hreadAll, hmethods, htokenLines⟩ :=
    exists_readings paged debug.modules found.decodeModules
  have hremap : ∀ remap, (decodeRemap library.container debug options).run' .empty = .ok remap →
      if options.applyTokenRemap then tokenRemap options.keepNames image = .ok remap
      else remap = .identity := by
    obtain ⟨keepNames, applyTokenRemap⟩ := options
    intro remap hremap
    cases applyTokenRemap with
    | true =>
      rw [if_pos rfl, found.tokenRemap_eq]
      exact hremap
    | false =>
      rw [if_neg Bool.false_ne_true]
      unfold decodeRemap at hremap
      split at hremap <;> cases hremap <;> rfl
  rw [found.decodeWith_eq options.applyTokenRemap] at h
  obtain ⟨remap, hdecoded, h⟩ := bind_eq_ok_iff.mp h
  obtain ⟨renamed, sourceServer, hrenamed, -, rfl⟩ := finish_eq_ok_iff.mp h
  have hlined : findings.methods.toList = readings.flatMap ModuleReading.lined := hmethods
  exact ⟨library, remap, readings, findings.sources, found.ofImage, found.ofContainer,
    hremap remap hdecoded, hdescriptors, hreadAll, ⟨renamed, hlined ▸ hrenamed, rfl⟩, htokenLines,
    rfl⟩

end DebugInfo

end ManagedPdb
