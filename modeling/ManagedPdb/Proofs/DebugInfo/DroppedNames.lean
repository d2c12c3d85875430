import ManagedPdb.Proofs.DebugInfo.Readings
import ManagedPdb.Proofs.DebugInfo.Relabelling
import ManagedPdb.Proofs.Symbol.DroppedNames

/-!
# Decoding without names

The same file is decoded twice, with the names of methods and object files and without.  Both runs
go through the same steps: without names, the same bytes are passed over, and names decide nothing.
So the results are the same but for the names, and only a name that cannot be read makes the first
run fail alone (`DebugInfo.decodeWith_withoutNames`).
-/

namespace ManagedPdb

/-! ### Modules without object names -/

namespace ModuleDescriptor

/-- The descriptor as it is when names are dropped. -/
def withoutObjectName (descriptor : ModuleDescriptor) : ModuleDescriptor :=
  { descriptor with objectName := none }

/-- A descriptor up to the name of the object file. -/
def readFields : Reader ModuleDescriptor := do
  let _opened ← Reader.uint32
  let contribution ← SectionContribution.read
  let flags ← Reader.uint16
  let streamField ← Reader.uint16
  let symbolsSize ← Reader.uint32
  let oldLinesSize ← Reader.uint32
  let linesSize ← Reader.uint32
  let fileCount ← Reader.uint16
  let _padding ← Reader.uint16
  let _fileNameOffsets ← Reader.uint32
  let sourceNameId ← Reader.uint32
  let compilerNameId ← Reader.uint32
  let name ← Reader.terminatedString
  return { contribution, flags, streamField, symbolsSize, oldLinesSize, linesSize, fileCount,
           sourceNameId, compilerNameId, name, objectName := none }

def readObjectName (keepNames : Bool) : Reader (Option String) :=
  if keepNames then some <$> Reader.terminatedString
  else do
    Reader.skipTerminated
    pure none

/-- A descriptor is its fields, the name of the object file and padding. -/
theorem read_eq (keepNames : Bool) :
    read keepNames = (do
      let descriptor ← readFields
      let objectName ← readObjectName keepNames
      Reader.align 4
      return { descriptor with objectName }) := by
  cases keepNames with
  | true => simp only [read, readFields, readObjectName, if_true, bind_assoc, pure_bind]
  | false =>
    simp only [read, readFields, readObjectName, Bool.false_eq_true, if_false, bind_assoc,
      pure_bind]

end ModuleDescriptor

/-- The text of bytes is read without moving on. -/
theorem Reader.utf8_cases (bytes : ByteArray) (offset : Nat) (content : ByteArray)
    (position : Nat) :
    utf8 bytes offset content position = .failed (.ofKindAt .invalidString offset) position ∨
      ∃ text, utf8 bytes offset content position = .done text position := by
  unfold utf8
  cases String.fromUTF8? bytes with
  | none => exact .inl rfl
  | some text => exact .inr ⟨text, rfl⟩

/-- Text that cannot be read has no end, or is not well formed. -/
theorem Reader.terminatedString_eq_failed {content : ByteArray} {position stopped : Nat}
    {error : DecodeError} (h : terminatedString content position = .failed error stopped) :
    error = .ofKindAt .unexpectedEnd position ∨ error = .ofKindAt .invalidString position := by
  rcases bind_eq_failed_iff.mp h with hposition | ⟨_, _, hposition, h⟩
  · cases hposition
  cases hposition
  rcases bind_eq_failed_iff.mp h with hbytes | ⟨bytes, middle, hbytes, h⟩
  · left
    unfold terminatedBytes at hbytes
    cases hzero : zeroFrom content position with
    | none =>
      rw [hzero] at hbytes
      cases hbytes
      rfl
    | some stop =>
      rw [hzero] at hbytes
      cases hbytes
  · right
    rcases utf8_cases bytes position content middle with hfailed | ⟨text, hdone⟩
    · rw [hfailed] at h
      cases h
      rfl
    · rw [hdone] at h
      cases h

/-- A skipped text ends where the text that is read does; it need not be well formed. -/
theorem Reader.skipTerminated_sim (content : ByteArray) (position : Nat) :
    OutcomeSim (fun error => ∃ stopped, terminatedString content position = .failed error stopped)
      (fun _ _ => True) (terminatedString content position) (skipTerminated content position) := by
  cases hread : terminatedString content position with
  | failed error stopped => exact .excused _ _ ⟨stopped, rfl⟩
  | done text stop =>
    obtain ⟨_, _, hposition, h⟩ := bind_eq_done_iff.mp hread
    cases hposition
    obtain ⟨bytes, middle, hbytes, h⟩ := bind_eq_done_iff.mp h
    have hskip : skipTerminated content position = .done () middle :=
      bind_eq_done_iff.mpr ⟨bytes, middle, hbytes, rfl⟩
    rcases utf8_cases bytes position content middle with hfailed | ⟨_, hdone⟩
    · rw [hfailed] at h
      cases h
    · rw [hdone] at h
      cases h
      rw [hskip]
      exact .done _ trivial

namespace DebugStream

def withoutNames (debug : DebugStream) : DebugStream :=
  { debug with modules := debug.modules.map ModuleDescriptor.withoutObjectName }

/-- The next descriptor, put behind the others. -/
def readModule (keepNames : Bool) (modules : Array ModuleDescriptor) :
    Reader (Array ModuleDescriptor) := do
  return modules.push (← ModuleDescriptor.read keepNames)

/-- The name of an object file in the module list cannot be read, and that is the error: the
descriptors in front are read, and so are the fields in front of the name. -/
def NameFault (content : ByteArray) (error : DecodeError) : Prop :=
  ∃ header start modules position fields after stopped,
    DebugStreamHeader.read content 0 = .done header start ∧
    Reader.Reaches (start + header.moduleListSize.toNat) (readModule true) content #[] start modules
      position ∧
    position < start + header.moduleListSize.toNat ∧
    ModuleDescriptor.readFields content position = .done fields after ∧
    Reader.terminatedString content after = .failed error stopped

variable {Excused : DecodeError → Prop} {content : ByteArray} {position : Nat}

theorem readModule_withoutNames (modules : Array ModuleDescriptor)
    (hname : ∀ error, (∃ fields after stopped,
      ModuleDescriptor.readFields content position = .done fields after ∧
        Reader.terminatedString content after = .failed error stopped) → Excused error) :
    OutcomeSim Excused
      (fun modules modules' => modules' = modules.map ModuleDescriptor.withoutObjectName)
      (readModule true modules content position)
      (readModule false (modules.map ModuleDescriptor.withoutObjectName) content position) := by
  unfold readModule
  have hread : OutcomeSim Excused
      (fun descriptor descriptor' => descriptor' = descriptor.withoutObjectName)
      (ModuleDescriptor.read true content position)
      (ModuleDescriptor.read false content position) := by
    rw [ModuleDescriptor.read_eq, ModuleDescriptor.read_eq]
    refine .bind_same fun fields after hfields => ?_
    have hobject : OutcomeSim Excused (fun _ name => name = none)
        (ModuleDescriptor.readObjectName true content after)
        (ModuleDescriptor.readObjectName false content after) := by
      have hskip : OutcomeSim Excused (fun _ _ => True) (Reader.terminatedString content after)
          (Reader.skipTerminated content after) :=
        (Reader.skipTerminated_sim content after).mono (fun error ⟨stopped, hfailed⟩ =>
          hname error ⟨fields, after, stopped, hfields, hfailed⟩) fun _ _ => id
      exact hskip.bind fun _ _ _ _ _ => .done _ rfl
    refine hobject.bind ?_
    rintro name _ middle - rfl
    exact .bind_same fun _ _ _ => .done _ rfl
  refine hread.bind ?_
  rintro descriptor _ middle - rfl
  exact .done _ (Array.map_push ..).symm

/-- Without names the same is found in the stream, unless the name of an object file cannot be
read. -/
theorem read_withoutNames (content : ByteArray) :
    ResultSim (NameFault content) (fun debug debug' => debug' = debug.withoutNames)
      ((read true).run content) ((read false).run content) := by
  refine OutcomeSim.run (OutcomeSim.bind_same fun header start hheader => ?_)
  have hmodules : OutcomeSim (NameFault content)
      (fun modules modules' => modules' = modules.map ModuleDescriptor.withoutObjectName)
      (readModules header.moduleListSize.toNat true content start)
      (readModules header.moduleListSize.toNat false content start) := by
    refine .bind_same fun _ _ hposition => ?_
    cases hposition
    have hdescriptors : OutcomeSim (NameFault content)
        (fun modules modules' => modules' = modules.map ModuleDescriptor.withoutObjectName)
        (Reader.whileBelow (start + header.moduleListSize.toNat) (readModule true) #[] content
          start)
        (Reader.whileBelow (start + header.moduleListSize.toNat) (readModule false) #[] content
          start) := by
      refine .whileBelow ?_ .start Array.map_empty.symm
      rintro modules _ position reaches hposition rfl
      refine readModule_withoutNames modules ?_
      rintro error ⟨fields, after, stopped, hfields, hread⟩
      exact ⟨header, start, modules, position, fields, after, stopped, hheader, reaches, hposition,
        hfields, hread⟩
    refine hdescriptors.bind ?_
    rintro modules _ middle - rfl
    refine .bind_same fun stop _ _ => ?_
    split
    · exact .failed ..
    · exact .done _ (Array.toList_map ..)
  refine hmodules.bind ?_
  rintro modules _ middle - rfl
  refine .bind_same fun _ _ _ => ?_
  split
  · exact .done _ rfl
  · exact .bind_same fun _ _ _ => .done _ rfl

end DebugStream

/-! ### Streams of modules -/

theorem Method.relabel_none : relabel (fun _ => none) id = withoutName := rfl

def ModuleFindings.withoutNames {σ : Type} (findings : ModuleFindings σ) : ModuleFindings σ :=
  { findings with methods := findings.methods.map Method.withoutName }

namespace ModuleDescriptor

/-- The name of a method in the stream of the module cannot be read. -/
def NameFault (descriptor : ModuleDescriptor) (content : ByteArray) (error : DecodeError) : Prop :=
  descriptor.name ≠ tokenLineModule ∧ descriptor.symbolsSize ≠ 0 ∧
    MethodNameFault descriptor.symbolsEnd content error

variable {σ : Type} {descriptor : ModuleDescriptor}

theorem readTokenLines_withoutNames (load : SourceLoader σ) (findings : ModuleFindings σ) :
    ReaderSim NoExcuse (fun findings findings' => findings' = findings.withoutNames)
      (descriptor.readTokenLines load findings)
      (descriptor.withoutObjectName.readTokenLines load findings.withoutNames) :=
  .bind_same fun _ => .bind_same fun _ => .pure rfl

theorem readMethodsWithLines_withoutNames (load : SourceLoader σ) (findings : ModuleFindings σ)
    {content : ByteArray} (hsymbols : descriptor.symbolsEnd ≤ content.size) :
    OutcomeSim (MethodNameFault descriptor.symbolsEnd content)
      (fun findings findings' => findings' = findings.withoutNames)
      (descriptor.readMethodsWithLines load true findings content 0)
      (descriptor.withoutObjectName.readMethodsWithLines load false findings.withoutNames
        content 0) := by
  refine (readMethods_withoutName hsymbols).bind ?_
  rintro methods _ middle - rfl
  refine .bind_same fun entered next _ => ?_
  have hblocks : ∀ hasColumns stop,
      ReaderSim NoExcuse (fun lines lines' => lines' = id lines)
        (LineTable.readBlocks entered.1 hasColumns stop)
        (LineTable.readBlocks entered.1 hasColumns stop) := fun hasColumns stop content position =>
    (ReaderSim.refl (LineTable.readBlocks entered.1 hasColumns stop) content position).mono
      (fun _ => id) fun _ _ => Eq.symm
  have hlines := readLines_relabel hblocks (fun _ => none) descriptor.linesStart
    descriptor.linesEnd (Method.sort methods)
  rw [← Method.sort_relabel, Method.relabel_none] at hlines
  refine (hlines.outcome content next).bind ?_
  rintro lined _ last - rfl
  refine .done _ ?_
  simp [ModuleFindings.withoutNames]

theorem readStream_withoutNames (load : SourceLoader σ) (findings : ModuleFindings σ)
    {content : ByteArray} (hregions : descriptor.linesEnd ≤ content.size) :
    ResultSim (descriptor.NameFault content)
      (fun findings findings' => findings' = findings.withoutNames)
      ((descriptor.readStream load true findings).run content)
      ((descriptor.withoutObjectName.readStream load false findings.withoutNames).run content) := by
  have hname : descriptor.withoutObjectName.name = descriptor.name := rfl
  have hsize : descriptor.withoutObjectName.symbolsSize = descriptor.symbolsSize := rfl
  have hsymbols : descriptor.symbolsEnd ≤ descriptor.linesEnd :=
    Nat.le_trans (Nat.le_add_right ..) (Nat.le_add_right ..)
  unfold readStream
  rw [hname, hsize]
  by_cases htokenLines : descriptor.name = tokenLineModule
  · rw [if_pos htokenLines, if_pos htokenLines]
    exact ((readTokenLines_withoutNames load findings).outcome content 0).run
  rw [if_neg htokenLines, if_neg htokenLines]
  by_cases hempty : descriptor.symbolsSize = 0
  · rw [if_pos hempty, if_pos hempty]
    exact .ok rfl
  rw [if_neg hempty, if_neg hempty]
  have hread := readMethodsWithLines_withoutNames load findings (Nat.le_trans hsymbols hregions)
  exact (hread.mono (fun _ h => ⟨htokenLines, hempty, h⟩) fun _ _ => id).run

theorem decodeWhole_withoutNames {library : SourceLibrary} (paged : library.container.Paged)
    (findings : ModuleFindings SourceSession) (descriptor : ModuleDescriptor) :
    ResultSim (fun error => ∃ index content, descriptor.stream? = some index ∧
        library.container.content index = .ok content ∧ descriptor.NameFault content error)
      (fun findings findings' => findings' = findings.withoutNames)
      (descriptor.decodeWhole library true findings)
      (descriptor.withoutObjectName.decodeWhole library false findings.withoutNames) := by
  have hstream? : descriptor.withoutObjectName.stream? = descriptor.stream? := rfl
  have hlinesEnd : descriptor.withoutObjectName.linesEnd = descriptor.linesEnd := rfl
  unfold decodeWhole
  rw [hstream?, hlinesEnd]
  cases hstream : descriptor.stream? with
  | none => exact .ok rfl
  | some index =>
    dsimp only
    cases hlisted : library.container.directory.stream index with
    | error error => exact .error error
    | ok stream =>
      rw [ok_bind, ok_bind]
      by_cases hregions : stream.length.toNat < descriptor.linesEnd
      · rw [if_pos hregions, if_pos hregions]
        exact .error _
      rw [if_neg hregions, if_neg hregions]
      cases hcontent : stream.content library.container.file with
      | error error => exact .error error
      | ok content =>
        have hsize : content.size = stream.length.toNat :=
          StreamDescriptor.size_of_read_eq_ok paged hcontent
        have hread : library.container.content index = .ok content :=
          bind_eq_ok_iff.mpr ⟨stream, hlisted, hcontent⟩
        refine (readStream_withoutNames library.load findings (by omega)).mono ?_
        exact fun error hname => ⟨index, content, rfl, hread, hname⟩

end ModuleDescriptor

/-! ### Whole files -/

namespace DebugInfo

/-- The same information without the names of methods and object files. -/
def withoutNames (info : DebugInfo) : DebugInfo :=
  { info with
    modules := info.modules.map ModuleDescriptor.withoutObjectName
    methods := info.methods.map Method.withoutName }

theorem finish_withoutNames (library : SourceLibrary) (debug : DebugStream) (remap : TokenRemap)
    (findings : ModuleFindings SourceSession) :
    finish library debug.withoutNames remap findings.withoutNames
      = withoutNames <$> finish library debug remap findings := by
  have hmethods : findings.withoutNames.methods.toList
      = findings.methods.toList.map Method.withoutName := Array.toList_map ..
  unfold finish remapMethods
  -- neither the new tokens nor the order of methods depend on names
  rw [hmethods, ← Method.relabel_none, remap.mapM_relabel]
  cases findings.methods.toList.mapM remap.apply with
  | error error => rfl
  | ok renamed =>
    cases decodeSourceServer library with
    | error error => rfl
    | ok sourceServer =>
      have hsorted := @Method.sort_relabel (fun _ => none) id renamed
      have hindex := @indexTokens_relabel (fun _ => none) id (Method.sort renamed)
      show Except.ok (ofFindings library debug.withoutNames findings.withoutNames
        (Method.sort (renamed.map (Method.relabel (fun _ => none) id))).toArray sourceServer)
          = .ok (ofFindings library debug findings (Method.sort renamed).toArray
            sourceServer).withoutNames
      rw [hsorted, ofFindings, hindex]
      simp only [withoutNames, ofFindings, List.map_toArray]
      rfl

/-- A name in a file cannot be read, and that is the error.  All that is decoded in front of the
name is decoded. -/
inductive NameFault (image : ByteArray) (error : DecodeError) : Prop
  /-- It is the name of an object file. -/
  | objectName {container : Container} {library : SourceLibrary} {content : ByteArray} :
      Container.ofImage image = .ok container →
      (SourceLibrary.ofContainer container).run' .empty = .ok library →
      container.content debugStreamIndex = .ok content →
      DebugStream.NameFault content error → NameFault image error
  /-- It is the name of a method. -/
  | method {container : Container} {library : SourceLibrary} {debug : DebugStream}
      {before after : List ModuleDescriptor} {descriptor : ModuleDescriptor}
      {findings : ModuleFindings SourceSession} {index : UInt32} {content : ByteArray} :
      Container.ofImage image = .ok container →
      (SourceLibrary.ofContainer container).run' .empty = .ok library →
      (container.stage debugStreamIndex (DebugStream.read true)).run' .empty = .ok debug →
      debug.modules = before ++ descriptor :: after →
      (before.foldlM (ModuleDescriptor.decode library true) (.empty ⟨.empty, .empty⟩)).run' .empty
        = .ok findings →
      descriptor.stream? = some index → container.content index = .ok content →
      descriptor.NameFault content error → NameFault image error

theorem decodeWith_withoutNames_sim (applyTokenRemap : Bool) (image : ByteArray) :
    ResultSim (NameFault image) (fun info info' => info' = info.withoutNames)
      (decodeWith { keepNames := true, applyTokenRemap } image)
      (decodeWith { keepNames := false, applyTokenRemap } image) := by
  unfold decodeWith
  cases himage : Container.ofImage image with
  | error error => exact .error error
  | ok container =>
    have paged := Container.paged_of_ofImage himage
    rw [ok_bind, ok_bind, run'_ofContainer_eq paged, run'_ofContainer_eq paged]
    cases hlibrary : (SourceLibrary.ofContainer container).run' .empty with
    | error error => exact .error error
    | ok library =>
      rw [ok_bind, ok_bind]
      obtain rfl := SourceLibrary.container_of_ofContainer paged hlibrary
      have hread : ResultSim (NameFault image) (fun debug debug' => debug' = debug.withoutNames)
          ((library.container.stage debugStreamIndex (DebugStream.read true)).run' .empty)
          ((library.container.stage debugStreamIndex (DebugStream.read false)).run' .empty) := by
        rw [Container.run'_stage paged, Container.run'_stage paged]
        cases hcontent : library.container.content debugStreamIndex with
        | error error => exact .error error
        | ok content =>
          exact (DebugStream.read_withoutNames content).mono fun error h =>
            .objectName himage hlibrary hcontent h
      refine hread.bind_of ?_
      rintro debug _ hdebug rfl
      refine (ResultSim.refl ((decodeRemap library.container debug
        { keepNames := true, applyTokenRemap }).run' .empty)).bind ?_
      rintro remap _ rfl
      rw [run'_foldlM_decode paged, run'_foldlM_decode paged]
      have hmodules : ResultSim (NameFault image)
          (fun findings findings' => findings' = findings.withoutNames)
          (debug.modules.foldlM (ModuleDescriptor.decodeWhole library true)
            (.empty ⟨.empty, .empty⟩))
          ((debug.modules.map ModuleDescriptor.withoutObjectName).foldlM
            (ModuleDescriptor.decodeWhole library false) (.empty ⟨.empty, .empty⟩)) := by
        refine ResultSim.foldlM_map ModuleDescriptor.withoutObjectName debug.modules ?_
          (by simp [ModuleFindings.withoutNames, ModuleFindings.empty])
        rintro before descriptor after findings _ hmodules hbefore rfl
        refine (ModuleDescriptor.decodeWhole_withoutNames paged findings descriptor).mono ?_
        rintro error ⟨index, content, hstream, hcontent, hname⟩
        -- the name is read only if all modules in front have been decoded
        rw [← run'_foldlM_decode paged] at hbefore
        exact .method himage hlibrary hdebug hmodules hbefore hstream hcontent hname
      refine hmodules.bind ?_
      rintro findings _ rfl
      rw [finish_withoutNames]
      cases finish library debug remap findings with
      | error error => exact .error error
      | ok info => exact .ok rfl

/-- Every error at a name is that of a text that has no end or is not well formed. -/
theorem NameFault.error_eq {image : ByteArray} {error : DecodeError}
    (fault : NameFault image error) : ∃ position, error = .ofKindAt .unexpectedEnd position
      ∨ error = .ofKindAt .invalidString position := by
  cases fault with
  | objectName _ _ _ fault =>
    obtain ⟨_, _, _, _, _, position, _, -, -, -, -, h⟩ := fault
    exact ⟨position, Reader.terminatedString_eq_failed h⟩
  | method _ _ _ _ _ _ _ fault =>
    obtain ⟨-, -, _, _, _, _, _, position, _, -, -, -, -, -, -, h⟩ := fault
    exact ⟨position, Reader.terminatedString_eq_failed h⟩

/-- Dropping names changes nothing but names.  Where a file is decoded with names, it is decoded
without them, and the names are all that is missing.  Where it is decoded without names alone, a
name is to blame: that of an object file or of a method cannot be read, because it has no end or is
not well formed, and that is the error. -/
theorem decodeWith_withoutNames (applyTokenRemap : Bool) (image : ByteArray) :
    (∀ info, decodeWith { keepNames := true, applyTokenRemap } image = .ok info →
      decodeWith { keepNames := false, applyTokenRemap } image = .ok info.withoutNames) ∧
    ∀ info error, decodeWith { keepNames := false, applyTokenRemap } image = .ok info →
      decodeWith { keepNames := true, applyTokenRemap } image = .error error →
        (error.kind = .invalidString ∨ error.kind = .unexpectedEnd) ∧ NameFault image error := by
  have hsim := decodeWith_withoutNames_sim applyTokenRemap image
  constructor
  · intro info hinfo
    rw [hinfo] at hsim
    generalize decodeWith { keepNames := false, applyTokenRemap } image = right at hsim ⊢
    cases hsim with
    | ok related => rw [related]
  · intro info error hinfo herror
    rw [hinfo, herror] at hsim
    cases hsim with
    | excused _ fault =>
      obtain ⟨position, rfl | rfl⟩ := fault.error_eq
      · exact ⟨.inr rfl, fault⟩
      · exact ⟨.inl rfl, fault⟩

/-- A module with one method, whose name is one byte. -/
def namedDraft (name : UInt8) : ImageDraft where
  modules := [{
    ModuleDraft.ofName "a.obj" with
    symbols := some (Bytes.overwrite (SymbolRegion.ofCommands [
      .method 0x06000001 1 16 32 "a", .close 6]).bytes 45 (Bytes.uint8 name)) }]

/-- A name that is well formed, and one that is not. -/
theorem decodeWith_withoutNames_namedDraft :
    (∃ info, decodeWith {} (namedDraft 0x61).image = .ok info ∧
      info.methods.toList.map Method.name = [some "a"] ∧
      decodeWith { keepNames := false } (namedDraft 0x61).image = .ok info.withoutNames) ∧
    ∃ info error, decodeWith { keepNames := false } (namedDraft 0xff).image = .ok info ∧
      decodeWith {} (namedDraft 0xff).image = .error error ∧
      error = .ofKindAt .invalidString 45 ∧ NameFault (namedDraft 0xff).image error := by
  have writable : (namedDraft 0x61).Writable [] :=
    .of_modules rfl rfl rfl rfl nofun (by decide +kernel) (by decide +kernel) (by decide +kernel)
      (by decide +kernel) (by decide +kernel)
  have writable' : (namedDraft 0xff).Writable [] :=
    .of_modules rfl rfl rfl rfl nofun (by decide +kernel) (by decide +kernel) (by decide +kernel)
      (by decide +kernel) (by decide +kernel)
  constructor
  · have hnames : ((namedDraft 0x61).decoded []).toOption.map
        (fun info => info.methods.toList.map Method.name) = some [some "a"] := by
      unfold ImageDraft.decoded ImageDraft.readModules ModuleDraft.readWith
        ModuleDescriptor.readStream ModuleDescriptor.readMethodsWithLines remapMethods
      simp only [Method.sort_eq_insertSort]
      decide +kernel
    rw [← decode_image writable] at hnames
    cases hinfo : decode (namedDraft 0x61).image with
    | error error =>
      rw [hinfo] at hnames
      cases hnames
    | ok info =>
      rw [hinfo] at hnames
      exact ⟨info, hinfo, Option.some.inj hnames,
        (decodeWith_withoutNames true (namedDraft 0x61).image).1 info hinfo⟩
  · have hdropped : (ofStreams { keepNames := false } (namedDraft 0xff).streams).toOption.map
        (fun info => info.methods.toList.map Method.name) = some [none] := by
      unfold ofStreams
      rw [writable'.ofStreams_streams, ok_bind]
      unfold StreamLibrary.decodeModule ModuleDescriptor.readStream
        ModuleDescriptor.readMethodsWithLines remapMethods
      simp only [Method.sort_eq_insertSort, writable'.sourceServer_eq, ok_bind]
      decide +kernel
    have hkept : ((namedDraft 0xff).decoded []).map (fun _ => ())
        = .error (.ofKindAt .invalidString 45) := by
      unfold ImageDraft.decoded ImageDraft.readModules ModuleDraft.readWith
        ModuleDescriptor.readStream ModuleDescriptor.readMethodsWithLines remapMethods
      simp only [Method.sort_eq_insertSort]
      decide +kernel
    rw [← decodeWith_image writable'.fits] at hdropped
    rw [← decode_image writable'] at hkept
    cases hinfo : decodeWith { keepNames := false } (namedDraft 0xff).image with
    | error error =>
      rw [hinfo] at hdropped
      cases hdropped
    | ok info =>
      cases herror : decode (namedDraft 0xff).image with
      | ok info =>
        rw [herror] at hkept
        cases hkept
      | error error =>
        rw [herror] at hkept
        exact ⟨info, error, rfl, herror, Except.error.inj hkept,
          ((decodeWith_withoutNames true (namedDraft 0xff).image).2 info error hinfo herror).2⟩

end DebugInfo

end ManagedPdb
