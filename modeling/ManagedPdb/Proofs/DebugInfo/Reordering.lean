import ManagedPdb.Proofs.DebugInfo.Rereading

/-!
# Files with reordered modules

Two files have the same streams, but the debug information stream lists the modules in another order
(`Reordered`).  Unless that stream is read as something else as well (`DebugStreamApart`), both
files have the same library of source files and the same table of new tokens, and one can be decoded
if and only if the other can (`DebugInfo.exists_decodeWith_iff`).
-/

namespace ManagedPdb

/-- What the info stream of a container says. -/
def Container.infoStream (container : Container) : Except DecodeError InfoStream := do
  InfoStream.read.run (← container.content infoStreamIndex)

/-- What the debug information stream of a container says. -/
def Container.debugStream (container : Container) (keepNames : Bool) :
    Except DecodeError DebugStream := do
  (DebugStream.read keepNames).run (← container.content debugStreamIndex)

/-- The streams of both containers have the same contents but for the debug information stream, and
these two say the same but for the order of the modules. -/
structure Reordered (keepNames : Bool) (container container' : Container)
    (debug debug' : DebugStream) : Prop where
  streams : ∀ index, index ≠ debugStreamIndex → ∀ content,
    container'.content index = .ok content ↔ container.content index = .ok content
  debugStream : container.debugStream keepNames = .ok debug
  debugStream' : container'.debugStream keepNames = .ok debug'
  modules : debug.modules.Perm debug'.modules
  others : debug' = { debug with modules := debug'.modules }

/-- The debug information stream is not read as something else, too: it is not the name table, not
the table of new tokens if this is applied, belongs to no module but for empty ones, and is not
about a source file to which a module refers.  It may be the source server script. -/
structure DebugStreamApart (options : DecodeOptions) (container : Container) (debug : DebugStream) :
    Prop where
  nameTable : ∀ info, container.infoStream = .ok info →
    info.stream? "/NAMES" ≠ some debugStreamIndex
  tokenRemap : options.applyTokenRemap = true → debug.tokenRemapStream ≠ some debugStreamIndex
  modules : ∀ descriptor ∈ debug.modules, descriptor.stream? = some debugStreamIndex →
    descriptor.isRead = false ∧ descriptor.linesEnd = 0
  sources : ∀ library, (SourceLibrary.ofContainer container).run' .empty = .ok library →
    ∀ descriptor ∈ debug.modules, ∀ record, descriptor.HasRecord container record →
      ∀ name, library.nameOf? record = some name →
        library.info.stream? (sourceStreamName name) ≠ some debugStreamIndex

variable {keepNames : Bool} {options : DecodeOptions} {container container' : Container}
  {debug debug' : DebugStream}

theorem Container.content_eq_iff_bind {α : Type} {container container' : Container}
    {index : UInt32}
    (same : ∀ content,
      container'.content index = .ok content ↔ container.content index = .ok content)
    (next : ByteArray → Except DecodeError α) (value : α) :
    (container'.content index >>= next) = .ok value ↔
      (container.content index >>= next) = .ok value := by
  simp only [bind_eq_ok_iff, same]

namespace Reordered

theorem symm (reordered : Reordered keepNames container container' debug debug') :
    Reordered keepNames container' container debug' debug where
  streams index hindex content := (reordered.streams index hindex content).symm
  debugStream := reordered.debugStream'
  debugStream' := reordered.debugStream
  modules := reordered.modules.symm
  others := by rw [reordered.others]

theorem tokenRemapStream (reordered : Reordered keepNames container container' debug debug') :
    debug'.tokenRemapStream = debug.tokenRemapStream := by
  rw [reordered.others]

/-- A stream that can be read in one container can be read in the other. -/
theorem exists_content' (reordered : Reordered keepNames container container' debug debug')
    {index : UInt32} {content : ByteArray} (h : container.content index = .ok content) :
    ∃ content', container'.content index = .ok content' := by
  by_cases hindex : index = debugStreamIndex
  · obtain ⟨content', hcontent', -⟩ := bind_eq_ok_iff.mp reordered.debugStream'
    exact ⟨content', hindex ▸ hcontent'⟩
  · exact ⟨content, (reordered.streams index hindex content).mpr h⟩

/-- The streams of the modules that are read are the same. -/
theorem sameStream (reordered : Reordered keepNames container container' debug debug')
    (apart : DebugStreamApart options container debug) {descriptor : ModuleDescriptor}
    (member : descriptor ∈ debug.modules) (isRead : descriptor.isRead = true) :
    descriptor.SameStream container container' := by
  intro index hstream
  refine reordered.streams index ?_
  rintro rfl
  rw [(apart.modules descriptor member hstream).1] at isRead
  cases isRead

end Reordered

/-! ### The source files and the table of new tokens -/

namespace SourceLibrary

/-- The library is what the info stream and the name table say. -/
theorem ofContainer_eq_ok_iff (paged : container.Paged) {library : SourceLibrary} :
    (SourceLibrary.ofContainer container).run' .empty = .ok library ↔
      library.container = container ∧
      container.infoStream = .ok library.info ∧
      ∃ index, library.info.stream? "/NAMES" = some index ∧
        (do NameTable.read.run (← container.content index)) = .ok library.names := by
  unfold SourceLibrary.ofContainer
  rw [Staging.Steady.run'_bind (fun info _ => ?_) .empty, Container.run'_stage paged,
    bind_eq_ok_iff]
  · constructor
    · rintro ⟨info, hinfo, h⟩
      cases hstream : info.stream? "/NAMES" with
      | none =>
        rw [hstream] at h
        cases h
      | some index =>
        simp only [hstream] at h
        rw [Staging.Steady.run'_bind (fun names _ => .pure _) .empty,
          Container.run'_stage paged] at h
        obtain ⟨names, hnames, h⟩ := bind_eq_ok_iff.mp h
        cases h
        exact ⟨rfl, hinfo, index, hstream, hnames⟩
    · rintro ⟨rfl, hinfo, index, hstream, hnames⟩
      refine ⟨library.info, hinfo, ?_⟩
      simp only [hstream]
      rw [Staging.Steady.run'_bind (fun names _ => .pure _) .empty, Container.run'_stage paged]
      exact bind_eq_ok_iff.mpr ⟨library.names, hnames, rfl⟩
  · cases info.stream? "/NAMES" with
    | none => exact .lift (.error _)
    | some index => exact (Staging.Steady.stage_index paged _ _).bind fun names => .pure _

end SourceLibrary

namespace Reordered

/-- Both containers have the same library, each with its own streams. -/
theorem ofContainer_eq_ok_iff (reordered : Reordered keepNames container container' debug debug')
    (apart : DebugStreamApart options container debug) (paged : container.Paged)
    (paged' : container'.Paged) (info : InfoStream) (names : NameTable) :
    (SourceLibrary.ofContainer container').run' .empty = .ok ⟨container', info, names⟩ ↔
      (SourceLibrary.ofContainer container).run' .empty = .ok ⟨container, info, names⟩ := by
  have hinfo : container'.infoStream = .ok info ↔ container.infoStream = .ok info :=
    Container.content_eq_iff_bind (reordered.streams _ (by decide)) _ _
  rw [SourceLibrary.ofContainer_eq_ok_iff paged, SourceLibrary.ofContainer_eq_ok_iff paged', hinfo]
  refine and_congr (iff_of_true rfl rfl) (and_congr_right fun hread => exists_congr fun index =>
    and_congr_right fun hindex => Container.content_eq_iff_bind (reordered.streams index ?_) _ _)
  rintro rfl
  exact apart.nameTable info hread hindex

theorem apart (reordered : Reordered keepNames container container' debug debug')
    (apart : DebugStreamApart options container debug) (paged : container.Paged)
    (paged' : container'.Paged) : DebugStreamApart options container' debug' where
  nameTable info hinfo := apart.nameTable info
    ((Container.content_eq_iff_bind (reordered.streams _ (by decide)) _ _).mp hinfo)
  tokenRemap := reordered.tokenRemapStream ▸ apart.tokenRemap
  modules descriptor member := apart.modules descriptor (reordered.modules.mem_iff.mpr member)
  sources := by
    intro library' h' descriptor member' record hasRecord name hname
    obtain ⟨rfl, -⟩ := (SourceLibrary.ofContainer_eq_ok_iff paged').mp h'
    have member := reordered.modules.mem_iff.mpr member'
    have h := (reordered.ofContainer_eq_ok_iff apart paged paged' _ _).mp h'
    exact apart.sources _ h descriptor member record
      (hasRecord.of_sameStream (reordered.sameStream apart member)) name hname

/-- Both containers have libraries that say the same about the modules. -/
theorem library (reordered : Reordered keepNames container container' debug debug')
    (apart : DebugStreamApart options container debug) (paged : container.Paged)
    (paged' : container'.Paged) {library : SourceLibrary}
    (h : (SourceLibrary.ofContainer container).run' .empty = .ok library) :
    ∃ library', library'.container = container' ∧
      (SourceLibrary.ofContainer container').run' .empty = .ok library' ∧
      library.Alike library' ∧ ∀ descriptor ∈ debug.modules,
        descriptor.SameModule library library' := by
  obtain ⟨rfl, -⟩ := (SourceLibrary.ofContainer_eq_ok_iff paged).mp h
  refine ⟨{ library with container := container' }, rfl,
    (reordered.ofContainer_eq_ok_iff apart paged paged' _ _).mpr h, ⟨rfl, rfl⟩, ?_⟩
  intro descriptor member
  constructor
  case stream => exact reordered.sameStream apart member
  case sources =>
    intro record hasRecord name hname index hstream
    refine reordered.streams index ?_
    rintro rfl
    exact apart.sources library h descriptor member record hasRecord name hname hstream
  case regions =>
    intro _ index hstream content hcontent hregions
    by_cases hindex : index = debugStreamIndex
    · obtain ⟨content', hcontent'⟩ := reordered.exists_content' hcontent
      have hempty := (apart.modules descriptor member (hindex ▸ hstream)).2
      exact ⟨content', hcontent', by omega⟩
    · exact ⟨content, (reordered.streams index hindex content).mpr hcontent, hregions⟩

/-- Both containers have the same table of new tokens. -/
theorem decodeRemap_eq_ok_iff (reordered : Reordered keepNames container container' debug debug')
    (apart : DebugStreamApart options container debug) (paged : container.Paged)
    (paged' : container'.Paged) (remap : TokenRemap) :
    (DebugInfo.decodeRemap container' debug' options).run' .empty = .ok remap ↔
      (DebugInfo.decodeRemap container debug options).run' .empty = .ok remap := by
  unfold DebugInfo.decodeRemap
  rw [reordered.tokenRemapStream]
  cases hstream : debug.tokenRemapStream with
  | none => exact Iff.rfl
  | some index =>
    dsimp only
    by_cases hoption : options.applyTokenRemap
    · rw [if_pos hoption, if_pos hoption, Container.run'_stage paged, Container.run'_stage paged']
      refine Container.content_eq_iff_bind (reordered.streams index ?_) _ _
      rintro rfl
      exact apart.tokenRemap hoption hstream
    · rw [if_neg hoption, if_neg hoption]

end Reordered

namespace DebugInfo

/-- The script can be read in both, even if it is the debug information stream. -/
theorem exists_decodeSourceServer {library library' : SourceLibrary}
    (reordered : Reordered keepNames library.container library'.container debug debug')
    (alike : library.Alike library') {script : String}
    (h : decodeSourceServer library = .ok script) :
    ∃ script', decodeSourceServer library' = .ok script' := by
  unfold decodeSourceServer at h ⊢
  rw [alike.info]
  cases hstream : library.info.stream? "SRCSRV" with
  | none => exact ⟨_, rfl⟩
  | some index =>
    rw [hstream] at h
    obtain ⟨content, hcontent, -⟩ := bind_eq_ok_iff.mp h
    obtain ⟨content', hcontent'⟩ := reordered.exists_content' hcontent
    exact ⟨_, bind_eq_ok_iff.mpr ⟨content', hcontent', rfl⟩⟩

end DebugInfo

/-! ### The methods -/

namespace ModuleReading

variable {library library' : SourceLibrary} {sources last sources' last' : SourceSession}
  {readings readings' : List ModuleReading}

/-- Readings of the same modules in another order can be put in order. -/
theorem ReadAll.exists_again (readAll : ReadAll library keepNames sources readings last)
    (readAll' : ReadAll library' keepNames sources' readings' last')
    (perm : (readings.map ModuleReading.descriptor).Perm (readings'.map ModuleReading.descriptor))
    (sameStreams : ∀ reading ∈ readings,
      reading.descriptor.SameStream library.container library'.container) :
    ∃ order, readings.Perm order ∧ List.Forall₂ (fun reading reading' =>
      reading ∈ readings ∧ reading' ∈ readings' ∧ reading.Again reading') order readings' := by
  have hpairs : List.Forall₂ (fun (reading : ModuleReading) descriptor =>
      reading.descriptor = descriptor) readings (readings.map ModuleReading.descriptor) := by
    rw [List.forall₂_map_right_iff, List.forall₂_same]
    exact fun _ _ => rfl
  have hcomp : Relation.Comp (List.Forall₂ fun (reading : ModuleReading) descriptor =>
      reading.descriptor = descriptor) List.Perm readings
      (readings'.map ModuleReading.descriptor) := ⟨_, hpairs, perm⟩
  rw [List.forall₂_comp_perm_eq_perm_comp_forall₂] at hcomp
  obtain ⟨order, horder, hsame⟩ := hcomp
  rw [List.forall₂_map_right_iff] at hsame
  refine ⟨order, horder, ?_⟩
  rw [List.forall₂_iff_zip] at hsame ⊢
  refine ⟨hsame.1, fun {reading reading'} member => ?_⟩
  obtain ⟨hreading, hreading'⟩ := List.of_mem_zip member
  replace hreading := horder.mem_iff.mpr hreading
  obtain ⟨_, _, reads⟩ := readAll.exists_reads hreading
  obtain ⟨_, _, reads'⟩ := readAll'.exists_reads hreading'
  exact ⟨hreading, hreading',
    reads.again reads' (hsame.2 member).symm (sameStreams reading hreading)⟩

end ModuleReading

namespace TokenRemap

variable {remap : TokenRemap} {methods renamed : List Method}

/-- The method with its new tokens, or as it is if it has none. -/
def applied (remap : TokenRemap) (method : Method) : Method :=
  match remap.apply method with
  | .ok changed => changed
  | .error _ => method

theorem applied_eq {method changed : Method} (h : remap.apply method = .ok changed) :
    remap.applied method = changed := by
  rw [applied, h]

/-- Methods get their new tokens if each of them has some. -/
theorem mapM_apply_eq_ok_iff : methods.mapM remap.apply = .ok renamed ↔
    (∀ method ∈ methods, ∃ changed, remap.apply method = .ok changed) ∧
      renamed = methods.map remap.applied := by
  constructor
  · intro h
    have hall := forall₂_of_mapM_eq_ok h
    refine ⟨fun method member => ?_, ?_⟩
    · obtain ⟨changed, -, happly⟩ := exists_of_mem_of_forall₂ hall member
      exact ⟨changed, happly⟩
    · have heq := hall.imp fun _ _ => applied_eq
      rw [← List.forall₂_map_left_iff, List.forall₂_eq_eq_eq] at heq
      exact heq.symm
  · rintro ⟨hall, rfl⟩
    cases h : methods.mapM remap.apply with
    | error error =>
      obtain ⟨method, member, herror⟩ := exists_of_mapM_eq_error h
      obtain ⟨changed, hchanged⟩ := hall method member
      rw [herror] at hchanged
      cases hchanged
    | ok changed =>
      have heq := (forall₂_of_mapM_eq_ok h).imp fun _ _ => applied_eq
      rw [← List.forall₂_map_left_iff, List.forall₂_eq_eq_eq] at heq
      rw [heq]

end TokenRemap

namespace DebugInfo

variable {image image' : ByteArray} {info : DebugInfo}

theorem run'_debugStream (paged : container.Paged) (keepNames : Bool) :
    (container.stage debugStreamIndex (DebugStream.read keepNames)).run' .empty
      = container.debugStream keepNames :=
  Container.run'_stage paged _ _ _

/-- The debug information stream is the one that is found. -/
theorem Found.debugStream_eq {container₀ : Container} {library : SourceLibrary}
    {debug₀ : DebugStream} {findings : ModuleFindings SourceSession}
    (found : Found keepNames image container₀ library debug₀ findings)
    (hcontainer : Container.ofImage image = .ok container)
    (hdebug : container.debugStream keepNames = .ok debug) :
    container = container₀ ∧ debug = debug₀ := by
  obtain rfl : container = container₀ := Except.ok.inj (hcontainer.symm.trans found.ofImage)
  have hread := found.readDebug
  rw [run'_debugStream (Container.paged_of_ofImage hcontainer), hdebug] at hread
  exact ⟨rfl, Except.ok.inj hread⟩

/-- What is found in one file can be found in the other. -/
theorem Found.reordered {library : SourceLibrary} {findings : ModuleFindings SourceSession}
    (found : Found keepNames image container library debug findings)
    (hcontainer' : Container.ofImage image' = .ok container')
    (reordered : Reordered keepNames container container' debug debug')
    (apart : DebugStreamApart options container debug) :
    ∃ library' findings', library'.container = container' ∧ library.Alike library' ∧
      Found keepNames image' container' library' debug' findings' := by
  have paged : container.Paged := Container.paged_of_ofImage found.ofImage
  have paged' : container'.Paged := Container.paged_of_ofImage hcontainer'
  obtain ⟨library', rfl, hlibrary', alike, sameModules⟩ :=
    reordered.library apart paged paged' found.ofContainer
  obtain rfl := SourceLibrary.container_of_ofContainer paged found.ofContainer
  have hmodules := found.decodeModules
  rw [run'_foldlM_decode paged] at hmodules
  obtain ⟨findings', hmodules'⟩ := ModuleDescriptor.exists_foldlM_decodeWhole paged paged' alike
    reordered.modules sameModules (SourceLibrary.covers_empty library) hmodules
    (.empty ⟨.empty, .empty⟩)
  refine ⟨library', findings', rfl, alike, hcontainer', hlibrary', ?_, ?_⟩
  · rw [run'_debugStream paged', reordered.debugStream']
  · rw [run'_foldlM_decode paged', hmodules']

/-- The methods of both files get new tokens if those of one do. -/
theorem Found.exists_renamed {library library' : SourceLibrary}
    {findings findings' : ModuleFindings SourceSession}
    (found : Found keepNames image container library debug findings)
    (found' : Found keepNames image' container' library' debug' findings')
    (reordered : Reordered keepNames container container' debug debug')
    (apart : DebugStreamApart options container debug) {remap : TokenRemap} {renamed : List Method}
    (h : findings.methods.toList.mapM remap.apply = .ok renamed) :
    ∃ renamed', findings'.methods.toList.mapM remap.apply = .ok renamed' := by
  have paged : container.Paged := Container.paged_of_ofImage found.ofImage
  have paged' : container'.Paged := Container.paged_of_ofImage found'.ofImage
  obtain rfl := SourceLibrary.container_of_ofContainer paged found.ofContainer
  obtain rfl := SourceLibrary.container_of_ofContainer paged' found'.ofContainer
  obtain ⟨readings, hdescriptors, readAll, hmethods, -⟩ :=
    exists_readings paged debug.modules found.decodeModules
  obtain ⟨readings', hdescriptors', readAll', hmethods', -⟩ :=
    exists_readings paged' debug'.modules found'.decodeModules
  have hperm : (readings.map ModuleReading.descriptor).Perm
      (readings'.map ModuleReading.descriptor) := by
    rw [hdescriptors, hdescriptors']
    exact reordered.modules.filter _
  obtain ⟨order, -, hagain⟩ := readAll.exists_again readAll' hperm fun reading member => by
    have hmember := List.mem_map_of_mem (f := ModuleReading.descriptor) member
    rw [hdescriptors] at hmember
    obtain ⟨hmember, hisRead⟩ := List.mem_filter.mp hmember
    exact reordered.sameStream apart hmember hisRead
  refine ⟨_, TokenRemap.mapM_apply_eq_ok_iff.mpr ⟨fun method' member' => ?_, rfl⟩⟩
  rw [hmethods'] at member'
  obtain ⟨reading', hreading', member'⟩ := List.mem_flatMap.mp member'
  obtain ⟨reading, -, hreading, -, again⟩ := exists_of_mem_of_forall₂ hagain.flip hreading'
  rw [again.lined] at member'
  obtain ⟨method, member, rfl⟩ := List.mem_map.mp member'
  have hmember : method ∈ findings.methods.toList := by
    rw [hmethods]
    exact List.mem_flatMap.mpr ⟨reading, hreading, member⟩
  obtain ⟨changed, happly⟩ := (TokenRemap.mapM_apply_eq_ok_iff.mp h).1 method hmember
  rw [TokenRemap.apply_relabel, happly]
  exact ⟨_, rfl⟩

/-- A file with reordered modules can be decoded if the other one can. -/
theorem exists_decodeWith (hcontainer : Container.ofImage image = .ok container)
    (hcontainer' : Container.ofImage image' = .ok container')
    (reordered : Reordered options.keepNames container container' debug debug')
    (apart : DebugStreamApart options container debug) (h : decodeWith options image = .ok info) :
    ∃ info', decodeWith options image' = .ok info' := by
  have paged : container.Paged := Container.paged_of_ofImage hcontainer
  have paged' : container'.Paged := Container.paged_of_ofImage hcontainer'
  obtain ⟨_, library, _, findings, found⟩ := exists_found h
  obtain ⟨rfl, rfl⟩ := found.debugStream_eq hcontainer reordered.debugStream
  obtain ⟨library', findings', -, alike, found'⟩ := found.reordered hcontainer' reordered apart
  rw [found.decodeWith_eq options.applyTokenRemap] at h
  obtain ⟨remap, hremap, h⟩ := bind_eq_ok_iff.mp h
  obtain ⟨renamed, script, hrenamed, hscript, -⟩ := finish_eq_ok_iff.mp h
  obtain ⟨renamed', hrenamed'⟩ := found.exists_renamed found' reordered apart hrenamed
  obtain rfl := SourceLibrary.container_of_ofContainer paged found.ofContainer
  obtain rfl := SourceLibrary.container_of_ofContainer paged' found'.ofContainer
  obtain ⟨script', hscript'⟩ := exists_decodeSourceServer reordered alike hscript
  have hremap' := (reordered.decodeRemap_eq_ok_iff apart paged paged' remap).mpr hremap
  have hfinish : finish library' debug' remap findings' = .ok _ := finish_eq_ok_iff.mpr
    ⟨renamed', script', hrenamed', hscript', rfl⟩
  exact ⟨_, (found'.decodeWith_eq options.applyTokenRemap).trans
    (bind_eq_ok_iff.mpr ⟨remap, hremap', hfinish⟩)⟩

/-- Of two files that differ in the order of their modules, both can be decoded or none. -/
theorem exists_decodeWith_iff (hcontainer : Container.ofImage image = .ok container)
    (hcontainer' : Container.ofImage image' = .ok container')
    (reordered : Reordered options.keepNames container container' debug debug')
    (apart : DebugStreamApart options container debug) :
    (∃ info, decodeWith options image = .ok info) ↔
      ∃ info', decodeWith options image' = .ok info' :=
  have apart' := reordered.apart apart (Container.paged_of_ofImage hcontainer)
    (Container.paged_of_ofImage hcontainer')
  ⟨fun ⟨_, h⟩ => exists_decodeWith hcontainer hcontainer' reordered apart h,
    fun ⟨_, h⟩ => exists_decodeWith hcontainer' hcontainer reordered.symm apart' h⟩

end DebugInfo

end ManagedPdb
