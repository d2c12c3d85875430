import ManagedPdb.Proofs.DebugInfo.TokenLines
import ManagedPdb.Proofs.Draft.Relisted

/-!
# The order of modules

Modules share the table of source files and the list of methods, and still their order in a file
does not matter, as long as no two of them have methods with the same place and token and their
checksum records agree: the methods and the imports are the same, with the same source files at
other places (`DebugInfo.decodeWith_reordered`).
-/

namespace ManagedPdb

/-! ### Other places of source files -/

def LineTable.renameFile (rename : SourceRef → SourceRef) (table : LineTable) : LineTable :=
  { table with file := table.file.map rename }

def TokenLine.renameFile (rename : SourceRef → SourceRef) (line : TokenLine) : TokenLine :=
  { line with file := line.file.map rename }

/-- The method with all source files at other places. -/
def Method.renameFiles (rename : SourceRef → SourceRef) : Method → Method :=
  relabel id (List.map (LineTable.renameFile rename))

/-! ### Methods of different modules -/

/-- No method of one module has the place and the new token of a method of the other. -/
def ModuleReading.Apart (remap : TokenRemap) (reading reading' : ModuleReading) : Prop :=
  ∀ lined ∈ reading.lined, ∀ lined' ∈ reading'.lined, ∀ method method',
    remap.apply lined = .ok method → remap.apply lined' = .ok method' →
      ¬ (method.site = method'.site ∧ method.token = method'.token)

theorem Method.apart_inOrder {left right : Method}
    (h : ¬ (left.site = right.site ∧ left.token = right.token)) :
    Sorts.Apart inOrder left right := by
  rintro ⟨hleft, hright⟩
  refine h ⟨?_, ?_⟩
  · rw [inOrder_iff_toNat] at hleft hright
    rw [site, site, Site.mk.injEq, ← UInt16.toNat_inj, ← UInt32.toNat_inj]
    omega
  · rw [inOrder_iff_toNat] at hleft hright
    rw [← UInt32.toNat_inj]
    omega

/-- The methods of all modules in order do not depend on the order of the modules. -/
theorem Method.sort_map_flatMap_perm {remap : TokenRemap} {readings order : List ModuleReading}
    (perm : readings.Perm order) (apart : readings.Pairwise (ModuleReading.Apart remap))
    (applies : ∀ method ∈ readings.flatMap ModuleReading.lined,
      ∃ changed, remap.apply method = .ok changed) :
    sort ((order.flatMap ModuleReading.lined).map remap.applied)
      = sort ((readings.flatMap ModuleReading.lined).map remap.applied) := by
  rw [List.map_flatMap, List.map_flatMap, List.flatMap_def, List.flatMap_def]
  refine (Sorts.mergeSort_flatten_perm sorts_inOrder (perm.map _) ?_).symm
  rw [List.pairwise_map]
  refine apart.imp_of_mem fun {reading reading'} member member' happart => ?_
  intro first hfirst second hsecond
  obtain ⟨lined, hlined, rfl⟩ := List.mem_map.mp hfirst
  obtain ⟨lined', hlined', rfl⟩ := List.mem_map.mp hsecond
  obtain ⟨method, happly⟩ := applies lined (List.mem_flatMap.mpr ⟨reading, member, hlined⟩)
  obtain ⟨method', happly'⟩ := applies lined' (List.mem_flatMap.mpr ⟨reading', member', hlined'⟩)
  rw [TokenRemap.applied_eq happly, TokenRemap.applied_eq happly']
  exact apart_inOrder (happart lined hlined lined' hlined' method method' happly happly')

namespace DebugInfo

/-- The same information with the source files at other places. -/
structure RenamedFrom (rename : SourceRef → SourceRef) (info info' : DebugInfo) : Prop where
  sources : RenamesSources info.source? info'.source? rename
  methods : info'.methods.toList = info.methods.toList.map (Method.renameFiles rename)
  method? : ∀ token, info'.method? token = (info.method? token).map (Method.renameFiles rename)
  usingInfo? : ∀ token, info'.usingInfo? token = info.usingInfo? token
  /-- The token lines of several modules come in the order of these. -/
  tokenLine : (info.modules.filter (·.name == tokenLineModule)).length ≤ 1 → ∀ token,
    info'.tokenLine token = (info.tokenLine token).map (TokenLine.renameFile rename)

end DebugInfo

/-! ### Two readings of one module -/

namespace ModuleReading

/-- The same reading with the source files at other places. -/
structure RenamedFrom (rename : SourceRef → SourceRef) (reading reading' : ModuleReading) :
    Prop where
  descriptor : reading'.descriptor = reading.descriptor
  lined : reading'.lined = reading.lined.map (Method.renameFiles rename)
  tokenLines : ∀ token, (TokenLines.rangesOf reading'.ranges token).map
      (·.resolve reading'.checksums)
    = ((TokenLines.rangesOf reading.ranges token).map (·.resolve reading.checksums)).map
      (TokenLine.renameFile rename)

/-- Two readings of one module, of which the right one finds its files at other places. -/
theorem Again.renamedFrom {library : SourceLibrary} {keepNames : Bool}
    {sources last : SourceSession} {reading reading' : ModuleReading}
    {rename : SourceRef → SourceRef} (again : reading.Again reading')
    (reads : reading.Reads library keepNames sources last)
    (files : ∀ fileId, reading'.checksums.file? fileId
      = (reading.checksums.file? fileId).map rename) : RenamedFrom rename reading reading' where
  descriptor := again.descriptor
  lined := by
    rw [again.lined]
    refine List.map_congr_left fun method member => ?_
    have hlines : method.lines.map (LineTable.refile reading'.checksums)
        = method.lines.map (LineTable.renameFile rename) := by
      refine List.map_congr_left fun table htable => ?_
      rw [LineTable.refile, LineTable.renameFile, files, reads.filesOf method member table htable]
    rw [Method.renameFiles, Method.relabel, hlines, Method.relabel]
  tokenLines := by
    intro token
    rw [again.ranges, List.map_map]
    refine List.map_congr_left fun line _ => ?_
    rw [TokenLine.resolve, files]
    rfl

end ModuleReading

theorem flatMap_eq_of_forall₂ {α β γ : Type} {onItem : α → List γ} {onItem' : β → List γ}
    {items : List α} {items' : List β}
    (h : List.Forall₂ (fun item item' => onItem' item' = onItem item) items items') :
    items'.flatMap onItem' = items.flatMap onItem := by
  induction h with
  | nil => rfl
  | cons hitem _ ih => rw [List.flatMap_cons, List.flatMap_cons, hitem, ih]

theorem TokenRemap.applied_relabel (remap : TokenRemap) {onName : Option String → Option String}
    {onLines : List LineTable → List LineTable} (method : Method) :
    remap.applied (method.relabel onName onLines)
      = (remap.applied method).relabel onName onLines := by
  unfold applied
  rw [apply_relabel]
  cases remap.apply method <;> rfl

namespace DebugInfo

/-! ### Looking up methods -/

section

variable {info info' : DebugInfo} {rename : SourceRef → SourceRef}

/-- The same methods but for the places of source files are looked up alike. -/
theorem method?_of_renamed (indexed : info.Indexed) (indexed' : info'.Indexed)
    (methods : info'.methods.toList = info.methods.toList.map (Method.renameFiles rename))
    (token : UInt32) :
    info'.method? token = (info.method? token).map (Method.renameFiles rename) := by
  rw [method?_eq_getLast? indexed', method?_eq_getLast? indexed, methods, List.filter_map,
    List.getLast?_map]
  rfl

theorem usingInfo?_of_renamed
    (methods : info'.methods.toList = info.methods.toList.map (Method.renameFiles rename))
    (method? : ∀ token, info'.method? token = (info.method? token).map (Method.renameFiles rename))
    (token : UInt32) : info'.usingInfo? token = info.usingInfo? token := by
  have hfollow : ∀ steps method, info'.followForwards (Method.renameFiles rename method) steps
      = info.followForwards method steps := by
    intro steps
    induction steps with
    | zero => exact fun _ => rfl
    | succ steps ih =>
      intro method
      have hforward : (Method.renameFiles rename method).forwardToken = method.forwardToken := rfl
      rw [followForwards, followForwards, hforward]
      cases method.forwardToken with
      | none => rfl
      | some next =>
        dsimp only
        rw [method?, Option.bind_map]
        exact congrArg _ (funext ih)
  have hsize : info'.methods.size = info.methods.size := by
    rw [← Array.length_toList, methods, List.length_map, Array.length_toList]
  rw [usingInfo?, usingInfo?, method?, hsize, Option.bind_map]
  exact congrArg _ (funext fun method => hfollow _ method)

end

/-! ### Two files -/

section

variable {options : DecodeOptions} {image image' : ByteArray} {info info' : DebugInfo}
  {library library' : SourceLibrary} {remap : TokenRemap}
  {readings readings' order : List ModuleReading} {session session' : SourceSession}
  {rename : SourceRef → SourceRef}

/-- The readings of one file are those of the other in some order, with the source files at other
places. -/
theorem MadeOf.exists_order (made : MadeOf options image info library remap readings session)
    (made' : MadeOf options image' info' library' remap readings' session')
    (alike : library.Alike library') (perm : info.modules.Perm info'.modules)
    (sameModules : ∀ descriptor ∈ info.modules, descriptor.SameModule library library')
    (unanimous : library.Unanimous (readings.flatMap ModuleReading.records)) :
    ∃ rename order, RenamesSources info.source? info'.source? rename ∧ readings.Perm order ∧
      List.Forall₂ (ModuleReading.RenamedFrom rename) order readings' := by
  have paged := Container.paged_of_ofImage made.ofImage
  have paged' := Container.paged_of_ofImage made'.ofImage
  obtain ⟨catalogues, -, resolves⟩ := made.readAll.catalogues paged (.empty library)
  obtain ⟨catalogues', -, resolves'⟩ := made'.readAll.catalogues paged' (.empty library')
  rw [List.nil_append] at catalogues catalogues'
  have hperm : (readings.map ModuleReading.descriptor).Perm
      (readings'.map ModuleReading.descriptor) := by
    rw [made.descriptors, made'.descriptors]
    exact perm.filter _
  have hread : ∀ reading ∈ readings, reading.descriptor.isRead = true ∧
      reading.descriptor.SameModule library library' := by
    intro reading member
    have hmember := List.mem_map_of_mem (f := ModuleReading.descriptor) member
    rw [made.descriptors] at hmember
    obtain ⟨hmember, hisRead⟩ := List.mem_filter.mp hmember
    exact ⟨hisRead, sameModules _ hmember⟩
  have sameSources : ∀ record ∈ readings.flatMap ModuleReading.records,
      library.SameSource library' record := by
    intro record member
    obtain ⟨reading, hreading, hrecord⟩ := List.mem_flatMap.mp member
    obtain ⟨_, _, reads⟩ := made.readAll.exists_reads hreading
    obtain ⟨hisRead, same⟩ := hread reading hreading
    exact same.sources record (reads.hasRecord hisRead hrecord)
  obtain ⟨order, horder, hagain⟩ := made.readAll.exists_again made'.readAll hperm
    fun reading member => (hread reading member).2.stream (hread reading member).1
  -- the same records are loaded in both files, in two orders
  have hrecords : readings'.flatMap ModuleReading.records = order.flatMap ModuleReading.records :=
    flatMap_eq_of_forall₂ (hagain.imp fun _ _ again => again.2.2.records)
  have renames : RenamesSources session.table.file? session'.table.file?
      (session.table.renaming session'.table) := by
    refine catalogues.renames catalogues' alike sameSources ?_ unanimous
    rw [hrecords]
    exact horder.flatMap_right _
  refine ⟨_, order, made.source?_eq ▸ made'.source?_eq ▸ renames, horder, hagain.imp ?_⟩
  rintro reading reading' ⟨member, member', again⟩
  obtain ⟨_, _, reads⟩ := made.readAll.exists_reads member
  refine again.renamedFrom reads fun fileId => ?_
  exact (resolves reading member fileId).rename (resolves' reading' member' fileId) alike
    again.records renames fun _ _ _ _ h h' => (catalogues'.ref_eq_iff h h').mpr

theorem MadeOf.methods_renamed (made : MadeOf options image info library remap readings session)
    (made' : MadeOf options image' info' library' remap readings' session')
    (perm : readings.Perm order)
    (renamed : List.Forall₂ (ModuleReading.RenamedFrom rename) order readings')
    (apart : readings.Pairwise (ModuleReading.Apart remap)) :
    info'.methods.toList = info.methods.toList.map (Method.renameFiles rename) := by
  obtain ⟨_, hrenamed, hsorted⟩ := made.methods
  obtain ⟨_, hrenamed', hsorted'⟩ := made'.methods
  obtain ⟨applies, rfl⟩ := TokenRemap.mapM_apply_eq_ok_iff.mp hrenamed
  obtain ⟨-, rfl⟩ := TokenRemap.mapM_apply_eq_ok_iff.mp hrenamed'
  have hlined : readings'.flatMap ModuleReading.lined
      = (order.flatMap ModuleReading.lined).map (Method.renameFiles rename) := by
    rw [List.map_flatMap]
    exact flatMap_eq_of_forall₂ (renamed.imp fun _ _ h => h.lined)
  -- new tokens and places of source files do not meet
  have hcomm : remap.applied ∘ Method.renameFiles rename
      = Method.renameFiles rename ∘ remap.applied := funext remap.applied_relabel
  rw [hsorted', hlined, List.map_map, hcomm, ← List.map_map, Method.renameFiles,
    Method.sort_relabel, Method.sort_map_flatMap_perm perm apart applies, hsorted]

theorem MadeOf.tokenLine_renamed (made : MadeOf options image info library remap readings session)
    (made' : MadeOf options image' info' library' remap readings' session')
    (perm : readings.Perm order)
    (renamed : List.Forall₂ (ModuleReading.RenamedFrom rename) order readings')
    (atMostOne : (info.modules.filter (·.name == tokenLineModule)).length ≤ 1) (token : UInt32) :
    info'.tokenLine token = (info.tokenLine token).map (TokenLine.renameFile rename) := by
  let holds (reading : ModuleReading) : Bool := reading.descriptor.holdsTokenLines
  have hlength : (readings.filter holds).length ≤ 1 := by
    have hmap := congrArg List.length made.accumulatesTokenLines.modules
    rw [List.length_map] at hmap
    rw [hmap]
    refine Nat.le_trans ?_ atMostOne
    simp only [← List.countP_eq_length_filter]
    refine List.countP_mono_left fun descriptor _ hholds => ?_
    exact (Bool.and_eq_true_iff.mp hholds).2
  -- one reading at most comes in one order only
  have hheld : order.filter holds = readings.filter holds := by
    have hperm := perm.filter holds
    generalize readings.filter holds = held at hperm hlength
    match held, hlength with
    | [], _ => exact hperm.symm.eq_nil
    | [reading], _ => exact List.perm_singleton.mp hperm.symm
  have hkept : List.Forall₂ (ModuleReading.RenamedFrom rename) (order.filter holds)
      (readings'.filter holds) :=
    List.rel_filter (fun _ _ h => by simp only [holds, h.descriptor]) renamed
  apply Array.toList_inj.mp
  rw [made'.accumulatesTokenLines.ofToken, Array.toList_map, made.accumulatesTokenLines.ofToken,
    List.map_flatMap]
  rw [hheld] at hkept
  exact flatMap_eq_of_forall₂ (hkept.imp fun _ _ h => h.tokenLines token)

variable {container container' : Container} {debug debug' : DebugStream}

/-- A file that is decoded lists the modules of its debug information stream. -/
theorem modules_of_decodeWith (h : decodeWith options image = .ok info)
    (hcontainer : Container.ofImage image = .ok container)
    (hdebug : container.debugStream options.keepNames = .ok debug) :
    info.modules = debug.modules := by
  obtain ⟨_, _, _, _, found⟩ := exists_found h
  obtain ⟨rfl, rfl⟩ := found.debugStream_eq hcontainer hdebug
  rw [found.decodeWith_eq options.applyTokenRemap] at h
  obtain ⟨_, -, h⟩ := bind_eq_ok_iff.mp h
  obtain ⟨_, _, -, -, rfl⟩ := finish_eq_ok_iff.mp h
  rfl

/-- Both files have the same library and the same table of new tokens. -/
theorem MadeOf.reordered (made : MadeOf options image info library remap readings session)
    {remap' : TokenRemap}
    (made' : MadeOf options image' info' library' remap' readings' session')
    (h : decodeWith options image = .ok info) (h' : decodeWith options image' = .ok info')
    (reordered : Reordered options.keepNames library.container library'.container debug debug')
    (apart : DebugStreamApart options library.container debug) :
    library.Alike library' ∧
      (∀ descriptor ∈ debug.modules, descriptor.SameModule library library') ∧ remap' = remap := by
  have paged : library.container.Paged := Container.paged_of_ofImage made.ofImage
  have paged' : library'.container.Paged := Container.paged_of_ofImage made'.ofImage
  rw [← and_assoc]
  constructor
  · obtain ⟨_, -, hlibrary', same⟩ := reordered.library apart paged paged' made.ofContainer
    rw [made'.ofContainer] at hlibrary'
    cases hlibrary'
    exact same
  · have htokens := made.newTokens
    have htokens' := made'.newTokens
    by_cases hoption : options.applyTokenRemap
    · rw [if_pos hoption] at htokens htokens'
      obtain ⟨_, _, _, _, found⟩ := exists_found h
      obtain ⟨_, _, _, _, found'⟩ := exists_found h'
      obtain ⟨rfl, rfl⟩ := found.debugStream_eq made.ofImage reordered.debugStream
      obtain ⟨rfl, rfl⟩ := found'.debugStream_eq made'.ofImage reordered.debugStream'
      have hoptions : { keepNames := options.keepNames } = options :=
        congrArg (DecodeOptions.mk options.keepNames) hoption.symm
      rw [found.tokenRemap_eq, hoptions] at htokens
      rw [found'.tokenRemap_eq, hoptions, reordered.decodeRemap_eq_ok_iff apart paged paged',
        htokens] at htokens'
      exact (Except.ok.inj htokens').symm
    · rw [if_neg hoption] at htokens htokens'
      rw [htokens', htokens]

/-- No modules share a place and a token if no methods do. -/
theorem MadeOf.pairwise_apart
    (made : MadeOf options image info library remap readings session)
    (distinct : (info.methods.toList.map fun method => (method.site, method.token)).Nodup) :
    readings.Pairwise (ModuleReading.Apart remap) := by
  obtain ⟨_, hrenamed, hsorted⟩ := made.methods
  obtain ⟨-, rfl⟩ := TokenRemap.mapM_apply_eq_ok_iff.mp hrenamed
  rw [hsorted, ((Method.perm_sort _).map _).nodup_iff, List.map_map, List.map_flatMap,
    List.nodup_flatMap] at distinct
  refine distinct.2.imp fun {reading reading'} disjoint => ?_
  intro lined hlined lined' hlined' method method' happly happly' hsame
  have hleft := List.mem_map_of_mem (f := (fun method : Method => (method.site, method.token)) ∘
    remap.applied) hlined
  have hright := List.mem_map_of_mem (f := (fun method : Method => (method.site, method.token)) ∘
    remap.applied) hlined'
  rw [Function.comp_apply, TokenRemap.applied_eq happly] at hleft
  rw [Function.comp_apply, TokenRemap.applied_eq happly', ← hsame.1, ← hsame.2] at hright
  exact disjoint hleft hright

/-- The records of the modules agree if they are all alike. -/
theorem MadeOf.unanimous_of_written {draft : ImageDraft} {names : List String}
    {modules : List (ModuleDraft × Option UInt16)} {remapField : Option UInt16}
    (made : MadeOf options image info library remap readings session)
    (writable : draft.Writable names)
    (holds : library.container.Holds (draft.relisted modules remapField))
    (numbered : modules ⊆ draft.numberedModules)
    (hmodules : ∀ entry ∈ modules, (entry.1.written entry.2).stream? ≠ some debugStreamIndex)
    (listed : info.modules = ImageDraft.writtenModules modules) (kind : UInt8) (bytes : List UInt8)
    (alike : ∀ entry ∈ modules, (entry.1.stream?.bind fun content =>
      ((ChecksumRecord.readAll (entry.1.written entry.2).linesStart
        (entry.1.written entry.2).linesEnd).run content).toOption).all (·.all fun record =>
          record.kind == kind && record.checksum.data.toList == bytes)) :
    library.Unanimous (readings.flatMap ModuleReading.records) := by
  have hall : ∀ record ∈ readings.flatMap ModuleReading.records,
      record.kind = kind ∧ record.checksum.data.toList = bytes := by
    intro record member
    obtain ⟨reading, hreading, hrecord⟩ := List.mem_flatMap.mp member
    obtain ⟨_, _, reads⟩ := made.readAll.exists_reads hreading
    have hdescriptor := List.mem_map_of_mem (f := ModuleReading.descriptor) hreading
    rw [made.descriptors, listed] at hdescriptor
    obtain ⟨entry, hentry, content, hcontent, hrecords⟩ := writable.exists_records holds numbered
      hmodules reads (List.mem_of_mem_filter hdescriptor)
    have hsame := alike entry hentry
    rw [hcontent, Option.bind_some, hrecords] at hsame
    simpa using List.all_eq_true.mp hsame record hrecord
  intro record member record' member' _ _ _
  obtain ⟨hkind, hbytes⟩ := hall record member
  obtain ⟨hkind', hbytes'⟩ := hall record' member'
  refine ⟨hkind.trans hkind'.symm, ByteArray.ext (Array.toList_inj.mp (hbytes.trans hbytes'.symm))⟩

/-- The order of modules does not matter.  Of two files with the same streams but for the order in
which the debug information stream lists the modules, where that stream is read as nothing else,
both can be decoded or none.  If no two modules have methods with one place and one new token, and
all checksum records with one name agree, then both files say the same about methods and imports,
with the same source files at other places, and about token lines if one module at most has some. -/
theorem decodeWith_reordered (hcontainer : Container.ofImage image = .ok container)
    (hcontainer' : Container.ofImage image' = .ok container')
    (reordered : Reordered options.keepNames container container' debug debug')
    (apart : DebugStreamApart options container debug) :
    ((∃ info, decodeWith options image = .ok info) ↔
      ∃ info', decodeWith options image' = .ok info') ∧
    ∀ info info' library remap readings session,
      decodeWith options image = .ok info → decodeWith options image' = .ok info' →
        MadeOf options image info library remap readings session →
          readings.Pairwise (ModuleReading.Apart remap) →
            library.Unanimous (readings.flatMap ModuleReading.records) →
              ∃ rename, RenamedFrom rename info info' := by
  refine ⟨exists_decodeWith_iff hcontainer hcontainer' reordered apart, ?_⟩
  intro info info' library remap readings session h h' made distinct unanimous
  obtain ⟨library', remap', readings', session', made'⟩ := exists_madeOf h'
  obtain rfl : container = library.container := Except.ok.inj (hcontainer.symm.trans made.ofImage)
  obtain rfl : container' = library'.container :=
    Except.ok.inj (hcontainer'.symm.trans made'.ofImage)
  obtain ⟨alike, sameModules, rfl⟩ := made.reordered made' h h' reordered apart
  have hmodules := modules_of_decodeWith h hcontainer reordered.debugStream
  have hmodules' := modules_of_decodeWith h' hcontainer' reordered.debugStream'
  have perm : info.modules.Perm info'.modules := by
    rw [hmodules, hmodules']
    exact reordered.modules
  obtain ⟨rename, order, renames, horder, renamed⟩ := made.exists_order made' alike perm
    (hmodules ▸ sameModules) unanimous
  have hmethods := made.methods_renamed made' horder renamed distinct
  have hmethod? := method?_of_renamed (indexed_of_decodeWith h) (indexed_of_decodeWith h') hmethods
  exact ⟨rename, renames, hmethods, hmethod?, usingInfo?_of_renamed hmethods hmethod?,
    made.tokenLine_renamed made' horder renamed⟩

end

/-- Two modules with a common source file, of which the second has its code in front. -/
def crossedDraft : ImageDraft where
  nameBuffer := (["a.cs", "b.cs"].foldl ImageDraft.addName {}).nameBuffer
  modules := [
    { ModuleDraft.ofName "a.obj" with
      symbols := some (SymbolRegion.ofCommands [.method 0x06000001 2 16 32 "a", .close 6]).bytes
      lines := (LineRegion.ofCommands
        [.checksum ⟨1, 1, ⟨#[7]⟩⟩, .lines ⟨2, 16, 32, [⟨0, [.single 0 5]⟩], false⟩]).bytes },
    { ModuleDraft.ofName "b.obj" with
      symbols := some (SymbolRegion.ofCommands [.method 0x06000002 1 16 32 "b", .close 6]).bytes
      lines := (LineRegion.ofCommands
        [.checksum ⟨6, 1, ⟨#[7]⟩⟩, .checksum ⟨1, 1, ⟨#[7]⟩⟩,
          .lines ⟨1, 16, 32, [⟨0, [.single 0 9]⟩], false⟩]).bytes }]

/-- The modules change places, and so do their source files. -/
theorem decodeWith_reordered_crossedDraft :
    ∃ image' info info' rename, decodeWith {} crossedDraft.image = .ok info ∧
      decodeWith {} image' = .ok info' ∧ info'.modules = info.modules.reverse ∧
      RenamedFrom rename info info' ∧
      info.methods.toList.map Method.token = [0x06000002, 0x06000001] ∧
      info.sources.toList.map SourceFile.name = ["a.cs", "b.cs"] := by
  have writable : crossedDraft.Writable ["a.cs", "b.cs"] :=
    .of_modules rfl rfl rfl rfl (by decide) (by decide +kernel) (by decide +kernel)
      (by decide +kernel) (by decide +kernel) (by decide +kernel)
  let say (said : List Method × TokenLines × List SourceFile) :
      List (Site × UInt32) × List String :=
    (said.1.map fun method => (method.site, method.token), said.2.2.map SourceFile.name)
  have hscan : (crossedDraft.scanned ["a.cs", "b.cs"]).map say
      = some ([(⟨1, 16⟩, 0x06000002), (⟨2, 16⟩, 0x06000001)], ["a.cs", "b.cs"]) := by
    unfold ImageDraft.scanned ImageDraft.readModules ModuleDraft.readWith
      ModuleDescriptor.readStream ModuleDescriptor.readMethodsWithLines remapMethods
    simp only [Method.sort_eq_insertSort]
    decide +kernel
  obtain ⟨info, hinfo, -, hsaid⟩ := writable.exists_decode_of_scan hscan
  obtain ⟨hmethods, hsources⟩ := Prod.mk.inj hsaid
  -- the same streams, with the modules in two orders
  let modules := crossedDraft.numberedModules
  have hsame : crossedDraft.relisted modules none = crossedDraft.streams :=
    crossedDraft.relisted_numberedModules
  have fits : Layout.Fits crossedDraft.pageSize (crossedDraft.relisted modules none) :=
    hsame ▸ writable.fits
  have fits' : Layout.Fits crossedDraft.pageSize (crossedDraft.relisted modules.reverse none) :=
    ⟨⟨9, by decide, by decide, rfl⟩, by decide +kernel, by decide +kernel, by decide +kernel⟩
  have hmodules : ∀ entry ∈ modules, (entry.1.written entry.2).stream? ≠ some debugStreamIndex := by
    decide +kernel
  obtain ⟨container, hcontainer, holds⟩ := Layout.exists_holds fits
  obtain ⟨container', hcontainer', holds'⟩ := Layout.exists_holds fits'
  have reordered := writable.reordered modules.reverse_perm.symm
    (fun entry member => (List.of_mem_zip member).1) fits fits' holds holds'
  have apart : DebugStreamApart {} container (crossedDraft.listed modules none) :=
    writable.debugStreamApart (Container.paged_of_ofImage hcontainer) holds (by decide) hmodules
  rw [hsame] at hcontainer
  obtain ⟨hiff, hrenamed⟩ :=
    @decodeWith_reordered {} _ _ _ _ _ _ hcontainer hcontainer' reordered apart
  obtain ⟨info', hinfo'⟩ := hiff.mp ⟨info, hinfo⟩
  obtain ⟨library, remap, readings, session, made⟩ := exists_madeOf hinfo
  obtain rfl : container = library.container := Except.ok.inj (hcontainer.symm.trans made.ofImage)
  have hlisted := modules_of_decodeWith hinfo hcontainer reordered.debugStream
  have hlisted' := modules_of_decodeWith hinfo' hcontainer' reordered.debugStream'
  have distinct : readings.Pairwise (ModuleReading.Apart remap) := by
    refine made.pairwise_apart ?_
    rw [hmethods]
    decide
  have unanimous : library.Unanimous (readings.flatMap ModuleReading.records) :=
    made.unanimous_of_written writable holds (List.Subset.refl _) hmodules hlisted 1 [7]
      (by decide +kernel)
  obtain ⟨rename, renamed⟩ := hrenamed info info' library remap readings session hinfo hinfo' made
    distinct unanimous
  refine ⟨_, info, info', rename, hinfo, hinfo', ?_, renamed, ?_, hsources⟩
  · rw [hlisted, hlisted']
    exact List.map_reverse
  · have htokens := congrArg (List.map Prod.snd) hmethods
    rwa [List.map_map] at htokens

/-- A module of one method without lines, and one without a stream. -/
def aliasedDraft : ImageDraft where
  modules := [
    { ModuleDraft.ofName "a.obj" with
      symbols := some (SymbolRegion.ofCommands [.method 0x06000019 1 16 32 "a", .close 6]).bytes },
    ModuleDraft.ofName "b.obj"]
  tokenRemap := some [1]

/-- The debug information stream may be the table of new tokens, too.  Then these are what it says
about the modules, in their order: here the first module has 52 bytes of symbols, or none. -/
theorem not_reordered_aliasedDraft :
    ∃ image image' container container' debug debug' info info' library remap readings session,
      Container.ofImage image = .ok container ∧ Container.ofImage image' = .ok container' ∧
      Reordered true container container' debug debug' ∧
      decodeWith {} image = .ok info ∧ decodeWith {} image' = .ok info' ∧
      MadeOf {} image info library remap readings session ∧
      readings.Pairwise (ModuleReading.Apart remap) ∧
      library.Unanimous (readings.flatMap ModuleReading.records) ∧
      ¬ ∃ rename, RenamedFrom rename info info' := by
  have writable : aliasedDraft.Writable [] :=
    .of_modules rfl rfl rfl rfl nofun (by decide +kernel) (by decide +kernel)
      (by decide +kernel) (by decide +kernel) (by decide +kernel)
  let modules := aliasedDraft.numberedModules
  let tokens (streams : Streams) : Option (List UInt32) :=
    (ofStreams {} streams).toOption.map fun info => info.methods.toList.map Method.token
  have htokens : tokens (aliasedDraft.relisted modules (some 3)) = some [0x06000034] ∧
      tokens (aliasedDraft.relisted modules.reverse (some 3)) = some [0x06000000] := by
    unfold tokens ofStreams
    simp only [writable.ofStreams_relisted, ok_bind, writable.sourceServer_relisted (by decide)]
    unfold StreamLibrary.decodeModule ModuleDescriptor.readStream
      ModuleDescriptor.readMethodsWithLines remapMethods
    simp only [Method.sort_eq_insertSort]
    decide +kernel
  have fits : Layout.Fits aliasedDraft.pageSize (aliasedDraft.relisted modules (some 3)) :=
    ⟨⟨9, by decide, by decide, rfl⟩, by decide +kernel, by decide +kernel, by decide +kernel⟩
  have fits' : Layout.Fits aliasedDraft.pageSize
      (aliasedDraft.relisted modules.reverse (some 3)) :=
    ⟨⟨9, by decide, by decide, rfl⟩, by decide +kernel, by decide +kernel, by decide +kernel⟩
  have hmodules : ∀ entry ∈ modules, (entry.1.written entry.2).stream? ≠ some debugStreamIndex := by
    decide +kernel
  obtain ⟨container, hcontainer, holds⟩ := Layout.exists_holds fits
  obtain ⟨container', hcontainer', holds'⟩ := Layout.exists_holds fits'
  have reordered := writable.reordered modules.reverse_perm.symm
    (fun entry member => (List.of_mem_zip member).1) fits fits' holds holds'
  obtain ⟨info, hinfo, hsaid⟩ := exists_decodeWith_layout fits htokens.1
  obtain ⟨info', hinfo', hsaid'⟩ := exists_decodeWith_layout fits' htokens.2
  obtain ⟨library, remap, readings, session, made⟩ := exists_madeOf hinfo
  obtain rfl : container = library.container := Except.ok.inj (hcontainer.symm.trans made.ofImage)
  have hlisted := modules_of_decodeWith hinfo hcontainer reordered.debugStream
  refine ⟨_, _, _, container', _, _, info, info', library, remap, readings, session, hcontainer,
    hcontainer', reordered, hinfo, hinfo', made, ?_, ?_, ?_⟩
  · refine made.pairwise_apart (List.Nodup.of_map Prod.snd ?_)
    rw [List.map_map]
    exact hsaid ▸ List.nodup_singleton _
  · exact made.unanimous_of_written writable holds (List.Subset.refl _) hmodules hlisted 1 []
      (by decide +kernel)
  · rintro ⟨rename, renamed⟩
    have hsame := congrArg (List.map Method.token) renamed.methods
    rw [List.map_map, hsaid'] at hsame
    have hkept : Method.token ∘ Method.renameFiles rename = Method.token := rfl
    rw [hkept, hsaid] at hsame
    exact absurd hsame (by decide)

end DebugInfo

end ManagedPdb
