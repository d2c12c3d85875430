import ManagedPdb.Proofs.DebugInfo.Readings
import ManagedPdb.Proofs.Line.Correlation

/-!
# Where each method comes from

The methods of a file are those that are found in its modules, each once, with their lines and with
new tokens (`DebugInfo.methods_ordered`).  They are sorted twice: each module by the old tokens,
where lines are given out, and all together by the new ones.  Both sorts are stable, so that among
methods with the same place and new token the module counts, then the old token, and then the place
in the stream.
-/

namespace ManagedPdb

/-- Whether methods are read from the stream of the module. -/
def ModuleDescriptor.hasMethods (descriptor : ModuleDescriptor) : Bool :=
  descriptor.stream?.isSome && descriptor.name != tokenLineModule && descriptor.symbolsSize != 0

/-- A method of a module before its tokens are changed. -/
structure TracedMethod where
  /-- The place of its module among the modules with methods. -/
  moduleIndex : Nat
  /-- Its place among the methods in the stream of the module. -/
  place : Nat
  /-- The method as it stands in the stream. -/
  raw : Method
  /-- The method with its lines. -/
  lined : Method

namespace TracedMethod

/-- What the methods of a module are ordered by. -/
def rawKey (traced : TracedMethod) : List Nat :=
  [traced.raw.segment.toNat, traced.raw.address.toNat, traced.raw.token.toNat, traced.place]

/-- What all methods are ordered by, where `method` is the method with its new tokens. -/
def key (traced : TracedMethod) (method : Method) : List Nat :=
  [method.segment.toNat, method.address.toNat, method.token.toNat, traced.moduleIndex,
    traced.raw.token.toNat, traced.place]

/-- The methods of one module: those that are found in its stream, sorted by their old tokens, with
the lines that they get in this order. -/
structure OfModule (moduleIndex : Nat) (reading : ModuleReading) (traces : List TracedMethod) :
    Prop where
  moduleIndex : ∀ traced ∈ traces, traced.moduleIndex = moduleIndex
  found : (traces.map fun traced => (traced.raw, traced.place)).Perm reading.found.zipIdx
  ordered : traces.Pairwise fun left right => left.rawKey < right.rawKey
  lined : traces.map TracedMethod.lined = reading.lined
  lines : ∀ traced ∈ traces, traced.lined = { traced.raw with lines := traced.lined.lines }

end TracedMethod

/-! ### Orders -/

namespace Method

theorem sortedBySite_sort (methods : List Method) : SortedBySite (sort methods) := by
  refine (List.pairwise_mergeSort sorts_inOrder.trans sorts_inOrder.total methods).imp ?_
  intro left right hleft hright
  rw [inOrder_iff_toNat] at hleft
  simp only [site, Site.before, Bool.or_eq_true, Bool.and_eq_true, decide_eq_true_eq, beq_iff_eq,
    UInt16.lt_iff_toNat_lt, UInt32.lt_iff_toNat_lt, ← UInt16.toNat_inj] at hright
  omega

end Method

theorem pairwise_zipIdx {α : Type} (items : List α) :
    items.zipIdx.Pairwise fun left right => left.2 < right.2 := by
  have hplaces : (items.zipIdx.map Prod.snd).Pairwise (· < ·) := by
    rw [List.zipIdx_map_snd]
    exact List.pairwise_lt_range'
  exact List.pairwise_map.mp hplaces

/-- Related items in pairs. -/
theorem exists_pairs_of_forall₂ {α β : Type} {Related : α → β → Prop} {items : List α}
    {values : List β} (related : List.Forall₂ Related items values) :
    ∃ pairs : List (α × β), pairs.map Prod.fst = items ∧ pairs.map Prod.snd = values ∧
      ∀ pair ∈ pairs, Related pair.1 pair.2 :=
  ⟨items.zip values, List.map_fst_zip (Nat.le_of_eq related.length_eq),
    List.map_snd_zip (Nat.le_of_eq related.length_eq.symm),
    fun _ member => List.forall₂_zip related member⟩

/-! ### One module -/

/-- Lines are all that a line region changes. -/
theorem Correlated.forall₂ {methods result : List Method} {sections : List SiteLines}
    (correlated : Correlated methods sections result) :
    List.Forall₂ (fun method lined => lined = { method with lines := lined.lines }) methods
      result := by
  obtain ⟨hlength, -, hmethods⟩ := correlated
  rw [List.forall₂_iff_get]
  refine ⟨hlength.symm, fun index hindex hresult => ?_⟩
  have hat := hmethods index methods[index] (List.getElem?_eq_getElem hindex)
  have hlined := List.getElem?_eq_getElem hresult
  rw [List.get_eq_getElem, List.get_eq_getElem]
  split at hat
  · rw [hlined] at hat
    rw [Option.some.inj hat]
  · obtain ⟨tables, -, hat⟩ := hat
    rw [hlined] at hat
    rw [Option.some.inj hat]

namespace TracedMethod

/-- The methods of a module can be traced. -/
theorem exists_ofModule {library : SourceLibrary} {keepNames : Bool}
    {sources sources' : SourceSession} {reading : ModuleReading}
    (reads : reading.Reads library keepNames sources sources')
    (hname : reading.descriptor.name ≠ tokenLineModule) (moduleIndex : Nat) :
    ∃ traces, OfModule moduleIndex reading traces := by
  obtain ⟨-, hlined, -⟩ := reads.methods hname
  obtain ⟨last, hlined⟩ := Reader.run_eq_ok_iff.mp hlined
  obtain ⟨subsections, _, -, hlined⟩ := Reader.bind_eq_done_iff.mp hlined
  obtain ⟨attachment, _, hattachment, hlined⟩ := Reader.bind_eq_done_iff.mp hlined
  obtain ⟨hlined, -⟩ := Outcome.done.inj hlined
  have correlated := Correlated.of_readSubsections SiteSearch.finds_binary
    (Method.sortedBySite_sort reading.found) hattachment
  rw [hlined] at correlated
  -- the places are sorted together with the methods
  let numbered := reading.found.zipIdx.mergeSort fun left right => left.1.inOrder right.1
  have hnumbered : numbered.map Prod.fst = Method.sort reading.found := by
    rw [List.map_mergeSort (s := Method.inOrder) fun _ _ _ _ => rfl, List.zipIdx_map_fst]
    rfl
  have hsorts : Sorts fun left right : Method × Nat => left.1.inOrder right.1 :=
    ⟨fun _ _ _ => Method.sorts_inOrder.trans _ _ _, fun _ _ => Method.sorts_inOrder.total _ _⟩
  have hordered : numbered.Pairwise fun left right => left.1.inOrder right.1 ∧
      (right.1.inOrder left.1 → left.2 < right.2) :=
    hsorts.pairwise_mergeSort (pairwise_zipIdx reading.found)
  have hrelated := correlated.forall₂
  rw [← hnumbered, List.forall₂_map_left_iff] at hrelated
  obtain ⟨pairs, hfst, hsnd, hlines⟩ := exists_pairs_of_forall₂ hrelated
  refine ⟨pairs.map fun pair => ⟨moduleIndex, pair.1.2, pair.1.1, pair.2⟩, ?_, ?_, ?_, ?_, ?_⟩
  · intro traced member
    obtain ⟨pair, -, rfl⟩ := List.mem_map.mp member
    rfl
  · rw [List.map_map]
    show (pairs.map Prod.fst).Perm _
    rw [hfst]
    exact List.mergeSort_perm _ _
  · rw [← hfst, List.pairwise_map] at hordered
    refine List.pairwise_map.mpr (hordered.imp ?_)
    intro left right hinOrder
    simp only [Method.inOrder_iff_toNat] at hinOrder
    simp only [rawKey, List.cons_lt_cons_iff, List.not_lt_nil, and_false, or_false]
    omega
  · rw [List.map_map]
    exact hsnd
  · intro traced member
    obtain ⟨pair, hpair, rfl⟩ := List.mem_map.mp member
    exact hlines pair hpair

end TracedMethod

/-! ### All modules -/

namespace DebugInfo

variable {options : DecodeOptions} {image : ByteArray} {info : DebugInfo} {library : SourceLibrary}
  {remap : TokenRemap} {readings : List ModuleReading} {session : SourceSession}

/-- The readings of the modules with methods. -/
def methodReadings (readings : List ModuleReading) : List ModuleReading :=
  readings.filter (·.descriptor.hasMethods)

theorem MadeOf.isRead (made : MadeOf options image info library remap readings session)
    {reading : ModuleReading} (member : reading ∈ readings) :
    reading.descriptor.isRead = true := by
  have hdescriptor : reading.descriptor ∈ readings.map ModuleReading.descriptor :=
    List.mem_map_of_mem member
  rw [made.descriptors] at hdescriptor
  exact (List.mem_filter.mp hdescriptor).2

theorem MadeOf.hasMethods_iff (made : MadeOf options image info library remap readings session)
    {reading : ModuleReading} (member : reading ∈ readings) :
    reading.descriptor.hasMethods = true ↔ reading.descriptor.name ≠ tokenLineModule := by
  have hread := made.isRead member
  simp only [ModuleDescriptor.isRead, ModuleDescriptor.hasMethods, Bool.and_eq_true,
    Bool.or_eq_true, beq_iff_eq, bne_iff_ne] at hread ⊢
  tauto

/-- The modules with methods are read, in their order. -/
theorem MadeOf.descriptors_methodReadings
    (made : MadeOf options image info library remap readings session) :
    (methodReadings readings).map ModuleReading.descriptor
      = info.modules.filter ModuleDescriptor.hasMethods := by
  have hfilter : (methodReadings readings).map ModuleReading.descriptor
      = (readings.map ModuleReading.descriptor).filter ModuleDescriptor.hasMethods := by
    rw [List.filter_map]
    rfl
  rw [hfilter, made.descriptors, List.filter_filter]
  congr 1
  funext descriptor
  simp only [ModuleDescriptor.isRead, ModuleDescriptor.hasMethods]
  cases descriptor.stream?.isSome <;> cases descriptor.name != tokenLineModule <;>
    cases descriptor.symbolsSize != 0 <;> simp

/-- All methods are in the readings of the modules with methods. -/
theorem MadeOf.flatMap_lined (made : MadeOf options image info library remap readings session) :
    readings.flatMap ModuleReading.lined
      = (methodReadings readings).flatMap ModuleReading.lined := by
  have hother : ∀ reading ∈ readings, reading.descriptor.hasMethods = false →
      reading.lined = [] := by
    intro reading member hnone
    obtain ⟨before, after, hreads⟩ := made.readAll.exists_reads member
    by_contra hlined
    have hname : reading.descriptor.name ≠ tokenLineModule := fun hname =>
      hlined (hreads.tokenLines hname).2.2
    rw [(made.hasMethods_iff member).mpr hname] at hnone
    cases hnone
  clear made
  unfold methodReadings
  induction readings with
  | nil => rfl
  | cons reading readings ih =>
    have ih := ih fun other member => hother other (List.mem_cons_of_mem _ member)
    cases hmethods : reading.descriptor.hasMethods with
    | true => rw [List.filter_cons, if_pos hmethods, List.flatMap_cons, List.flatMap_cons, ih]
    | false =>
      rw [List.filter_cons, if_neg (by simp [hmethods]), List.flatMap_cons,
        hother reading List.mem_cons_self hmethods, ih, List.nil_append]

/-- All methods can be traced, module by module. -/
theorem MadeOf.exists_traces (made : MadeOf options image info library remap readings session) :
    ∃ traces, List.Forall₂ (fun reading traces => TracedMethod.OfModule reading.2 reading.1 traces)
      (methodReadings readings).zipIdx traces := by
  have hreads : ∀ reading ∈ methodReadings readings, ∀ moduleIndex,
      ∃ traces, TracedMethod.OfModule moduleIndex reading traces := by
    intro reading member moduleIndex
    obtain ⟨member, hmethods⟩ := List.mem_filter.mp member
    obtain ⟨before, after, hreads⟩ := made.readAll.exists_reads member
    exact TracedMethod.exists_ofModule hreads ((made.hasMethods_iff member).mp hmethods) moduleIndex
  generalize methodReadings readings = readings at hreads ⊢
  generalize 0 = first
  induction readings generalizing first with
  | nil => exact ⟨[], .nil⟩
  | cons reading readings ih =>
    obtain ⟨traces, htraces⟩ := hreads reading List.mem_cons_self first
    obtain ⟨rest, hrest⟩ := ih (fun other member => hreads other (List.mem_cons_of_mem _ member))
      (first + 1)
    exact ⟨traces :: rest, .cons htraces hrest⟩

end DebugInfo

namespace TracedMethod

variable {readings : List ModuleReading} {traces : List (List TracedMethod)}

/-- One module after the other, and each in its own order. -/
theorem pairwise_flatten_traces
    (htraces : List.Forall₂ (fun reading traces => OfModule reading.2 reading.1 traces)
      readings.zipIdx traces) :
    traces.flatten.Pairwise fun left right =>
      left.moduleIndex :: left.rawKey < right.moduleIndex :: right.rawKey := by
  obtain ⟨pairs, hfst, rfl, hpairs⟩ := exists_pairs_of_forall₂ htraces
  have hindices := pairwise_zipIdx readings
  rw [← hfst, List.pairwise_map] at hindices
  simp only [List.cons_lt_cons_iff]
  refine List.pairwise_flatten.mpr ⟨?_, List.pairwise_map.mpr ?_⟩
  · intro traces member
    obtain ⟨pair, hpair, rfl⟩ := List.mem_map.mp member
    have hmodule := hpairs pair hpair
    refine hmodule.ordered.imp_of_mem fun hleft hright hlt => .inr ⟨?_, hlt⟩
    rw [hmodule.moduleIndex _ hleft, hmodule.moduleIndex _ hright]
  · refine hindices.imp_of_mem fun hleft hright hlt left hleftMem right hrightMem => .inl ?_
    rwa [(hpairs _ hleft).moduleIndex _ hleftMem, (hpairs _ hright).moduleIndex _ hrightMem]

theorem map_lined_flatten
    (htraces : List.Forall₂ (fun reading traces => OfModule reading.2 reading.1 traces)
      readings.zipIdx traces) :
    traces.flatten.map lined = readings.flatMap ModuleReading.lined := by
  obtain ⟨pairs, hfst, rfl, hpairs⟩ := exists_pairs_of_forall₂ htraces
  have hreadings : readings = pairs.map fun pair => pair.1.1 := by
    rw [← List.zipIdx_map_fst 0 readings, ← hfst, List.map_map]
    rfl
  rw [hreadings, List.map_flatten, List.map_map, List.flatMap_map, ← List.flatMap_def]
  refine List.flatMap_congr fun pair hpair => ?_
  exact (hpairs pair hpair).lined

theorem lines_of_mem_flatten
    (htraces : List.Forall₂ (fun reading traces => OfModule reading.2 reading.1 traces)
      readings.zipIdx traces) {traced : TracedMethod} (member : traced ∈ traces.flatten) :
    traced.lined = { traced.raw with lines := traced.lined.lines } := by
  obtain ⟨ofModule, hofModule, htraced⟩ := List.mem_flatten.mp member
  obtain ⟨_, -, hmodule⟩ := exists_of_mem_of_forall₂ htraces.flip hofModule
  exact hmodule.lines traced htraced

/-- Neither lines nor new tokens move a method. -/
theorem site_eq {traced : TracedMethod} {remap : TokenRemap} {method : Method}
    (hlines : traced.lined = { traced.raw with lines := traced.lined.lines })
    (happly : remap.apply traced.lined = .ok method) :
    method.segment = traced.raw.segment ∧ method.address = traced.raw.address := by
  rw [(TokenRemap.changes_of_apply happly).others, hlines]
  exact ⟨rfl, rfl⟩

end TracedMethod

namespace DebugInfo

/-- The methods of a file that is decoded are exactly those that are found in its modules with
methods, each with the lines that it gets there and with new tokens.  They are in the order of their
segments, addresses and new tokens, and where these are the same, of their modules, of their old
tokens and of their places in the stream of the module. -/
theorem methods_ordered {options : DecodeOptions} {image : ByteArray} {info : DebugInfo}
    (h : decodeWith options image = .ok info) :
    ∃ library remap readings session, MadeOf options image info library remap readings session ∧
      (methodReadings readings).map ModuleReading.descriptor
        = info.modules.filter ModuleDescriptor.hasMethods ∧
      ∃ (traces : List (List TracedMethod)) (all : List (TracedMethod × Method)),
        List.Forall₂ (fun reading traces => TracedMethod.OfModule reading.2 reading.1 traces)
          (methodReadings readings).zipIdx traces ∧
        (all.map Prod.fst).Perm traces.flatten ∧
        (∀ entry ∈ all, remap.apply entry.1.lined = .ok entry.2) ∧
        all.map Prod.snd = info.methods.toList ∧
        all.Pairwise fun left right => left.1.key left.2 < right.1.key right.2 := by
  obtain ⟨library, remap, readings, session, made⟩ := exists_madeOf h
  obtain ⟨traces, htraces⟩ := made.exists_traces
  obtain ⟨renamed, hrenamed, hmethods⟩ := made.methods
  rw [made.flatMap_lined, ← TracedMethod.map_lined_flatten htraces] at hrenamed
  have happly := forall₂_of_mapM_eq_ok hrenamed
  rw [List.forall₂_map_left_iff] at happly
  obtain ⟨pairs, hfst, hsnd, hpairs⟩ := exists_pairs_of_forall₂ happly
  have hsorts : Sorts fun left right : TracedMethod × Method => left.2.inOrder right.2 :=
    ⟨fun _ _ _ => Method.sorts_inOrder.trans _ _ _, fun _ _ => Method.sorts_inOrder.total _ _⟩
  have hflat := TracedMethod.pairwise_flatten_traces htraces
  rw [← hfst, List.pairwise_map] at hflat
  refine ⟨library, remap, readings, session, made, made.descriptors_methodReadings, traces,
    pairs.mergeSort fun left right => left.2.inOrder right.2, htraces, ?_, ?_, ?_, ?_⟩
  · exact hfst ▸ (List.mergeSort_perm _ _).map Prod.fst
  · exact fun entry member => hpairs entry (List.mem_mergeSort.mp member)
  · rw [hmethods, List.map_mergeSort (s := Method.inOrder) fun _ _ _ _ => rfl, hsnd]
    rfl
  · have hsite : ∀ entry ∈ pairs, entry.2.segment = entry.1.raw.segment ∧
        entry.2.address = entry.1.raw.address := fun entry member =>
      TracedMethod.site_eq (TracedMethod.lines_of_mem_flatten htraces
        (hfst ▸ List.mem_map_of_mem member)) (hpairs entry member)
    refine (hsorts.pairwise_mergeSort hflat).imp_of_mem fun hleft hright hinOrder => ?_
    obtain ⟨hleft_segment, hleft_address⟩ := hsite _ (List.mem_mergeSort.mp hleft)
    obtain ⟨hright_segment, hright_address⟩ := hsite _ (List.mem_mergeSort.mp hright)
    simp only [Method.inOrder_iff_toNat, TracedMethod.rawKey, List.cons_lt_cons_iff,
      ← hleft_segment, ← hleft_address, ← hright_segment, ← hright_address, List.not_lt_nil,
      and_false, or_false] at hinOrder
    simp only [TracedMethod.key, List.cons_lt_cons_iff, List.not_lt_nil, and_false, or_false]
    omega

/-- Two modules, the second of which has code in the first segment.  All other methods are at one
place and get one token, which two of the old tokens become. -/
def tiedDraft : ImageDraft where
  modules := [
    { ModuleDraft.ofName "a.obj" with
      symbols := some (SymbolRegion.ofCommands [
        .method 0x06000002 2 16 32 "a", .close 6, .method 0x06000001 2 16 30 "b", .close 6,
        .method 0x06000001 2 16 29 "c", .close 6]).bytes },
    { ModuleDraft.ofName "b.obj" with
      symbols := some (SymbolRegion.ofCommands [
        .method 0x06000001 1 16 33 "d", .close 6, .method 0x06000001 2 16 31 "e",
        .close 6]).bytes }]
  tokenRemap := some [0, 9, 9]

/-- At the shared place the methods of the first module come first, those with the lesser old token
in front, and these in the order of the stream. -/
theorem methods_ordered_tiedDraft :
    ∃ info, decodeWith {} tiedDraft.image = .ok info ∧
      info.methods.toList.map (fun method => (method.token, method.length))
        = [33, 30, 29, 32, 31].map (Prod.mk 0x06000009) ∧
      ∃ (readings : List ModuleReading) (all : List (TracedMethod × Method)),
        (methodReadings readings).map ModuleReading.descriptor
          = info.modules.filter ModuleDescriptor.hasMethods ∧
        all.map Prod.snd = info.methods.toList ∧
        all.Pairwise fun left right => left.1.key left.2 < right.1.key right.2 := by
  have writable : tiedDraft.Writable [] :=
    .of_modules rfl rfl rfl rfl nofun (by decide +kernel) (by decide +kernel) (by decide +kernel)
      (by decide +kernel) (by decide +kernel)
  have hsaid : (tiedDraft.decoded []).toOption.map
      (fun info => info.methods.toList.map fun method => (method.token, method.length))
        = some ([33, 30, 29, 32, 31].map (Prod.mk 0x06000009)) := by
    unfold ImageDraft.decoded ImageDraft.readModules ModuleDraft.readWith
      ModuleDescriptor.readStream ModuleDescriptor.readMethodsWithLines DebugInfo.remapMethods
    simp only [Method.sort_eq_insertSort]
    decide +kernel
  obtain ⟨info, hinfo, hsaid⟩ := exists_decode_image writable hsaid
  obtain ⟨_, _, readings, _, -, hmodules, _, all, -, -, -, hall, hordered⟩ := methods_ordered hinfo
  exact ⟨info, hinfo, hsaid, readings, all, hmodules, hall, hordered⟩

end DebugInfo

end ManagedPdb
