import ManagedPdb.Proofs.DebugInfo.Lookup
import ManagedPdb.Proofs.Draft.Decoded
import Mathlib.Data.List.Perm.Basic

/-!
# Decoding with and without new tokens

The same file is decoded twice, with the token remap table applied and without.  The steps of the
decoder can be run one by one, each with an empty cursor (`Staging.Steady`), so that both runs find
the same methods before the tokens are changed.  `DebugInfo.decodeWith_remap` says how the results
are related, and when only the run without the table succeeds.
-/

namespace ManagedPdb

/-! ### Steps with any cursor -/

namespace Staging

variable {α β σ : Type}

/-- What the steps give does not depend on what the cursor holds at first. -/
def Steady (step : Staging α) : Prop :=
  ∀ cursor cursor' : Cursor, step.run' cursor = step.run' cursor'

namespace Steady

/-- The next steps may start with any other cursor. -/
theorem run'_bind {step : Staging α} {next : α → Staging β} {cursor : Cursor}
    (hnext : ∀ value, step.run' cursor = .ok value → (next value).Steady) (cursor' : Cursor) :
    (step >>= next).run' cursor = step.run' cursor >>= fun value => (next value).run' cursor' := by
  rw [StagingSim.run'_bind]
  have hrun : step.run' cursor = (·.1) <$> step cursor := rfl
  rw [hrun] at hnext ⊢
  cases hstep : step cursor with
  | error error => rfl
  | ok found =>
    rw [hstep] at hnext
    exact hnext found.1 rfl found.2 cursor'

theorem pure (value : α) : Steady (pure value) := fun _ _ => rfl

theorem lift (result : Except DecodeError α) : Steady (liftM result : Staging α) := by
  intro cursor cursor'
  cases result <;> rfl

theorem bind {step : Staging α} {next : α → Staging β} (hstep : step.Steady)
    (hnext : ∀ value, (next value).Steady) : (step >>= next).Steady := by
  intro cursor cursor'
  rw [run'_bind (fun value _ => hnext value) cursor',
    run'_bind (fun value _ => hnext value) cursor', hstep cursor cursor']

theorem foldlM {step : σ → α → Staging σ} (hstep : ∀ state item, (step state item).Steady)
    (items : List α) (state : σ) : (items.foldlM step state).Steady := by
  induction items generalizing state with
  | nil => exact pure state
  | cons item items ih =>
    rw [List.foldlM_cons]
    exact (hstep state item).bind ih

theorem stage {file : PageFile} (paged : 0 < file.pageSize.toNat) (stream : StreamDescriptor)
    (reader : Reader α) : (stream.stage file reader).Steady := by
  intro cursor cursor'
  rw [StreamDescriptor.run'_stage paged, StreamDescriptor.run'_stage paged]

end Steady

end Staging

/-- Pages of the container are not empty. -/
def Container.Paged (container : Container) : Prop := 0 < container.file.pageSize.toNat

variable {container : Container}

/-- A stream that is staged is read as a whole. -/
theorem Container.run'_stage (paged : container.Paged) {α : Type} (index : UInt32)
    (reader : Reader α) (cursor : Cursor) :
    (container.stage index reader).run' cursor = container.content index >>= reader.run := by
  unfold Container.stage Container.content
  cases container.directory.stream index with
  | error error => rfl
  | ok stream => exact StreamDescriptor.run'_stage paged reader cursor

namespace Staging.Steady

theorem stage_index (paged : container.Paged) {α : Type} (index : UInt32) (reader : Reader α) :
    (container.stage index reader).Steady :=
  (lift _).bind fun stream => stage paged stream reader

theorem ofContainer (paged : container.Paged) : (SourceLibrary.ofContainer container).Steady := by
  refine (stage_index paged _ _).bind fun info => ?_
  cases info.stream? "/NAMES" with
  | none => exact lift (.error _)
  | some index => exact (stage_index paged _ _).bind fun names => pure _

theorem decodeRemap (paged : container.Paged) (debug : DebugStream) (options : DecodeOptions) :
    (DebugInfo.decodeRemap container debug options).Steady := by
  unfold DebugInfo.decodeRemap
  cases debug.tokenRemapStream with
  | none => exact pure _
  | some index =>
    by_cases hoption : options.applyTokenRemap
    · simp only [if_pos hoption]
      exact stage_index paged index _
    · simp only [if_neg hoption]
      exact pure _

theorem decodeModule {library : SourceLibrary} (paged : library.container.Paged)
    (keepNames : Bool) (findings : ModuleFindings SourceSession) (descriptor : ModuleDescriptor) :
    (descriptor.decode library keepNames findings).Steady := by
  unfold ModuleDescriptor.decode
  cases descriptor.stream? with
  | none => exact pure _
  | some index =>
    refine (lift _).bind fun stream => ?_
    by_cases hregions : stream.length.toNat < descriptor.linesEnd
    · simp only [if_pos hregions]
      exact (lift (.error _)).bind fun _ => stage paged _ _
    · simp only [if_neg hregions]
      exact stage paged _ _

end Staging.Steady

/-- The library was read from the container. -/
theorem SourceLibrary.container_of_ofContainer (paged : container.Paged) {library : SourceLibrary}
    {cursor : Cursor} (h : (SourceLibrary.ofContainer container).run' cursor = .ok library) :
    library.container = container := by
  unfold SourceLibrary.ofContainer at h
  rw [Staging.Steady.run'_bind (fun info _ => ?_) .empty] at h
  · obtain ⟨info, -, h⟩ := bind_eq_ok_iff.mp h
    cases hstream : info.stream? "/NAMES" with
    | none =>
      rw [hstream] at h
      cases h
    | some index =>
      rw [hstream] at h
      simp only [] at h
      rw [Staging.Steady.run'_bind (fun names _ => .pure _) .empty] at h
      obtain ⟨names, -, h⟩ := bind_eq_ok_iff.mp h
      cases h
      rfl
  · cases info.stream? "/NAMES" with
    | none => exact .lift (.error _)
    | some index => exact (Staging.Steady.stage_index paged _ _).bind fun names => .pure _

namespace DebugInfo

/-- The token remap table that a file gives, where names are kept or not. -/
def tokenRemap (keepNames : Bool) (image : ByteArray) : Except DecodeError TokenRemap := do
  let container ← Container.ofImage image
  let debug ← (container.stage debugStreamIndex (DebugStream.read keepNames)).run' .empty
  (decodeRemap container debug { keepNames, applyTokenRemap := true }).run' .empty

/-- What the decoder gives back when all is found. -/
def ofFindings (library : SourceLibrary) (debug : DebugStream)
    (findings : ModuleFindings SourceSession) (methods : Array Method) (sourceServer : String) :
    DebugInfo where
  version := library.info.version
  signature := library.info.signature
  age := library.info.age
  debugAge := debug.age
  guid := library.info.guid
  modules := debug.modules
  methods
  lastOfToken := indexTokens methods
  tokenLines := findings.tokenLines
  sources := findings.sources.table.files
  sourceServer

/-- The last steps, which use no cursor: all tokens are changed, and the script is read. -/
def finish (library : SourceLibrary) (debug : DebugStream) (remap : TokenRemap)
    (findings : ModuleFindings SourceSession) : Except DecodeError DebugInfo := do
  let methods ← remapMethods remap findings.methods.toList
  let sourceServer ← decodeSourceServer library
  return ofFindings library debug findings methods sourceServer

theorem ofContainer_eq (options : DecodeOptions) (sourceCursor : Cursor) :
    ofContainer options container sourceCursor = (do
      let library ← SourceLibrary.ofContainer container
      let debug ← container.stage debugStreamIndex (DebugStream.read options.keepNames)
      let remap ← decodeRemap container debug options
      let findings ← debug.modules.foldlM (ModuleDescriptor.decode library options.keepNames)
        (.empty ⟨.empty, sourceCursor⟩)
      liftM (finish library debug remap findings)) := by
  unfold ofContainer finish
  refine bind_congr fun library => bind_congr fun debug => bind_congr fun remap =>
    bind_congr fun findings => ?_
  cases remapMethods remap findings.methods.toList with
  | error error => rfl
  | ok methods => cases decodeSourceServer library <;> rfl

/-- Each step may start with an empty cursor. -/
theorem run'_ofContainer_eq (paged : container.Paged) (options : DecodeOptions)
    (sourceCursor cursor : Cursor) :
    (ofContainer options container sourceCursor).run' cursor = (do
      let library ← (SourceLibrary.ofContainer container).run' .empty
      let debug ←
        (container.stage debugStreamIndex (DebugStream.read options.keepNames)).run' .empty
      let remap ← (decodeRemap container debug options).run' .empty
      let findings ← (debug.modules.foldlM (ModuleDescriptor.decode library options.keepNames)
        (.empty ⟨.empty, sourceCursor⟩)).run' .empty
      finish library debug remap findings) := by
  have hfindings : ∀ library : SourceLibrary, library.container = container → ∀ debug : DebugStream,
      (debug.modules.foldlM (ModuleDescriptor.decode library options.keepNames)
        (.empty ⟨.empty, sourceCursor⟩)).Steady := by
    rintro library rfl debug
    exact .foldlM (Staging.Steady.decodeModule paged options.keepNames) _ _
  rw [ofContainer_eq, Staging.Steady.run'_bind (fun library hlibrary => ?_) .empty,
    Staging.Steady.ofContainer paged cursor .empty]
  · cases hlibrary : (SourceLibrary.ofContainer container).run' .empty with
    | error error => rfl
    | ok library =>
      have hcontainer := SourceLibrary.container_of_ofContainer paged hlibrary
      rw [ok_bind, ok_bind, Staging.Steady.run'_bind (fun debug _ => ?_) .empty]
      · refine bind_congr fun debug => ?_
        rw [Staging.Steady.run'_bind (fun remap _ => ?_) .empty]
        · refine bind_congr fun remap => ?_
          rw [Staging.Steady.run'_bind (fun findings _ => .lift _) .empty]
          refine bind_congr fun findings => ?_
          cases finish library debug remap findings <;> rfl
        · exact (hfindings library hcontainer debug).bind fun findings => .lift _
      · exact (Staging.Steady.decodeRemap paged debug options).bind fun remap =>
          (hfindings library hcontainer debug).bind fun findings => .lift _
  · have hcontainer := SourceLibrary.container_of_ofContainer paged hlibrary
    exact (Staging.Steady.stage_index paged _ _).bind fun debug =>
      (Staging.Steady.decodeRemap paged debug options).bind fun remap =>
        (hfindings library hcontainer debug).bind fun findings => .lift _

/-! ### Two runs -/

/-- What is found in a file, with or without the table. -/
structure Found (keepNames : Bool) (image : ByteArray) (container : Container)
    (library : SourceLibrary) (debug : DebugStream) (findings : ModuleFindings SourceSession) :
    Prop where
  ofImage : Container.ofImage image = .ok container
  ofContainer : (SourceLibrary.ofContainer container).run' .empty = .ok library
  readDebug :
    (container.stage debugStreamIndex (DebugStream.read keepNames)).run' .empty = .ok debug
  decodeModules : (debug.modules.foldlM (ModuleDescriptor.decode library keepNames)
    (.empty ⟨.empty, .empty⟩)).run' .empty = .ok findings

section

variable {keepNames : Bool} {image : ByteArray} {library : SourceLibrary} {debug : DebugStream}
  {findings : ModuleFindings SourceSession} {info : DebugInfo} {remap : TokenRemap}

theorem exists_found {options : DecodeOptions} (h : decodeWith options image = .ok info) :
    ∃ container library debug findings,
      Found options.keepNames image container library debug findings := by
  obtain ⟨container, hcontainer, h⟩ := bind_eq_ok_iff.mp h
  rw [run'_ofContainer_eq (Container.paged_of_ofImage hcontainer)] at h
  obtain ⟨library, hlibrary, h⟩ := bind_eq_ok_iff.mp h
  obtain ⟨debug, hdebug, h⟩ := bind_eq_ok_iff.mp h
  obtain ⟨remap, -, h⟩ := bind_eq_ok_iff.mp h
  obtain ⟨findings, hfindings, -⟩ := bind_eq_ok_iff.mp h
  exact ⟨container, library, debug, findings, hcontainer, hlibrary, hdebug, hfindings⟩

namespace Found

/-- Once these are found, only the tokens and the script are left. -/
theorem decodeWith_eq (found : Found keepNames image container library debug findings)
    (applyTokenRemap : Bool) :
    decodeWith { keepNames, applyTokenRemap } image
      = (decodeRemap container debug { keepNames, applyTokenRemap }).run' .empty
        >>= fun remap => finish library debug remap findings := by
  rw [decodeWith, found.ofImage, ok_bind,
    run'_ofContainer_eq (Container.paged_of_ofImage found.ofImage), found.ofContainer, ok_bind]
  simp only [found.readDebug, ok_bind, found.decodeModules]

theorem tokenRemap_eq (found : Found keepNames image container library debug findings) :
    tokenRemap keepNames image
      = (decodeRemap container debug { keepNames, applyTokenRemap := true }).run' .empty := by
  rw [tokenRemap, found.ofImage, ok_bind, found.readDebug, ok_bind]

theorem decodeWith_raw (found : Found keepNames image container library debug findings) :
    decodeWith { keepNames, applyTokenRemap := false } image
      = finish library debug .identity findings := by
  rw [found.decodeWith_eq false, decodeRemap]
  cases debug.tokenRemapStream <;> rfl

end Found

theorem finish_eq_ok_iff : finish library debug remap findings = .ok info ↔
    ∃ renamed sourceServer, findings.methods.toList.mapM remap.apply = .ok renamed ∧
      decodeSourceServer library = .ok sourceServer ∧
      ofFindings library debug findings (Method.sort renamed).toArray sourceServer = info := by
  simp only [finish, remapMethods, bind_eq_ok_iff, pure, Except.pure, Except.ok.injEq]
  constructor
  · rintro ⟨_, ⟨renamed, hrenamed, rfl⟩, sourceServer, hserver, hinfo⟩
    exact ⟨renamed, sourceServer, hrenamed, hserver, hinfo⟩
  · rintro ⟨renamed, sourceServer, hrenamed, hserver, hinfo⟩
    exact ⟨_, ⟨renamed, hrenamed, rfl⟩, sourceServer, hserver, hinfo⟩

/-- Where the script can be read, only tokens can go wrong in the end. -/
theorem finish_eq_error_iff {sourceServer : String}
    (hserver : decodeSourceServer library = .ok sourceServer) {error : DecodeError} :
    finish library debug remap findings = .error error ↔
      findings.methods.toList.mapM remap.apply = .error error := by
  unfold finish remapMethods
  rw [hserver]
  cases findings.methods.toList.mapM remap.apply with
  | error error' =>
    constructor
    · intro h
      cases h
      rfl
    · intro h
      cases h
      rfl
  | ok renamed => exact ⟨nofun, nofun⟩

/-- What is decoded has an index of its own methods. -/
theorem indexed_of_decodeWith {options : DecodeOptions} (h : decodeWith options image = .ok info) :
    info.Indexed := by
  obtain ⟨container, library, debug, findings, found⟩ := exists_found h
  rw [found.decodeWith_eq options.applyTokenRemap] at h
  obtain ⟨remap, -, h⟩ := bind_eq_ok_iff.mp h
  obtain ⟨renamed, sourceServer, -, -, rfl⟩ := finish_eq_ok_iff.mp h
  rfl

end

/-- The same file with changed tokens.  Up to their order, the methods are the same but for their
tokens, and all else is the same.  Where no two tokens become one, the same imports are found. -/
structure RemappedFrom (remap : TokenRemap) (raw changed : DebugInfo) : Prop where
  methods : ∃ order, order.Perm raw.methods.toList ∧
    List.Forall₂ remap.Changes order changed.methods.toList
  others : changed = { raw with methods := changed.methods, lastOfToken := changed.lastOfToken }
  usingInfo : remap.InjectiveOn raw.linkTokens → ∀ method ∈ raw.methods.toList, ∃ newToken,
    remap.remap method.token = .ok newToken ∧
      Option.Rel remap.ChangesUsing (raw.usingInfo? method.token) (changed.usingInfo? newToken)

namespace SortedFrom

variable {remap : TokenRemap} {raw changed : DebugInfo} {found renamed : List Method}

theorem exists_order (sorted : SortedFrom remap raw changed found renamed) :
    ∃ order, order.Perm raw.methods.toList ∧
      List.Forall₂ remap.Changes order changed.methods.toList := by
  have hcomp : Relation.Comp (List.Forall₂ remap.Changes) List.Perm found
      (Method.sort renamed) := ⟨renamed, sorted.changes, (Method.perm_sort renamed).symm⟩
  rw [List.forall₂_comp_perm_eq_perm_comp_forall₂] at hcomp
  obtain ⟨order, hperm, hchanges⟩ := hcomp
  refine ⟨order, ?_, sorted.changed_methods ▸ hchanges⟩
  rw [sorted.raw_methods]
  exact hperm.symm.trans (Method.perm_sort found).symm

theorem usingInfo (sorted : SortedFrom remap raw changed found renamed)
    (injective : remap.InjectiveOn raw.linkTokens) {method : Method}
    (member : method ∈ raw.methods.toList) : ∃ newToken, remap.remap method.token = .ok newToken ∧
      Option.Rel remap.ChangesUsing (raw.usingInfo? method.token)
        (changed.usingInfo? newToken) := by
  have hfound : method ∈ found := by
    rw [sorted.raw_methods] at member
    exact (Method.perm_sort found).mem_iff.mp member
  obtain ⟨method', -, hchanges⟩ := exists_of_mem_of_forall₂ sorted.changes hfound
  exact ⟨method'.token, hchanges.token,
    sorted.usingInfo?_rel injective (token_mem_linkTokens member) hchanges.token⟩

end SortedFrom

/-- Decoding with the token remap table against decoding without it.  What is decoded with it can
be decoded without it, and differs in the tokens alone.  What is decoded without it can be decoded
with it, unless the row of some token of a method is beyond the table; then the error names such a
token. -/
theorem decodeWith_remap (keepNames : Bool) (image : ByteArray) :
    (∀ changed, decodeWith { keepNames, applyTokenRemap := true } image = .ok changed →
      ∃ remap raw, tokenRemap keepNames image = .ok remap ∧
        decodeWith { keepNames, applyTokenRemap := false } image = .ok raw ∧
        RemappedFrom remap raw changed) ∧
    ∀ remap raw, tokenRemap keepNames image = .ok remap →
      decodeWith { keepNames, applyTokenRemap := false } image = .ok raw →
        ((∃ error, decodeWith { keepNames, applyTokenRemap := true } image = .error error) ↔
          ∃ method ∈ raw.methods.toList, ∃ token ∈ method.tokens, ∃ error,
            remap.Refuses token error) ∧
        ∀ error, decodeWith { keepNames, applyTokenRemap := true } image = .error error →
          ∃ method ∈ raw.methods.toList, ∃ token ∈ method.tokens, remap.Refuses token error := by
  constructor
  · intro changed h
    obtain ⟨container, library, debug, findings, found⟩ := exists_found h
    rw [found.decodeWith_eq true] at h
    obtain ⟨remap, hremap, h⟩ := bind_eq_ok_iff.mp h
    obtain ⟨renamed, sourceServer, hrenamed, hserver, rfl⟩ := finish_eq_ok_iff.mp h
    have sorted : SortedFrom remap
        (ofFindings library debug findings (Method.sort findings.methods.toList).toArray
          sourceServer)
        (ofFindings library debug findings (Method.sort renamed).toArray sourceServer)
        findings.methods.toList renamed :=
      ⟨rfl, rfl, rfl, rfl,
        (forall₂_of_mapM_eq_ok hrenamed).imp fun _ _ => TokenRemap.changes_of_apply⟩
    refine ⟨remap, _, found.tokenRemap_eq.trans hremap, ?_, sorted.exists_order, rfl, ?_⟩
    · rw [found.decodeWith_raw]
      exact finish_eq_ok_iff.mpr ⟨_, sourceServer, TokenRemap.mapM_identity _, hserver, rfl⟩
    · exact fun injective method member => sorted.usingInfo injective member
  · intro remap raw htable h
    obtain ⟨container, library, debug, findings, found⟩ := exists_found h
    rw [found.tokenRemap_eq] at htable
    rw [found.decodeWith_raw] at h
    obtain ⟨same, sourceServer, hsame, hserver, rfl⟩ := finish_eq_ok_iff.mp h
    rw [TokenRemap.mapM_identity] at hsame
    cases hsame
    have hmember : ∀ method, method ∈ (Method.sort findings.methods.toList).toArray.toList ↔
        method ∈ findings.methods.toList := fun _ => (Method.perm_sort _).mem_iff
    have hfails : ∀ error, decodeWith { keepNames, applyTokenRemap := true } image = .error error ↔
        findings.methods.toList.mapM remap.apply = .error error := by
      intro error
      rw [found.decodeWith_eq true, htable, ok_bind, finish_eq_error_iff hserver]
    simp only [hfails, ofFindings, hmember]
    refine ⟨TokenRemap.refuses_iff_of_mapM, fun error h => ?_⟩
    obtain ⟨method, member, happly⟩ := exists_of_mapM_eq_error h
    obtain ⟨token, htoken, refuses⟩ := TokenRemap.exists_of_apply_eq_error happly
    exact ⟨method, member, token, htoken, refuses⟩

/-- Two methods, of which one points to the other, with new rows for both. -/
def forwardingDraft : ImageDraft where
  modules := [{
    ModuleDraft.ofName "a.obj" with
    symbols := some (SymbolRegion.ofCommands [
      .method 0x06000001 1 16 32 "a", .close 6,
      .method 0x06000002 1 64 32 "b", .metadata [.forward 0x06000001], .close 6]).bytes }]
  tokenRemap := some [0, 9, 8]

theorem decodeWith_remap_forwarding :
    ∃ changed remap raw, decodeWith {} forwardingDraft.image = .ok changed ∧
      tokenRemap true forwardingDraft.image = .ok remap ∧
      decodeWith { applyTokenRemap := false } forwardingDraft.image = .ok raw ∧
      RemappedFrom remap raw changed ∧
      changed.methods.toList.map Method.token = [0x06000009, 0x06000008] ∧
      ¬ ∃ method ∈ raw.methods.toList, ∃ token ∈ method.tokens, ∃ error,
        remap.Refuses token error := by
  have hnamed : ∀ descriptor ∈ forwardingDraft.modules,
      ZeroFree descriptor.name ∧ ZeroFree descriptor.objectName := by decide +kernel
  have writable : forwardingDraft.Writable [] := by
    constructor
    case hasNameTable => rfl
    case nameBuffer => rfl
    case names => exact nofun
    case streamNames => exact nofun
    case distinct => decide
    case reserved => exact nofun
    case modules =>
      intro descriptor member
      exact ⟨(hnamed descriptor member).1, (hnamed descriptor member).2⟩
    case lineSizes => decide +kernel
    case count => decide +kernel
    case fits =>
      exact ⟨⟨9, by decide, by decide, rfl⟩, by decide +kernel, by decide +kernel,
        by decide +kernel⟩
  have htokens : (forwardingDraft.decoded []).toOption.map
      (fun info => info.methods.toList.map Method.token) = some [0x06000009, 0x06000008] := by
    unfold ImageDraft.decoded ImageDraft.readModules ModuleDraft.readWith
      ModuleDescriptor.readStream ModuleDescriptor.readMethodsWithLines DebugInfo.remapMethods
    simp only [Method.sort_eq_insertSort]
    decide +kernel
  rw [← decode_image writable] at htokens
  cases hchanged : decode forwardingDraft.image with
  | error error =>
    rw [hchanged] at htokens
    cases htokens
  | ok changed =>
    rw [hchanged] at htokens
    obtain ⟨hremapped, hfails⟩ := decodeWith_remap true forwardingDraft.image
    obtain ⟨remap, raw, hremap, hraw, remapped⟩ := hremapped changed hchanged
    refine ⟨changed, remap, raw, hchanged, hremap, hraw, remapped, Option.some.inj htokens, ?_⟩
    intro refused
    obtain ⟨error, herror⟩ := (hfails remap raw hremap hraw).1.mpr refused
    have hdone : decodeWith { keepNames := true, applyTokenRemap := true } forwardingDraft.image
        = .ok changed := hchanged
    rw [hdone] at herror
    cases herror

end DebugInfo

end ManagedPdb
