import ManagedPdb.Proofs.DebugInfo.Reordering
import ManagedPdb.Proofs.Draft.Decoded

/-!
# Drafts with relisted modules

The streams of a draft are kept, and only the debug information stream is written anew: with the
modules in another order, and with any stream as the table of new tokens (`ImageDraft.relisted`).
Files that are written so differ in the order of their modules alone
(`ImageDraft.Writable.reordered`).
-/

namespace ManagedPdb.ImageDraft

variable {draft : ImageDraft} {names : List String}
  {modules modules' : List (ModuleDraft × Option UInt16)} {remap : Option UInt16}

/-- The draft with other modules in its list. -/
def listing (draft : ImageDraft) (modules : List (ModuleDraft × Option UInt16)) : ImageDraft :=
  { draft with modules := modules.map Prod.fst }

/-- The streams of the draft with the given modules, which have the given streams, in the debug
information stream. -/
def relisted (draft : ImageDraft) (modules : List (ModuleDraft × Option UInt16))
    (remap : Option UInt16) : Streams :=
  draft.streams.set 3 ((draft.listing modules).debugStream (modules.map Prod.snd) remap)

/-- What that debug information stream says. -/
def listed (draft : ImageDraft) (modules : List (ModuleDraft × Option UInt16))
    (remap : Option UInt16) : DebugStream where
  age := draft.debugAge
  modules := writtenModules modules
  tokenRemapStream := remap.bind streamOfField

/-- The modules as the draft lists them itself. -/
theorem relisted_numberedModules (draft : ImageDraft) :
    draft.relisted draft.numberedModules
        (draft.remapStream?.map fun _ => UInt16.ofNat draft.remapNumber)
      = draft.streams := by
  have hlisting : draft.listing draft.numberedModules = draft := by
    rw [listing, numberedModules, List.map_fst_zip (by simp)]
  have hstreams : draft.numberedModules.map Prod.snd
      = moduleStreamNumbers (4 + draft.allNamedStreams.length) draft.modules := by
    rw [numberedModules, List.map_snd_zip (by simp)]
  rw [relisted, hlisting, hstreams, streams_eq]
  rfl

theorem content_relisted {index : UInt32} (hindex : index ≠ debugStreamIndex) :
    Streams.content (draft.relisted modules remap) index
      = Streams.content draft.streams index := by
  have hne : (3 : Nat) ≠ index.toNat := fun h => hindex (UInt32.toNat_inj.mp h.symm)
  rw [Streams.content, relisted, List.getElem?_set_ne hne, Streams.content]

namespace Writable

/-- Named streams stand behind the debug information stream. -/
theorem stream?_ne (writable : draft.Writable names) {name : String} {index : UInt32}
    (h : (draft.identity draft.numberedNames).stream? name = some index) :
    index ≠ debugStreamIndex := by
  by_cases hname : ∃ stream ∈ draft.numberedNames, Upper.ofString stream.1 = Upper.ofString name
  · obtain ⟨stream, member, hname⟩ := hname
    rw [draft.stream?_identity_of_mem writable.distinct_numbered member hname] at h
    cases h
    obtain ⟨place, hplace⟩ := List.getElem?_of_mem member
    rw [numberedNames_getElem?, Option.map_eq_some_iff] at hplace
    obtain ⟨named, hnamed, rfl⟩ := hplace
    have hlt := (List.getElem?_eq_some_iff.mp hnamed).1
    have hcount := writable.count
    rw [streams_eq] at hcount
    simp only [List.length_append, List.length_map, List.length_cons] at hcount
    have hsmall : 4 + place < 65535 := by omega
    intro hindex
    have hnat : (UInt32.ofNat (4 + place)).toNat = 3 := congrArg UInt32.toNat hindex
    rw [UInt32.toNat_ofNat_of_lt' (Nat.lt_trans hsmall (by decide))] at hnat
    omega
  · rw [draft.stream?_identity_of_not_mem (by simpa using hname)] at h
    cases h

/-- The other streams are those of the draft. -/
theorem ofStreams_relisted (writable : draft.Writable names) :
    StreamLibrary.ofStreams (draft.relisted modules remap)
      = .ok { draft.library names with streams := draft.relisted modules remap } := by
  rw [StreamLibrary.ofStreams, content_relisted (by decide), ← bind_assoc, writable.infoStream_run,
    ok_bind]
  simp only [writable.stream?_nameTable]
  rw [content_relisted (by decide), ← bind_assoc, writable.nameTable_run]
  rfl

/-- A draft without a script has none in any order. -/
theorem sourceServer_relisted (writable : draft.Writable names)
    (noScript : draft.contentOf? "SRCSRV" = none) :
    StreamLibrary.sourceServer { draft.library names with streams := draft.relisted modules remap }
      = .ok "" := by
  unfold StreamLibrary.sourceServer
  rcases writable.stream?_cases "SRCSRV" with ⟨_, _, -, -, hsome⟩ | ⟨hindex, -⟩
  · rw [noScript] at hsome
    cases hsome
  · simp only [library, hindex]

theorem debugStream_relisted (writable : draft.Writable names)
    (listed : ∀ entry ∈ modules, entry.1 ∈ draft.modules)
    (fits : Layout.Fits draft.pageSize (draft.relisted modules remap)) :
    Streams.content (draft.relisted modules remap) debugStreamIndex >>= (DebugStream.read true).run
      = .ok (draft.listed modules remap) := by
  have hnamed : ∀ descriptor ∈ (draft.listing modules).modules, descriptor.Named := by
    intro descriptor member
    obtain ⟨entry, hentry, rfl⟩ := List.mem_map.mp member
    exact writable.modules entry.1 (listed entry hentry)
  have hplace : (draft.relisted modules remap)[3]?
      = some ((draft.listing modules).debugStream (modules.map Prod.snd) remap) := by
    rw [relisted, List.getElem?_set_self]
    rw [streams_eq]
    simp
  have hcontent : Streams.content (draft.relisted modules remap) debugStreamIndex
      = .ok ((draft.listing modules).debugStream (modules.map Prod.snd) remap) := by
    rw [Streams.content, show debugStreamIndex.toNat = 3 from rfl, hplace]
  have hsize := fits.sizes _ (List.mem_of_getElem? hplace)
  have hzip : (draft.listing modules).modules.zip (modules.map Prod.snd) = modules := by
    rw [listing, List.zip_map']
    exact List.map_id modules
  rw [hcontent, ok_bind, (reads_debugStream hnamed (modules.map Prod.snd) remap (by omega)).run_eq,
    hzip]
  rfl

end Writable

/-! ### Two orders -/

namespace Writable

variable {options : DecodeOptions} {container container' : Container}

theorem debugStream_eq (writable : draft.Writable names)
    (listed : ∀ entry ∈ modules, entry.1 ∈ draft.modules)
    (fits : Layout.Fits draft.pageSize (draft.relisted modules remap))
    (holds : container.Holds (draft.relisted modules remap)) :
    container.debugStream true = .ok (draft.listed modules remap) := by
  rw [Container.debugStream, holds.content_eq]
  exact writable.debugStream_relisted listed fits

/-- Files with the same modules in two orders. -/
theorem reordered (writable : draft.Writable names) (perm : modules.Perm modules')
    (listed : ∀ entry ∈ modules, entry.1 ∈ draft.modules)
    (fits : Layout.Fits draft.pageSize (draft.relisted modules remap))
    (fits' : Layout.Fits draft.pageSize (draft.relisted modules' remap))
    (holds : container.Holds (draft.relisted modules remap))
    (holds' : container'.Holds (draft.relisted modules' remap)) :
    Reordered true container container' (draft.listed modules remap)
      (draft.listed modules' remap) where
  streams := by
    intro index hindex content
    rw [holds.content_eq, holds'.content_eq, content_relisted hindex, content_relisted hindex]
  debugStream := writable.debugStream_eq listed fits holds
  debugStream' := writable.debugStream_eq
    (fun entry member => listed entry (perm.mem_iff.mpr member)) fits' holds'
  modules := perm.map _
  others := rfl

theorem infoStream_eq (writable : draft.Writable names)
    (holds : container.Holds (draft.relisted modules remap)) :
    container.infoStream = .ok (draft.identity draft.numberedNames) := by
  rw [Container.infoStream, holds.content_eq, content_relisted (by decide),
    writable.infoStream_run]

/-- The debug information stream is no other stream if neither a module nor the table of new tokens
has its number. -/
theorem debugStreamApart (writable : draft.Writable names) (paged : container.Paged)
    (holds : container.Holds (draft.relisted modules remap))
    (hremap : remap.bind streamOfField ≠ some debugStreamIndex)
    (hmodules : ∀ entry ∈ modules, (entry.1.written entry.2).stream? ≠ some debugStreamIndex) :
    DebugStreamApart options container (draft.listed modules remap) where
  nameTable := by
    intro info hinfo h
    rw [writable.infoStream_eq holds] at hinfo
    cases hinfo
    exact writable.stream?_ne h rfl
  tokenRemap _ := hremap
  modules := by
    intro descriptor member h
    obtain ⟨entry, hentry, rfl⟩ := List.mem_map.mp member
    exact absurd h (hmodules entry hentry)
  sources := by
    intro library hlibrary descriptor _ record _ name _ h
    have hinfo := ((SourceLibrary.ofContainer_eq_ok_iff paged).mp hlibrary).2.1
    rw [writable.infoStream_eq holds] at hinfo
    rw [← Except.ok.inj hinfo] at h
    exact writable.stream?_ne h rfl

/-- The records of a reading are those of the module that was written. -/
theorem exists_records (writable : draft.Writable names) {library : SourceLibrary}
    (holds : library.container.Holds (draft.relisted modules remap))
    (numbered : modules ⊆ draft.numberedModules)
    (hmodules : ∀ entry ∈ modules, (entry.1.written entry.2).stream? ≠ some debugStreamIndex)
    {reading : ModuleReading} {keepNames : Bool} {sources last : SourceSession}
    (reads : reading.Reads library keepNames sources last)
    (member : reading.descriptor ∈ writtenModules modules) :
    ∃ entry ∈ modules, ∃ content, entry.1.stream? = some content ∧
      (ChecksumRecord.readAll (entry.1.written entry.2).linesStart
        (entry.1.written entry.2).linesEnd).run content = .ok reading.records := by
  obtain ⟨entry, hentry, hwritten⟩ := List.mem_map.mp member
  obtain ⟨index, hstream, hcontent⟩ := reads.stream
  have hrecords := reads.records
  rw [← hwritten] at hstream hrecords
  rw [holds.content_eq, content_relisted fun h => hmodules entry hentry (h ▸ hstream)] at hcontent
  rcases writable.module_cases entry (numbered hentry)
    with ⟨-, hnone⟩ | ⟨index', content, hmodule, hstream', hread, -⟩
  · rw [hstream] at hnone
    cases hnone
  · rw [hstream] at hstream'
    cases hstream'
    rw [hread] at hcontent
    cases hcontent
    exact ⟨entry, hentry, _, hmodule, hrecords⟩

end Writable

end ManagedPdb.ImageDraft
