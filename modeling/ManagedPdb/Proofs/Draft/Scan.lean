import ManagedPdb.Proofs.Draft.Decoded
import ManagedPdb.Proofs.Draft.SourceStream

/-!
# Drafts of which the kernel can evaluate what they say

What a draft says depends on the loader of its source files only in how the loader keeps the files
that it has found (`ImageDraft.readModules_sim`).  A loader that keeps them in a list
(`ImageDraft.scan`) finds the same files at the same places as the one with a table, and with it the
kernel can evaluate what a draft says.  What is said so is said of the file that is written from the
draft (`ImageDraft.Writable.exists_decode_of_scan`).
-/

namespace ManagedPdb

/-! ### Other loaders -/

section

variable {σ τ : Type} {Excused : DecodeError → Prop}

/-- Loaders that do the same let a module say the same. -/
theorem ModuleDraft.readWith_sim {Related : σ → τ → Prop} {load : SourceLoader σ}
    {load' : SourceLoader τ} (hload : LoaderSim Excused Related load load')
    (descriptor : ModuleDraft) {findings : ModuleFindings σ} {findings' : ModuleFindings τ}
    (agree : findings.Agree Related findings') :
    ResultSim Excused (ModuleFindings.Agree Related) (descriptor.readWith load findings)
      (descriptor.readWith load' findings') := by
  unfold readWith
  cases descriptor.stream? with
  | none => exact .ok agree
  | some content => exact (ModuleDescriptor.readStream_sim hload _ true agree).run content

theorem ImageDraft.readModules_sim (draft : ImageDraft) {Related : σ → τ → Prop}
    {load : SourceLoader σ} {load' : SourceLoader τ} (hload : LoaderSim Excused Related load load')
    {sources : σ} {sources' : τ} (related : Related sources sources') :
    ResultSim Excused (ModuleFindings.Agree Related) (draft.readModules load sources)
      (draft.readModules load' sources') := by
  refine .foldlM draft.modules ?_ ⟨rfl, rfl, related⟩
  intro descriptor _ findings findings' agree
  exact descriptor.readWith_sim hload agree

end

/-! ### Files in a list -/

namespace SourceTable

theorem find?_add_iff {table : SourceTable} {new : SourceFile} {name : String} {ref : SourceRef} :
    (table.add new).2.find? name = some ref ↔
      if new.name = name then ref = (table.add new).1 else table.find? name = some ref := by
  rw [find?, add, Std.HashMap.getElem?_insert]
  by_cases hname : new.name = name
  · rw [if_pos (beq_iff_eq.mpr hname), if_pos hname, Option.map_some, Option.some_inj]
    exact eq_comm
  · rw [if_neg (by simpa using hname), if_neg hname]
    rfl

/-- The files of the table in a list, where they are found in their order. -/
structure Lists (table : SourceTable) (files : List SourceFile) : Prop where
  toList : table.files.toList = files
  find : ∀ name, table.find? name = (files.findIdx? (·.name == name)).map SourceRef.mk

theorem Lists.empty : SourceTable.empty.Lists [] where
  toList := rfl
  find name := by simp [find?, SourceTable.empty]

theorem Lists.add {table : SourceTable} {files : List SourceFile} (lists : table.Lists files)
    {file : SourceFile} (hfind : table.find? file.name = none) :
    (table.add file).1 = ⟨files.length⟩ ∧ (table.add file).2.Lists (files ++ [file]) := by
  have hsize : table.files.size = files.length := by rw [← lists.toList, Array.length_toList]
  refine ⟨congrArg SourceRef.mk hsize, ?_, fun name => Option.ext fun ref => ?_⟩
  · rw [SourceTable.add, Array.toList_push, lists.toList]
  · rw [find?_add_iff, List.findIdx?_append, lists.find]
    by_cases hname : file.name = name
    · rw [lists.find, hname, Option.map_eq_none_iff] at hfind
      rw [if_pos hname, hfind]
      simp [hname, SourceTable.add, hsize, eq_comm]
    · rw [if_neg hname]
      simp [hname]

end SourceTable

namespace ImageDraft

variable {draft : ImageDraft} {names : List String}

theorem name_of_describe {file file' : SourceFile} (h : draft.describe file = .ok file') :
    file'.name = file.name := by
  unfold describe at h
  split at h
  · cases h
    rfl
  · split at h
    · cases h
      rfl
    · exact SourceFile.name_of_readStream h

/-- The names by their numbers. -/
def numberedList (names : List String) : List (UInt32 × String) :=
  (nameEntries names).map fun entry => (UInt32.ofNat entry.1, entry.2)

/-- The loader of a draft that looks for names and for files in lists. -/
def scan (draft : ImageDraft) (names : List String) : SourceLoader (List SourceFile) :=
  fun nameId checksumKind checksum files =>
    match (numberedList names).lookup nameId with
    | none => .error (.ofKind (.unknownName nameId))
    | some name =>
      match files.findIdx? (·.name == name) with
      | some index => .ok (⟨index⟩, files)
      | none => do
        let file ← draft.describe { SourceFile.ofName name with checksumKind, checksum }
        return (⟨files.length⟩, files ++ [file])

theorem scan_sim (writable : draft.Writable names) :
    LoaderSim (fun _ => True) (fun files table => table.Lists files) (draft.scan names)
      (draft.load names) := by
  intro nameId kind checksum files table lists
  unfold scan load
  cases hlookup : (numberedList names).lookup nameId with
  | none => exact .excused _ trivial
  | some name =>
    have hmember : (nameId, name) ∈ numberedList names := by
      obtain ⟨before, after, hlist, -⟩ := List.lookup_eq_some_iff.mp hlookup
      simp [hlist]
    have hname : (nameTable names).name? nameId = some name := by
      obtain ⟨⟨offset, _⟩, hentry, hnumber⟩ := List.mem_map.mp hmember
      cases hnumber
      exact (name?_nameTable_eq_some_iff writable.size_bufferOf_lt).mpr ⟨offset, hentry, rfl⟩
    rw [hname]
    dsimp only
    rw [lists.find]
    cases hfind : files.findIdx? (·.name == name) with
    | some index => exact .ok ⟨rfl, lists⟩
    | none =>
      dsimp only [Option.map_none]
      cases hdescribe :
          draft.describe { SourceFile.ofName name with checksumKind := kind, checksum } with
      | error error => exact .error error
      | ok file =>
        have hfileName : file.name = name := name_of_describe hdescribe
        have hnew : table.find? file.name = none := by rw [lists.find, hfileName, hfind]; rfl
        obtain ⟨href, hlists⟩ := lists.add hnew
        exact .ok ⟨href.symm, hlists⟩

/-- The methods, token lines and source files that the draft says, with its files in a list. -/
def scanned (draft : ImageDraft) (names : List String) :
    Option (List Method × TokenLines × List SourceFile) := do
  let findings ← (draft.readModules (draft.scan names) []).toOption
  let methods ← (DebugInfo.remapMethods draft.remap findings.methods.toList).toOption
  return (methods.toList, findings.tokenLines, findings.sources)

/-- What is said of methods, token lines and source files is said of the file, whose modules are
those of the draft. -/
theorem Writable.exists_decode_of_scan (writable : draft.Writable names) {α : Type}
    {say : List Method × TokenLines × List SourceFile → α} {said : α}
    (h : (draft.scanned names).map say = some said) :
    ∃ info, DebugInfo.decode draft.image = .ok info ∧
      info.modules = writtenModules draft.numberedModules ∧
      say (info.methods.toList, info.tokenLines, info.sources.toList) = said := by
  have hsim := draft.readModules_sim (scan_sim writable) .empty
  unfold scanned at h
  cases hfindings : draft.readModules (draft.scan names) [] with
  | error error =>
    rw [hfindings] at h
    cases h
  | ok findings =>
    rw [hfindings] at h hsim
    generalize hload : draft.readModules (draft.load names) .empty = loaded at hsim
    cases hsim with | ok agree =>
    next loaded =>
    obtain ⟨hmethods, hlines, lists⟩ := agree
    cases hremap : DebugInfo.remapMethods draft.remap findings.methods.toList with
    | error error =>
      rw [Except.toOption, Option.bind_eq_bind, Option.bind_some, hremap] at h
      cases h
    | ok methods =>
      rw [Except.toOption, Option.bind_eq_bind, Option.bind_some, hremap] at h
      rw [DebugInfo.decode_image writable, decoded, hload, ok_bind, ← hmethods, hremap, ok_bind]
      refine ⟨_, rfl, rfl, ?_⟩
      rw [lists.toList, ← hlines]
      exact Option.some.inj h

end ImageDraft

end ManagedPdb
