import ManagedPdb.Proofs.DebugInfo.SourceSharing
import ManagedPdb.Proofs.Report.CheckedSums
import ManagedPdb.Proofs.Symbol.Located

/-!
# The ends of scopes in reports

Decoding makes sure of the offset of a scope, but it takes the length of a block as it stands in the
file, so that the end of the scope may not fit into a word.  Then a report shows the low part of it,
which is less than the offset, and a report that checks its sums (`Report.dump?`) faults.
-/

namespace ManagedPdb

/-! ### Where scopes start -/

namespace DebugInfo

variable {options : DecodeOptions} {image : ByteArray} {info : DebugInfo} {library : SourceLibrary}
  {remap : TokenRemap} {readings : List ModuleReading} {session : SourceSession}

/-- Every method of a file stands in the stream of a module, but for its lines and its tokens. -/
theorem MadeOf.exists_raw (made : MadeOf options image info library remap readings session)
    {method : Method} (member : method ∈ info.methods.toList) :
    ∃ reading ∈ readings, ∃ raw ∈ reading.found,
      (readMethods reading.descriptor.symbolsEnd options.keepNames).run reading.content
        = .ok reading.found ∧
      remap.apply { raw with lines := method.lines } = .ok method := by
  obtain ⟨reading, hreading, lined, hlined, happly, hlines⟩ := made.exists_lined member
  obtain ⟨_, _, reads⟩ := made.readAll.exists_reads hreading
  have hname : reading.descriptor.name ≠ tokenLineModule := by
    intro hname
    rw [(reads.tokenLines hname).2.2] at hlined
    cases hlined
  obtain ⟨traces, ofModule⟩ := TracedMethod.exists_ofModule reads hname 0
  rw [← ofModule.lined] at hlined
  obtain ⟨traced, htraced, rfl⟩ := List.mem_map.mp hlined
  have hraw : (traced.raw, traced.place) ∈ reading.found.zipIdx :=
    ofModule.found.mem_iff.mp (List.mem_map_of_mem htraced)
  refine ⟨reading, hreading, traced.raw, List.fst_mem_of_mem_zipIdx hraw,
    (reads.methods hname).1, ?_⟩
  rw [hlines, ← ofModule.lines traced htraced]
  exact happly

theorem located_of_decodeWith (h : decodeWith options image = .ok info) :
    ∀ method ∈ info.methods.toList, method.Located := by
  obtain ⟨library, remap, readings, session, made⟩ := exists_madeOf h
  intro method member
  obtain ⟨reading, -, raw, hraw, hfound, happly⟩ := made.exists_raw member
  have located := (located_readMethods _ _).run hfound raw hraw
  rw [(TokenRemap.changes_of_apply happly).others]
  exact ⟨located.offset_eq, located.length_eq, located.starts⟩

end DebugInfo

/-! ### Reports -/

namespace DebugInfo

open Report

/-- In a file that is decoded, all scopes start inside the address space and the scope of a whole
body fits.  Of any scope, a report shows the end if that fits, and else a number that is less than
the start; with sums that are checked, it is the same report if all ends fit, and else it faults. -/
theorem scopes_reported (idText : Guid → UInt32 → String) {options : DecodeOptions}
    {image : ByteArray} {info : DebugInfo} (h : decodeWith options image = .ok info) :
    (∀ method ∈ info.methods.toList, method.Located ∧ method.scope.Fits) ∧
    (∀ method ∈ info.methods.toList, ∀ scope ∈ method.scope.walk,
      (∀ depth, (scopeLines depth scope).head?
          = some (rangeLine depth scope.offset.toNat (scope.offset.toNat + scope.length.toNat)) ↔
        scope.Fits) ∧
      (¬ scope.Fits → scope.offset + scope.length < scope.offset)) ∧
    (∀ method ∈ info.methods.toList, methodLines? info method
      = if ∀ scope ∈ method.scope.walk, scope.Fits then some (methodLines info method)
        else none) ∧
    dump? info idText
      = if ∀ method ∈ info.methods.toList, ∀ scope ∈ method.scope.walk, scope.Fits then
          some (ofInfo info none idText)
        else none := by
  refine ⟨fun method member => ?_, fun _ _ scope _ => ?_, fun method _ => ?_, dump?_eq info idText⟩
  · have located := located_of_decodeWith h method member
    refine ⟨located, ?_⟩
    rw [Scope.Fits, located.offset_eq]
    show 0 + method.scope.length.toNat < 2 ^ 32
    rw [Nat.zero_add]
    exact method.scope.length.toNat_lt
  · exact ⟨fun depth => head?_scopeLines_iff depth scope, end_lt_offset⟩
  · exact methodLines?_eq info method

/-- A block whose length takes its end out of the 32 bits. -/
def overflowDraft : ImageDraft where
  modules := [{
    ModuleDraft.ofName "a.obj" with
    symbols := some (SymbolRegion.ofCommands [
      .method 0x06000001 1 16 32 "a", .block 32 0xfffffff8, .close 6, .close 6]).bytes }]

theorem exists_ranges_overflowDraft :
    ∃ info, decode overflowDraft.image = .ok info ∧
      info.methods.toList.map (fun method =>
          (method.scope.outline 0).map fun entry => (entry.2.offset, entry.2.length))
        = [[(0, 32), (16, 0xfffffff8)]] := by
  have writable : overflowDraft.Writable [] :=
    .of_modules rfl rfl rfl rfl nofun (by decide +kernel) (by decide +kernel) (by decide +kernel)
      (by decide +kernel) (by decide +kernel)
  apply exists_decode_image writable
  unfold ImageDraft.decoded ImageDraft.readModules ModuleDraft.readWith
    ModuleDescriptor.readStream ModuleDescriptor.readMethodsWithLines remapMethods
  simp only [Method.sort_eq_insertSort]
  decide +kernel

/-- The block is in a method of the file, and its end does not fit. -/
theorem exists_block_overflowDraft :
    ∃ info, decode overflowDraft.image = .ok info ∧ ∃ method ∈ info.methods.toList,
      ∃ scope ∈ method.scope.walk, scope.offset = 16 ∧ scope.length = 0xfffffff8 ∧
        ¬ scope.Fits := by
  obtain ⟨info, hinfo, hranges⟩ := exists_ranges_overflowDraft
  obtain ⟨method, others, hmethods, hrange, -⟩ := List.map_eq_cons_iff.mp hranges
  have hmember : ((16, 0xfffffff8) : UInt32 × UInt32)
      ∈ (method.scope.outline 0).map fun entry => (entry.2.offset, entry.2.length) := by
    simp [hrange]
  obtain ⟨entry, hentry, hpair⟩ := List.mem_map.mp hmember
  obtain ⟨hoffset, hlength⟩ := Prod.mk.inj hpair
  refine ⟨info, hinfo, method, by simp [hmethods], entry.2, ?_, hoffset, hlength, ?_⟩
  · rw [Scope.walk_eq_outline]
    exact List.mem_map_of_mem hentry
  · rw [Scope.Fits, hoffset, hlength]
    decide

/-- The report on the file with a block that is too long faults if it checks its sums. -/
theorem scopes_reported_overflowDraft :
    ∃ info, decode overflowDraft.image = .ok info ∧
      (∀ method ∈ info.methods.toList, method.Located ∧ method.scope.Fits) ∧
      dump? info debugIdText = none := by
  obtain ⟨info, hinfo, method, member, scope, hscope, -, -, hfits⟩ := exists_block_overflowDraft
  obtain ⟨hlocated, -, -, hdump⟩ := scopes_reported debugIdText hinfo
  refine ⟨info, hinfo, hlocated, hdump.trans (if_neg fun hall => ?_)⟩
  exact hfits (hall method member scope hscope)

/-- The block that is too long ends at 8 by the report, in front of its start. -/
theorem not_fits_overflowDraft :
    ∃ info, decode overflowDraft.image = .ok info ∧ ∃ method ∈ info.methods.toList,
      ∃ scope ∈ method.scope.walk, ¬ scope.Fits ∧
        (scopeLines 1 scope).head? = some "      scope +0x10..+0x8" := by
  obtain ⟨info, hinfo, method, member, scope, hscope, hoffset, hlength, hfits⟩ :=
    exists_block_overflowDraft
  refine ⟨info, hinfo, method, member, scope, hscope, hfits, ?_⟩
  rw [scopeLines_eq, List.head?_cons, hoffset, hlength]
  decide +kernel

end DebugInfo

end ManagedPdb
