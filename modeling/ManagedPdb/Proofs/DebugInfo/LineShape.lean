import ManagedPdb.Proofs.DebugInfo.SourceSharing
import ManagedPdb.Proofs.Line.Shape

/-!
# The shape of the lines of a file

A search in the lines of a method wants one table for each source file, with its entries in the
order of their offsets.  The lines of a method are the blocks of one subsection of its place, as
they stand there; so they are in shape if the subsection is, and only then
(`DebugInfo.lines_inShape_iff`).
-/

namespace ManagedPdb

/-- The lines subsections of a module that are not to be passed over. -/
def ModuleReading.LinesFrames (reading : ModuleReading) (frames : List Subsection) : Prop :=
  (Subsection.readKind Subsection.linesKind reading.descriptor.linesStart
    reading.descriptor.linesEnd).run reading.content = .ok frames

theorem ModuleReading.Reads.linesFrame {library : SourceLibrary} {keepNames : Bool}
    {sources sources' : SourceSession} {reading : ModuleReading}
    (reads : reading.Reads library keepNames sources sources') {method : Method}
    (member : method ∈ reading.lined) :
    method.lines = [] ∨ ∃ frames, reading.LinesFrames frames ∧ ∃ lines : LinesFrame,
      lines.frame ∈ frames ∧ lines.IsAt reading.content ∧ lines.site = method.site ∧
      lines.tables reading.content reading.checksums = method.lines := by
  by_cases hname : reading.descriptor.name = tokenLineModule
  · rw [(reads.tokenLines hname).2.2] at member
    cases member
  · obtain ⟨hfound, hlined, -⟩ := reads.methods hname
    obtain ⟨last, hlined⟩ := Reader.run_eq_ok_iff.mp hlined
    have hnone : ∀ method ∈ Method.sort reading.found, method.lines = [] := fun method member =>
      (lines_of_readMethods _ _).run hfound method ((Method.perm_sort _).mem_iff.mp member)
    obtain ⟨frames, behind, hframes, hlines⟩ :=
      linesFrame_of_readLines (Method.sortedBySite_sort reading.found) hnone hlined
    rcases hlines method member with hempty | hframe
    · exact .inl hempty
    · exact .inr ⟨frames, Reader.run_eq_ok_iff.mpr ⟨behind, hframes⟩, hframe⟩

namespace DebugInfo

/-- A method of a file that is decoded has no lines, or it has one table for each block of a lines
subsection of its place, in their order.  Its tables are of different files and in the order of
their offsets if the blocks are stored so, and only then. -/
theorem lines_inShape_iff {options : DecodeOptions} {image : ByteArray} {info : DebugInfo}
    (h : decodeWith options image = .ok info) :
    ∃ library remap readings session, MadeOf options image info library remap readings session ∧
      ∀ method ∈ info.methods.toList, method.lines = [] ∨
        ∃ reading ∈ readings, ∃ frames, reading.LinesFrames frames ∧
          ∃ lines : LinesFrame, lines.frame ∈ frames ∧ lines.IsAt reading.content ∧
            lines.site = method.site ∧
            method.lines = lines.tables reading.content reading.checksums ∧
            (LineTable.InShape method.lines ↔
              LineTable.StoredInShape reading.content lines.starts) := by
  obtain ⟨library, remap, readings, session, made⟩ := exists_madeOf h
  refine ⟨library, remap, readings, session, made, fun method member => ?_⟩
  obtain ⟨reading, hreading, lined, hlined, happly, hlines⟩ := made.exists_lined member
  obtain ⟨_, _, reads⟩ := made.readAll.exists_reads hreading
  have hsite : method.site = lined.site := by
    rw [(TokenRemap.changes_of_apply happly).others]
    rfl
  rw [hlines, hsite]
  rcases reads.linesFrame hlined with
    hnone | ⟨frames, hframes, lines, hframe, hisAt, hplace, htables⟩
  · exact .inl hnone
  · refine .inr ⟨reading, hreading, frames, hframes, lines, hframe, hisAt, hplace, htables.symm, ?_⟩
    rw [← htables]
    exact lines.tables_inShape_iff

/-- Two methods, the first of which has its lines in shape.  The second has two blocks of one source
file, the first of which goes back. -/
def backwardDraft : ImageDraft where
  modules := [
    { ModuleDraft.ofName "a.obj" with
      symbols := some (SymbolRegion.ofCommands [.method 0x06000001 1 16 32 "a", .close 6,
        .method 0x06000002 1 64 32 "b", .close 6]).bytes
      lines := (LineRegion.ofCommands [
        .lines ⟨1, 16, 32, [⟨0, [.single 0 5]⟩, ⟨8, [.single 2 6, .single 2 7]⟩], false⟩,
        .lines ⟨1, 64, 32, [⟨0, [.single 8 10, .single 4 11]⟩, ⟨0, [.single 0 12]⟩],
          false⟩]).bytes }]

theorem outlines_backwardDraft :
    ∃ info, decodeWith {} backwardDraft.image = .ok info ∧
      info.methods.toList.map (fun method => method.lines.map LineTable.outline)
        = [[(0, [0]), (8, [2, 2])], [(0, [8, 4]), (0, [0])]] := by
  have writable : backwardDraft.Writable [] :=
    .of_modules rfl rfl rfl rfl nofun (by decide +kernel) (by decide +kernel) (by decide +kernel)
      (by decide +kernel) (by decide +kernel)
  have hlines : (backwardDraft.decoded []).toOption.map (fun info =>
      info.methods.toList.map fun method => method.lines.map LineTable.outline)
        = some [[(0, [0]), (8, [2, 2])], [(0, [8, 4]), (0, [0])]] := by
    unfold ImageDraft.decoded ImageDraft.readModules ModuleDraft.readWith
      ModuleDescriptor.readStream ModuleDescriptor.readMethodsWithLines DebugInfo.remapMethods
    simp only [Method.sort_eq_insertSort]
    decide +kernel
  rw [← decode_image writable] at hlines
  cases hinfo : decode backwardDraft.image with
  | error error =>
    rw [hinfo] at hlines
    cases hlines
  | ok info =>
    rw [hinfo] at hlines
    exact ⟨info, hinfo, Option.some.inj hlines⟩

/-- The first method has blocks that are stored in shape, and the second one has others. -/
theorem lines_inShape_iff_backwardDraft :
    ∃ info, decodeWith {} backwardDraft.image = .ok info ∧
      ∃ (first second : Method) (readings : List ModuleReading),
        info.methods.toList = [first, second] ∧
        (∃ reading ∈ readings, ∃ lines : LinesFrame, lines.IsAt reading.content ∧
          first.lines = lines.tables reading.content reading.checksums ∧
          LineTable.StoredInShape reading.content lines.starts) ∧
        ∃ reading ∈ readings, ∃ lines : LinesFrame, lines.IsAt reading.content ∧
          second.lines = lines.tables reading.content reading.checksums ∧
          ¬ LineTable.StoredInShape reading.content lines.starts := by
  obtain ⟨info, hinfo, hlines⟩ := outlines_backwardDraft
  obtain ⟨first, rest, hmethods, hfirst, hrest⟩ := List.map_eq_cons_iff.mp hlines
  obtain ⟨second, none, rfl, hsecond, hnone⟩ := List.map_eq_cons_iff.mp hrest
  obtain rfl := List.map_eq_nil_iff.mp hnone
  obtain ⟨library, remap, readings, session, -, hall⟩ := lines_inShape_iff hinfo
  refine ⟨info, hinfo, first, second, readings, hmethods, ?_, ?_⟩
  · rcases hall first (by simp [hmethods]) with
      hempty | ⟨reading, hreading, _, -, lines, -, hisAt, -, htables, hiff⟩
    · simp [hempty] at hfirst
    · refine ⟨reading, hreading, lines, hisAt, htables, hiff.mp ?_⟩
      rw [LineTable.inShape_iff_outline, hfirst]
      simp
  · rcases hall second (by simp [hmethods]) with
      hempty | ⟨reading, hreading, _, -, lines, -, hisAt, -, htables, hiff⟩
    · simp [hempty] at hsecond
    · refine ⟨reading, hreading, lines, hisAt, htables, ?_⟩
      rw [← hiff, LineTable.inShape_iff_outline, hsecond]
      simp

/-- The second method has two tables of one file, and the offsets of the first one go back. -/
theorem not_inShape_backwardDraft :
    ∃ info, decodeWith {} backwardDraft.image = .ok info ∧
      ∃ method ∈ info.methods.toList, ¬ (method.lines.map LineTable.fileId).Nodup ∧
        ∃ table ∈ method.lines,
          ¬ table.lines.Pairwise fun left right => left.offset ≤ right.offset := by
  obtain ⟨info, hinfo, hlines⟩ := outlines_backwardDraft
  have hsecond : [(0, [8, 4]), (0, [0])]
      ∈ info.methods.toList.map fun method => method.lines.map LineTable.outline := by
    simp [hlines]
  obtain ⟨method, member, hmethod⟩ := List.mem_map.mp hsecond
  obtain ⟨table, rest, htables, htable, hrest⟩ := List.map_eq_cons_iff.mp hmethod
  refine ⟨info, hinfo, method, member, ?_, table, by simp [htables], ?_⟩
  · have hfileIds : method.lines.map LineTable.fileId
        = (method.lines.map LineTable.outline).map Prod.fst := by
      rw [List.map_map]
      rfl
    rw [hfileIds, hmethod]
    simp
  · have hoffsets : table.lines.map LineRecord.offset = [8, 4] := congrArg Prod.snd htable
    rw [← List.pairwise_map, hoffsets]
    simp

end DebugInfo

end ManagedPdb
