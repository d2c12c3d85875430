import ManagedPdb.Proofs.DebugInfo.SourceSharing
import ManagedPdb.Proofs.Symbol.TokenLines
import Mathlib.Data.List.Dedup

/-!
# The token lines of a whole file

Modules with the name for token lines are read in their order, and each adds what its records hold
behind what is known of the same tokens (`DebugInfo.tokenLines_accumulated`).  The ranges of a
module may just as well be gathered by token first, and then be added token by token in any order
(`TokenLines.foldl_extend_groups`).
-/

namespace ManagedPdb

/-! ### Ranges by token -/

namespace TokenLines

/-- Puts several ranges behind those of their token. -/
def extend (lines : TokenLines) (group : UInt32 × List TokenLine) : TokenLines :=
  lines.insert group.1 (lines.ofToken group.1 ++ group.2.toArray)

/-- The ranges of one token. -/
def rangesOf (entries : List (UInt32 × TokenLine)) (token : UInt32) : List TokenLine :=
  (entries.filter (·.1 = token)).map Prod.snd

/-- All ranges by their tokens, of which each comes once. -/
def groups (entries : List (UInt32 × TokenLine)) : List (UInt32 × List TokenLine) :=
  (entries.map Prod.fst).dedup.map fun token => (token, rangesOf entries token)

variable {entries : List (UInt32 × TokenLine)} {lines lines' : TokenLines} {token : UInt32}

/-- What is added for a token comes behind what there is. -/
theorem getElem?_foldl_add (entries : List (UInt32 × TokenLine)) (lines : TokenLines)
    (token : UInt32) :
    (entries.foldl add lines)[token]? = if token ∈ entries.map Prod.fst
      then some (lines.ofToken token ++ (rangesOf entries token).toArray) else lines[token]? := by
  induction entries generalizing lines with
  | nil => rfl
  | cons entry entries ih =>
    rw [List.foldl_cons, ih]
    unfold add rangesOf ofToken
    rw [Std.TreeMap.getElem?_insert]
    -- the first range of a token counts, whether or not the token comes again
    by_cases hentry : entry.1 = token
    · by_cases hrest : token ∈ entries.map Prod.fst
      · simp [hentry, hrest]
      · have hnone : entries.filter (·.1 = token) = [] := by
          rw [List.filter_eq_nil_iff]
          intro other member hother
          exact hrest (List.mem_map.mpr ⟨other, member, of_decide_eq_true hother⟩)
        simp [hentry, hrest, hnone]
    · have hmem : token ∈ (entry :: entries).map Prod.fst ↔ token ∈ entries.map Prod.fst := by
        simp [Ne.symm hentry]
      simp only [hmem, hentry, List.filter_cons, Std.LawfulEqCmp.compare_eq_iff_eq, decide_false,
        if_false, Bool.false_eq_true]

/-- The same token by token, where each comes once. -/
theorem getElem?_foldl_extend {ranges : UInt32 → List TokenLine}
    {grouping : List (UInt32 × List TokenLine)} (distinct : (grouping.map Prod.fst).Nodup)
    (hranges : ∀ group ∈ grouping, group.2 = ranges group.1) (lines : TokenLines) (token : UInt32) :
    (grouping.foldl extend lines)[token]? = if token ∈ grouping.map Prod.fst
      then some (lines.ofToken token ++ (ranges token).toArray) else lines[token]? := by
  induction grouping generalizing lines with
  | nil => rfl
  | cons group grouping ih =>
    obtain ⟨hgroup, hrest⟩ := List.forall_mem_cons.mp hranges
    obtain ⟨hnew, hdistinct⟩ := List.nodup_cons.mp distinct
    rw [List.foldl_cons, ih hdistinct hrest]
    unfold extend ofToken
    rw [Std.TreeMap.getElem?_insert]
    by_cases htoken : group.1 = token
    · subst htoken
      simp [hnew, hgroup]
    · have hmem : token ∈ (group :: grouping).map Prod.fst ↔ token ∈ grouping.map Prod.fst := by
        simp [Ne.symm htoken]
      simp only [hmem, htoken, Std.LawfulEqCmp.compare_eq_iff_eq, if_false]

/-- The order in which tokens are added does not matter, nor whether their ranges are gathered
first. -/
theorem foldl_extend_groups {grouping : List (UInt32 × List TokenLine)}
    (perm : grouping.Perm (groups entries))
    (same : ∀ token : UInt32, lines[token]? = lines'[token]?) (token : UInt32) :
    (grouping.foldl extend lines)[token]? = (entries.foldl add lines')[token]? := by
  have htokens : (groups entries).map Prod.fst = (entries.map Prod.fst).dedup := by
    rw [groups, List.map_map]
    exact List.map_id _
  have hperm : (grouping.map Prod.fst).Perm (entries.map Prod.fst).dedup :=
    htokens ▸ perm.map Prod.fst
  have hranges : ∀ group ∈ grouping, group.2 = rangesOf entries group.1 := by
    intro group member
    obtain ⟨token, -, rfl⟩ := List.mem_map.mp (perm.mem_iff.mp member)
    rfl
  have hmem : token ∈ grouping.map Prod.fst ↔ token ∈ entries.map Prod.fst :=
    hperm.mem_iff.trans List.mem_dedup
  rw [getElem?_foldl_add,
    getElem?_foldl_extend (hperm.nodup_iff.mpr (List.nodup_dedup _)) hranges, ofToken, ofToken,
    same token]
  simp only [hmem]

/-- The same for several modules, one after the other. -/
theorem foldl_extend_flatten {α : Type} {entriesOf : α → List (UInt32 × TokenLine)}
    {groupings : List (List (UInt32 × List TokenLine))} {modules : List α}
    (perms : List.Forall₂ (fun grouping item => grouping.Perm (groups (entriesOf item)))
      groupings modules)
    (same : ∀ token : UInt32, lines[token]? = lines'[token]?) (token : UInt32) :
    (groupings.flatten.foldl extend lines)[token]?
      = ((modules.flatMap entriesOf).foldl add lines')[token]? := by
  induction perms generalizing lines lines' with
  | nil => exact same token
  | cons perm _ ih =>
    rw [List.flatten_cons, List.foldl_append, List.flatMap_cons, List.foldl_append]
    exact ih (foldl_extend_groups perm same)

theorem mem_foldl_add_iff (entries : List (UInt32 × TokenLine)) (token : UInt32) :
    token ∈ entries.foldl add ∅ ↔ ∃ line, (token, line) ∈ entries := by
  have hnone : (∅ : TokenLines)[token]? = none := by simp
  rw [Std.TreeMap.mem_iff_isSome_getElem?, getElem?_foldl_add, hnone]
  by_cases htoken : token ∈ entries.map Prod.fst
  · rw [if_pos htoken]
    simpa using htoken
  · rw [if_neg htoken]
    simpa using htoken

end TokenLines

/-! ### Modules with token lines -/

/-- A module of token lines with the records of the commands. -/
def ModuleDraft.ofTokenLines (commands : List SymbolCommand) (lines : ByteArray) : ModuleDraft :=
  { ModuleDraft.ofName tokenLineModule with
    symbols := some (SymbolRegion.ofCommands commands).bytes
    lines }

/-- Whether the stream of the module holds token lines. -/
def ModuleDescriptor.holdsTokenLines (descriptor : ModuleDescriptor) : Bool :=
  descriptor.stream?.isSome && descriptor.name == tokenLineModule

namespace ModuleReading

variable {library : SourceLibrary} {keepNames : Bool} {sources sources' : SourceSession}
  {reading : ModuleReading}

/-- The records of the symbol region. -/
def symbolRecords (reading : ModuleReading) : List RegionRecord :=
  recordsFrom reading.descriptor.symbolsEnd reading.content 4

/-- A module of another name adds no ranges. -/
theorem Reads.resolved_eq_nil (reads : reading.Reads library keepNames sources sources')
    (h : reading.descriptor.holdsTokenLines = false) : reading.resolved = [] := by
  obtain ⟨index, hstream, -⟩ := reads.stream
  have hname : reading.descriptor.name ≠ tokenLineModule := by
    simpa [ModuleDescriptor.holdsTokenLines, hstream] using h
  rw [resolved, (reads.methods hname).2.2]
  rfl

/-- Only modules that hold token lines add ranges. -/
theorem ReadAll.flatMap_resolved {readings : List ModuleReading}
    (readAll : ReadAll library keepNames sources readings sources') :
    readings.flatMap resolved
      = (readings.filter fun reading => reading.descriptor.holdsTokenLines).flatMap resolved := by
  induction readAll with
  | nil => rfl
  | @cons _ _ _ reading _ reads _ ih =>
    rw [List.flatMap_cons, ih]
    cases hholds : reading.descriptor.holdsTokenLines with
    | true => simp only [List.filter_cons, hholds, if_true, List.flatMap_cons]
    | false =>
      simp only [List.filter_cons, hholds, Bool.false_eq_true, if_false,
        reads.resolved_eq_nil hholds, List.nil_append]

theorem Reads.readAll_ranges (reads : reading.Reads library keepNames sources sources')
    (h : reading.descriptor.holdsTokenLines = true) :
    (TokenLine.readAll reading.descriptor.symbolsEnd).run reading.content = .ok reading.ranges := by
  have hname : reading.descriptor.name = tokenLineModule := by
    simp only [ModuleDescriptor.holdsTokenLines, Bool.and_eq_true, beq_iff_eq] at h
    exact h.2
  exact (reads.tokenLines hname).1

end ModuleReading

/-- Modules that hold token lines are read. -/
theorem ModuleDescriptor.filter_isRead (modules : List ModuleDescriptor) :
    (modules.filter isRead).filter holdsTokenLines = modules.filter holdsTokenLines := by
  rw [List.filter_filter]
  refine List.filter_congr fun descriptor _ => ?_
  cases hholds : descriptor.holdsTokenLines with
  | false => rfl
  | true =>
    obtain ⟨hstream, hname⟩ := Bool.and_eq_true_iff.mp hholds
    rw [isRead, hstream, hname]
    rfl

namespace DebugInfo

/-- Where the token lines of a file come from, of which the given modules are those that hold
some. -/
structure AccumulatesTokenLines (info : DebugInfo) (library : SourceLibrary)
    (readings : List ModuleReading) : Prop where
  /-- They are all modules with the name for token lines and a stream. -/
  modules : readings.map ModuleReading.descriptor
    = info.modules.filter ModuleDescriptor.holdsTokenLines
  streams : ∀ reading ∈ readings, ∃ index, reading.descriptor.stream? = some index ∧
    library.container.content index = .ok reading.content
  /-- The symbol region of each is a row of records, and all vendor records are of the known
  vendor. -/
  framed : ∀ reading ∈ readings, Framed reading.descriptor.symbolsEnd reading.content 4
  vendors : ∀ reading ∈ readings, ∀ record ∈ reading.symbolRecords,
    record.VendorKnown reading.content
  /-- The ranges are what the records with the format for them hold, as they stand there. -/
  ranges : ∀ reading ∈ readings,
    reading.ranges = reading.symbolRecords.filterMap (RegionRecord.tokenLine? reading.content)
  /-- A token is listed if there is a record for it. -/
  listed : ∀ token, token ∈ info.tokenLines ↔
    ∃ reading ∈ readings, ∃ line, (token, line) ∈ reading.ranges
  /-- The ranges of a token are those of its records as they stand there, module by module, each
  with what its file number means in its module. -/
  ofToken : ∀ token, (info.tokenLine token).toList = readings.flatMap fun reading =>
    (TokenLines.rangesOf reading.ranges token).map fun line =>
      { line with file := reading.checksums.file? line.fileId }
  /-- A file number means what the checksum records of the same module say. -/
  files : ∀ reading ∈ readings, ∀ fileId,
    reading.Resolves library info.source? fileId (reading.checksums.file? fileId)
  records : ∀ reading ∈ readings,
    (ChecksumRecord.readAll reading.descriptor.linesStart reading.descriptor.linesEnd).run
      reading.content = .ok reading.records
  /-- The ranges of each module may be added token by token in any order. -/
  anyOrder : ∀ groupings, List.Forall₂ (fun grouping (reading : ModuleReading) =>
      grouping.Perm (TokenLines.groups (reading.ranges.map fun (token, line) =>
        (token, { line with file := reading.checksums.file? line.fileId })))) groupings readings →
    ∀ token : UInt32,
      (groupings.flatten.foldl TokenLines.extend ∅)[token]? = info.tokenLines[token]?
  /-- In a region that was written, the ranges are what the commands say. -/
  written : ∀ reading ∈ readings, ∀ commands after, (∀ command ∈ commands, command.Plain) →
    reading.content = (SymbolRegion.ofCommands commands).bytes ++ after →
      reading.descriptor.symbolsEnd = (SymbolRegion.ofCommands commands).bytes.size →
        reading.ranges = commands.filterMap SymbolCommand.tokenLine?

variable {options : DecodeOptions} {image : ByteArray} {info : DebugInfo} {library : SourceLibrary}
  {remap : TokenRemap} {readings : List ModuleReading} {session : SourceSession}

/-- The modules that a file that is decoded has token lines from. -/
theorem MadeOf.accumulatesTokenLines
    (made : MadeOf options image info library remap readings session) :
    info.AccumulatesTokenLines library
      (readings.filter fun reading => reading.descriptor.holdsTokenLines) := by
  have paged : library.container.Paged := Container.paged_of_ofImage made.ofImage
  obtain ⟨-, -, hresolves⟩ := made.readAll.catalogues paged (.empty library)
  set held := readings.filter fun reading => reading.descriptor.holdsTokenLines with hheld
  have hreads : ∀ reading ∈ held, reading ∈ readings ∧
      reading.descriptor.holdsTokenLines = true ∧
      ∃ before after, reading.Reads library options.keepNames before after := by
    intro reading member
    obtain ⟨hreading, hholds⟩ := List.mem_filter.mp member
    exact ⟨hreading, hholds, made.readAll.exists_reads hreading⟩
  have hranges : ∀ reading ∈ held,
      (TokenLine.readAll reading.descriptor.symbolsEnd).run reading.content
        = .ok reading.ranges := by
    intro reading member
    obtain ⟨-, hholds, _, _, reads⟩ := hreads reading member
    exact reads.readAll_ranges hholds
  have htokenLines : info.tokenLines
      = (held.flatMap ModuleReading.resolved).foldl TokenLines.add ∅ := by
    rw [made.tokenLines, hheld, ModuleReading.ReadAll.flatMap_resolved made.readAll]
  constructor
  case modules =>
    have hmap : held.map ModuleReading.descriptor
        = (readings.map ModuleReading.descriptor).filter ModuleDescriptor.holdsTokenLines := by
      rw [List.filter_map]
      rfl
    rw [hmap, made.descriptors, ModuleDescriptor.filter_isRead]
  case streams =>
    intro reading member
    obtain ⟨-, -, _, _, reads⟩ := hreads reading member
    exact reads.stream
  case framed => exact fun reading member => (TokenLine.readAll_eq_ok (hranges reading member)).2.1
  case vendors => exact fun reading member => (TokenLine.readAll_eq_ok (hranges reading member)).2.2
  case ranges => exact fun reading member => (TokenLine.readAll_eq_ok (hranges reading member)).1
  case listed =>
    intro token
    rw [htokenLines, TokenLines.mem_foldl_add_iff]
    constructor
    · rintro ⟨line, member⟩
      obtain ⟨reading, hreading, member⟩ := List.mem_flatMap.mp member
      obtain ⟨⟨_, stored⟩, hstored, hline⟩ := List.mem_map.mp member
      cases hline
      exact ⟨reading, hreading, stored, hstored⟩
    · rintro ⟨reading, hreading, line, hline⟩
      exact ⟨line.resolve reading.checksums, List.mem_flatMap.mpr
        ⟨reading, hreading, List.mem_map.mpr ⟨(token, line), hline, rfl⟩⟩⟩
  case ofToken =>
    intro token
    have hresolved : ∀ reading : ModuleReading, TokenLines.rangesOf reading.resolved token
        = (TokenLines.rangesOf reading.ranges token).map (·.resolve reading.checksums) := by
      intro reading
      unfold TokenLines.rangesOf ModuleReading.resolved
      rw [List.filter_map, List.map_map, List.map_map]
      rfl
    have hnone : ((∅ : TokenLines).ofToken token).toList = [] := by simp [TokenLines.ofToken]
    rw [tokenLine, htokenLines, TokenLines.toList_ofToken_foldl, hnone, List.nil_append,
      List.filter_flatMap, List.map_flatMap]
    exact List.flatMap_congr fun reading _ => hresolved reading
  case files =>
    intro reading member
    rw [made.source?_eq]
    exact hresolves reading (hreads reading member).1
  case records =>
    intro reading member
    obtain ⟨-, -, _, _, reads⟩ := hreads reading member
    exact reads.records
  case anyOrder =>
    intro groupings perms token
    rw [htokenLines]
    exact TokenLines.foldl_extend_flatten perms (fun _ => rfl) token
  case written =>
    intro reading member commands after plain hcontent hend
    have hread := hranges reading member
    rw [hcontent, hend, TokenLine.readAll_written plain] at hread
    exact (Except.ok.inj hread).symm

/-- Token lines have nothing to do with the token remap table. -/
theorem tokenLines_of_found {keepNames applyTokenRemap : Bool} {container : Container}
    {debug : DebugStream} {findings : ModuleFindings SourceSession}
    (found : Found keepNames image container library debug findings)
    (h : decodeWith { keepNames, applyTokenRemap } image = .ok info) :
    info.tokenLines = findings.tokenLines := by
  rw [found.decodeWith_eq] at h
  obtain ⟨_, -, h⟩ := bind_eq_ok_iff.mp h
  obtain ⟨_, _, -, -, rfl⟩ := finish_eq_ok_iff.mp h
  rfl

/-- The token lines of a file that is decoded are all that its modules with the name for them say,
in the order of the modules and of their records.  Each range has its file from its own module, and
the tokens are those of the records, whether other tokens are changed or not. -/
theorem tokenLines_accumulated (h : decodeWith options image = .ok info) :
    (∃ library remap readings session, MadeOf options image info library remap readings session ∧
      info.AccumulatesTokenLines library
        (readings.filter fun reading => reading.descriptor.holdsTokenLines)) ∧
    ∀ applyTokenRemap info',
      decodeWith { options with applyTokenRemap } image = .ok info' →
        info'.tokenLines = info.tokenLines := by
  constructor
  · obtain ⟨library, remap, readings, session, made⟩ := exists_madeOf h
    exact ⟨library, remap, readings, session, made, made.accumulatesTokenLines⟩
  · intro applyTokenRemap info' h'
    obtain ⟨container, library, debug, findings, found⟩ := exists_found h
    rw [tokenLines_of_found found h', tokenLines_of_found found h]

/-- What is read of a module of token lines that was written. -/
theorem MadeOf.ranges_of_written {draft : ImageDraft} {names : List String}
    (writable : draft.Writable names)
    (made : MadeOf options draft.image info library remap readings session)
    {reading : ModuleReading} (member : reading ∈ readings) {commands : List SymbolCommand}
    (plain : ∀ command ∈ commands, command.Plain) {lines : ByteArray} {number : Option UInt16}
    (numbered : (ModuleDraft.ofTokenLines commands lines, number) ∈ draft.numberedModules)
    (written : reading.descriptor = (ModuleDraft.ofTokenLines commands lines).written number) :
    reading.content = (SymbolRegion.ofCommands commands).bytes ++ lines ∧
      reading.ranges = commands.filterMap SymbolCommand.tokenLine? := by
  obtain ⟨hstream, hsize⟩ := made.stream?_of_written writable member numbered written
  have hcontent : reading.content = (SymbolRegion.ofCommands commands).bytes ++ lines :=
    (Option.some.inj hstream).symm
  rw [hcontent, ByteArray.size_append] at hsize
  have hend : reading.descriptor.symbolsEnd = (SymbolRegion.ofCommands commands).bytes.size := by
    rw [written]
    exact UInt32.toNat_ofNat_of_lt' (Nat.lt_of_le_of_lt (Nat.le_add_right _ _)
      (Nat.lt_trans hsize (by decide)))
  have hname : reading.descriptor.name = tokenLineModule := by
    rw [written]
    rfl
  obtain ⟨_, _, reads⟩ := made.readAll.exists_reads member
  have hread := (reads.tokenLines hname).1
  rw [hcontent, hend, TokenLine.readAll_written plain] at hread
  exact ⟨hcontent, (Except.ok.inj hread).symm⟩

/-- Two modules with token lines, of which the second one knows a token of the first.  The same file
number stands for a file in the first one alone. -/
def tokenDraft : ImageDraft where
  nameBuffer := (["a.cs"].foldl ImageDraft.addName {}).nameBuffer
  modules := [
    .ofTokenLines
      [.tokenLine 0x02000002 0 3 1 9 2, .vendor "other" .empty, .tokenLine 0x04000001 8 5 5 5 20]
      (LineRegion.ofCommands [.checksum ⟨1, 1, ⟨#[7]⟩⟩]).bytes,
    { ModuleDraft.ofName "a.obj" with
      symbols := some (SymbolRegion.ofCommands [.method 0x06000001 1 16 32 "a", .close 6]).bytes },
    .ofTokenLines [.tokenLine 0x02000002 0 12 1 14 2] .empty]

theorem writable_tokenDraft : tokenDraft.Writable ["a.cs"] :=
  .of_modules rfl rfl rfl rfl (by decide) (by decide +kernel) (by decide +kernel)
    (by decide +kernel) (by decide +kernel) (by decide +kernel)

/-- The offsets of the records are those that the kernel evaluates. -/
theorem offsets_of_readAll {start stop : Nat} {content : ByteArray} {records : List ChecksumRecord}
    {offsets : List Nat} (h : (ChecksumRecord.readAll start stop).run content = .ok records)
    (hoffsets : ((ChecksumRecord.readAll start stop).run content).toOption.map
      (List.map ChecksumRecord.offset) = some offsets) :
    records.map ChecksumRecord.offset = offsets := by
  rw [h] at hoffsets
  exact Option.some.inj hoffsets

/-- What is read of the two modules: the ranges, and the offsets of the checksum records. -/
theorem held_tokenDraft (made : MadeOf {} tokenDraft.image info library remap readings session)
    (modules : info.modules = ImageDraft.writtenModules tokenDraft.numberedModules) :
    ∃ first second,
      (readings.filter fun reading => reading.descriptor.holdsTokenLines) = [first, second] ∧
      first.ranges = [(0x02000002, ⟨0, none, 3, 1, 9, 2⟩), (0x04000001, ⟨8, none, 5, 5, 5, 20⟩)] ∧
      first.records.map ChecksumRecord.offset = [0] ∧
      second.ranges = [(0x02000002, ⟨0, none, 12, 1, 14, 2⟩)] ∧
      second.records.map ChecksumRecord.offset = [] := by
  have accumulates := made.accumulatesTokenLines
  generalize hheld : (readings.filter fun reading => reading.descriptor.holdsTokenLines) = held
    at accumulates
  have hmember : ∀ reading ∈ held, reading ∈ readings := by
    rw [← hheld]
    exact fun reading => List.mem_of_mem_filter
  have hdescriptors := accumulates.modules
  have hholding :
      (ImageDraft.writtenModules tokenDraft.numberedModules).filter ModuleDescriptor.holdsTokenLines
        = [(tokenDraft.modules[0]).written (some 5), (tokenDraft.modules[2]).written (some 7)] := by
    decide +kernel
  rw [modules, hholding] at hdescriptors
  obtain ⟨first, rest, rfl, hfirst, hrest⟩ := List.map_eq_cons_iff.mp hdescriptors
  obtain ⟨second, none, rfl, hsecond, hnone⟩ := List.map_eq_cons_iff.mp hrest
  obtain rfl := List.map_eq_nil_iff.mp hnone
  obtain ⟨hcontent, hranges⟩ := made.ranges_of_written writable_tokenDraft
    (hmember first (by simp)) (by decide) (List.mem_of_getElem? (i := 0) rfl) hfirst
  obtain ⟨hcontent', hranges'⟩ := made.ranges_of_written writable_tokenDraft
    (hmember second (by simp)) (by decide) (List.mem_of_getElem? (i := 2) rfl) hsecond
  have hrecords := accumulates.records first (by simp)
  have hrecords' := accumulates.records second (by simp)
  rw [hcontent, hfirst] at hrecords
  rw [hcontent', hsecond] at hrecords'
  exact ⟨first, second, rfl, hranges, offsets_of_readAll hrecords (by decide +kernel), hranges',
    offsets_of_readAll hrecords' (by decide +kernel)⟩

/-- The ranges of the token come from both modules, and the first of them has a file. -/
theorem tokenLines_accumulated_tokenDraft :
    ∃ info, decodeWith {} tokenDraft.image = .ok info ∧
      (∃ library readings, info.AccumulatesTokenLines library readings) ∧
      (info.tokenLine 0x02000002).toList.map (fun line =>
          (line.line, line.endLine, (line.file.bind info.source?).map SourceFile.name))
        = [(3, 9, some "a.cs"), (12, 14, none)] := by
  have hscan : (tokenDraft.scanned ["a.cs"]).map (fun found => found.2.2.map SourceFile.name)
      = some ["a.cs"] := by
    unfold ImageDraft.scanned ImageDraft.readModules ModuleDraft.readWith
      ModuleDescriptor.readStream ModuleDescriptor.readMethodsWithLines remapMethods
    simp only [Method.sort_eq_insertSort]
    decide +kernel
  obtain ⟨info, hinfo, hmodules, hfiles⟩ := writable_tokenDraft.exists_decode_of_scan hscan
  obtain ⟨⟨library, remap, readings, session, made, accumulates⟩, -⟩ := tokenLines_accumulated hinfo
  obtain ⟨first, second, hheld, hranges, hoffsets, hranges', hoffsets'⟩ :=
    held_tokenDraft made hmodules
  rw [hheld] at accumulates
  -- a record stands at the file number in the first module, and none in the second
  have hresolves := accumulates.files first (by simp) 0
  have hresolves' := accumulates.files second (by simp) 0
  have hrecord : ∃ record ∈ first.records, record.offset = (0 : UInt32).toNat :=
    List.mem_map.mp (hoffsets ▸ List.mem_singleton_self 0)
  obtain ⟨ref, href⟩ := Option.isSome_iff_exists.mp (hresolves.isSome_iff.mpr hrecord)
  obtain ⟨_, file, -, hsource, -⟩ := hresolves.file ref href
  have hname : file.name ∈ info.sources.toList.map SourceFile.name := by
    rw [source?, ← Array.getElem?_toList] at hsource
    exact List.mem_map_of_mem (List.mem_of_getElem? hsource)
  have hname : file.name = "a.cs" := List.mem_singleton.mp (hfiles ▸ hname)
  have hnone : second.checksums.file? 0 = none := by
    rw [← Option.not_isSome_iff_eq_none, hresolves'.isSome_iff]
    rintro ⟨record, member, -⟩
    rw [List.map_eq_nil_iff.mp hoffsets'] at member
    cases member
  have hline : TokenLines.rangesOf first.ranges 0x02000002 = [⟨0, none, 3, 1, 9, 2⟩] := by
    rw [hranges]
    decide
  have hline' : TokenLines.rangesOf second.ranges 0x02000002 = [⟨0, none, 12, 1, 14, 2⟩] := by
    rw [hranges']
    decide
  refine ⟨info, hinfo, ⟨library, _, accumulates⟩, ?_⟩
  rw [accumulates.ofToken]
  simp [hline, hline', href, hsource, hname, hnone]

end DebugInfo

end ManagedPdb
