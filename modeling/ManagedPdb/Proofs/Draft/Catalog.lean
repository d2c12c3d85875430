import ManagedPdb.Proofs.DebugInfo.Lookup
import ManagedPdb.Proofs.Draft.LineRegion
import ManagedPdb.Proofs.Draft.Scan
import ManagedPdb.Proofs.Draft.SourceStream
import ManagedPdb.Proofs.Lossy
import ManagedPdb.Proofs.UpperCase

/-!
# The catalog of a file that was written

A file that was written from a draft is decoded unless one of a few things is wrong with what the
draft holds (`ImageDraft.Fault`), and then says what the draft says about its identity, modules
and source files (`ImageDraft.Catalogued`).

Both follow from the decoded form of the draft by comparing loaders of source files.  A loader
that accepts what the one of the draft refuses shows whether a module fails by itself.  A loader
that notes down which file it has found for which record shows that names are found under their
numbers.
-/

namespace ManagedPdb

/-! ### Faults -/

/-- Adding what the module says fails, although the loader finds a file for every record, except
perhaps for those with certain names. -/
def ModuleDraft.FailsBut (descriptor : ModuleDraft) (refused : List UInt32) (error : DecodeError) :
    Prop :=
  ∃ (load : SourceLoader SourceTable) (findings : ModuleFindings SourceTable),
    (∀ nameId ∉ refused, ∀ kind checksum table, ∃ found,
      load nameId kind checksum table = .ok found) ∧
    descriptor.readWith load findings = .error error

namespace ImageDraft

/-- The numbers under which names were added. -/
def HasName (names : List String) (nameId : UInt32) : Prop :=
  ∃ before name after, names = before ++ name :: after ∧
    nameId = (before.foldl addName {}).nextNameId

/-- What can be wrong with a draft, and the error that comes of it. -/
inductive Fault (draft : ImageDraft) (names : List String) : DecodeError → Prop
  /-- The symbols or lines of a module are not well formed. -/
  | module {descriptor error} (member : descriptor ∈ draft.modules)
      (fails : descriptor.FailsBut [] error) : Fault draft names error
  /-- A module refers to a name that was not added. -/
  | unknownName {descriptor nameId} (member : descriptor ∈ draft.modules)
      (unknown : ¬HasName names nameId)
      (refers : descriptor.FailsBut [nameId] (.ofKind (.unknownName nameId))) :
      Fault draft names (.ofKind (.unknownName nameId))
  /-- The stream about a source file is not well formed. -/
  | sourceStream {name stream error} {file : SourceFile} (used : name ∈ names)
      (member : stream ∈ draft.namedStreams)
      (named : Upper.ofString stream.1 = sourceStreamName name)
      (fails : file.readStream.run stream.2 = .error error) : Fault draft names error
  /-- A method has a token whose row is beyond the token remap table. -/
  | tokenOutOfRange {table findings method token} (hasTable : draft.tokenRemap = some table)
      (read : draft.readModules (draft.load names) .empty = .ok findings)
      (member : method ∈ findings.methods) (has : token ∈ method.tokens)
      (beyond : table.length ≤ TokenRemap.row token) :
      Fault draft names (.ofKind (.tokenRemapOutOfRange token))

end ImageDraft

/-! ### Other loaders -/

variable {σ τ : Type} {Excused : DecodeError → Prop}

/-- The loader finds some file where `load` refuses a record, unless its name may be refused. -/
def SourceLoader.accept (load : SourceLoader SourceTable) (refused : List UInt32) :
    SourceLoader SourceTable := fun nameId kind checksum table =>
  match load nameId kind checksum table with
  | .ok found => .ok found
  | .error error => if nameId ∈ refused then .error error else .ok (⟨0⟩, table)

/-- The loader fails with the error at a name that is not to be refused. -/
def SourceLoader.RefusesOther (load : SourceLoader SourceTable) (refused : List UInt32)
    (error : DecodeError) : Prop :=
  ∃ nameId ∉ refused, ∃ kind checksum table, load nameId kind checksum table = .error error

theorem SourceLoader.accept_sim (load : SourceLoader SourceTable) (refused : List UInt32) :
    LoaderSim (load.RefusesOther refused) Eq load (load.accept refused) := by
  rintro nameId kind checksum table _ rfl
  unfold accept
  cases hload : load nameId kind checksum table with
  | ok found => exact .ok ⟨rfl, rfl⟩
  | error error =>
    dsimp only
    split
    · exact .error error
    · next hrefused => exact .excused _ ⟨nameId, hrefused, kind, checksum, table, hload⟩

/-- Where a module fails, it does so by itself, or the loader refuses a name. -/
theorem ModuleDraft.failsBut_or_refuses {descriptor : ModuleDraft}
    {load : SourceLoader SourceTable} {findings : ModuleFindings SourceTable} {error : DecodeError}
    (h : descriptor.readWith load findings = .error error) (refused : List UInt32) :
    descriptor.FailsBut refused error ∨ load.RefusesOther refused error := by
  have hsim := descriptor.readWith_sim (load.accept_sim refused)
    (⟨rfl, rfl, rfl⟩ : findings.Agree Eq findings)
  rw [h] at hsim
  generalize haccept : descriptor.readWith (load.accept refused) findings = result at hsim
  cases hsim with
  | error =>
    refine .inl ⟨load.accept refused, findings, ?_, haccept⟩
    intro nameId hrefused kind checksum table
    unfold SourceLoader.accept
    cases load nameId kind checksum table with
    | ok found => exact ⟨found, rfl⟩
    | error error =>
      dsimp only
      rw [if_neg hrefused]
      exact ⟨_, rfl⟩
  | excused _ excused => exact .inr excused

namespace ImageDraft

variable {draft : ImageDraft} {names : List String}

/-! ### What goes wrong -/

/-- A stream that is found by a name has that name. -/
theorem mem_of_contentOf? {name : String} {content : ByteArray}
    (h : draft.contentOf? name = some content) :
    ∃ stream ∈ draft.allNamedStreams,
      Upper.ofString stream.1 = Upper.ofString name ∧ stream.2 = content := by
  rw [contentOf?, Option.map_eq_some_iff] at h
  obtain ⟨stream, hfind, hcontent⟩ := h
  have hname := List.find?_some hfind
  rw [beq_iff_eq] at hname
  exact ⟨stream, List.mem_of_find?_eq_some hfind, hname, hcontent⟩

theorem upper_sourceStreamName (name : String) :
    Upper.ofString (sourceStreamName name) = sourceStreamName name := by
  have hprefix : Upper.ofString "/SRC/FILES/" = "/SRC/FILES/" := by decide
  rw [sourceStreamName, Upper.ofString_append, Upper.ofString_ofString, hprefix]

theorem sourceStreamName_ne (name : String) : sourceStreamName name ≠ "/NAMES" := by
  intro h
  have hfront := congrArg (fun text => text.toList.take 2) h
  simp only [sourceStreamName, String.toList_append] at hfront
  rw [List.take_append_of_le_length (by decide)] at hfront
  exact absurd hfront (by decide)

/-- Methods are remapped unless one has a token beyond the table. -/
theorem fault_of_remapMethods {findings : ModuleFindings SourceTable} {error : DecodeError}
    (read : draft.readModules (draft.load names) .empty = .ok findings)
    (h : DebugInfo.remapMethods draft.remap findings.methods.toList = .error error) :
    draft.Fault names error := by
  rcases bind_eq_error_iff.mp h with hmethods | ⟨_, -, hpure⟩
  · obtain ⟨method, member, happly⟩ := exists_of_mapM_eq_error hmethods
    obtain ⟨token, has, ⟨rows, hrows, beyond⟩, rfl⟩ := TokenRemap.exists_of_apply_eq_error happly
    cases htable : draft.tokenRemap with
    | none =>
      rw [remap, htable] at hrows
      cases hrows
    | some table =>
      rw [remap, htable] at hrows
      cases hrows
      have hbeyond : table.length ≤ TokenRemap.row token := by simpa using beyond
      exact .tokenOutOfRange htable read (Array.mem_toList_iff.mp member) has hbeyond
  · cases hpure

namespace Writable

theorem hasName_of_name? (writable : draft.Writable names) {nameId : UInt32}
    (h : HasName names nameId) : ∃ name ∈ names, (nameTable names).name? nameId = some name := by
  obtain ⟨before, name, after, rfl, rfl⟩ := h
  exact ⟨name, by simp, name?_nextNameId writable.size_bufferOf_lt⟩

/-- What is found for a number is one of the names. -/
theorem mem_of_name? (writable : draft.Writable names) {nameId : UInt32} {name : String}
    (h : (nameTable names).name? nameId = some name) : name ∈ names := by
  obtain ⟨offset, member, -⟩ := (name?_nameTable_eq_some_iff writable.size_bufferOf_lt).mp h
  exact (List.of_mem_zip member).2

/-- A file is described unless the stream about it is not well formed. -/
theorem fault_of_describe (writable : draft.Writable names) {file : SourceFile}
    (used : file.name ∈ names) {error : DecodeError} (h : draft.describe file = .error error) :
    draft.Fault names error := by
  unfold describe at h
  cases hcontent : draft.contentOf? (sourceStreamName file.name) with
  | none =>
    rw [hcontent] at h
    cases h
  | some content =>
    rw [hcontent] at h
    dsimp only at h
    split at h
    · cases h
    obtain ⟨stream, member, hname, rfl⟩ := mem_of_contentOf? hcontent
    rw [upper_sourceStreamName] at hname
    rw [writable.allNamedStreams_eq, List.mem_cons] at member
    rcases member with rfl | member
    · have hnames : Upper.ofString "/names" = "/NAMES" := by decide
      exact absurd (hname.symm.trans hnames) (sourceStreamName_ne file.name)
    · exact .sourceStream used member hname h

/-- A record is refused because of its name, or because of the stream about its file. -/
theorem unknown_or_fault_of_load (writable : draft.Writable names) {nameId : UInt32} {kind : UInt8}
    {checksum : ByteArray} {table : SourceTable} {error : DecodeError}
    (h : draft.load names nameId kind checksum table = .error error) :
    (¬HasName names nameId ∧ error = .ofKind (.unknownName nameId)) ∨ draft.Fault names error := by
  unfold load at h
  cases hname : (nameTable names).name? nameId with
  | none =>
    rw [hname] at h
    cases h
    left
    refine ⟨?_, rfl⟩
    intro hhas
    obtain ⟨name, -, hfound⟩ := writable.hasName_of_name? hhas
    rw [hname] at hfound
    cases hfound
  | some name =>
    right
    rw [hname] at h
    dsimp only at h
    cases hfind : table.find? name with
    | some ref =>
      rw [hfind] at h
      cases h
    | none =>
      rw [hfind] at h
      rcases bind_eq_error_iff.mp h with hdescribe | ⟨_, -, hadd⟩
      · exact writable.fault_of_describe (writable.mem_of_name? hname) hdescribe
      · cases hadd

theorem fault_of_readWith (writable : draft.Writable names) {descriptor : ModuleDraft}
    (member : descriptor ∈ draft.modules) {findings : ModuleFindings SourceTable}
    {error : DecodeError} (h : descriptor.readWith (draft.load names) findings = .error error) :
    draft.Fault names error := by
  rcases ModuleDraft.failsBut_or_refuses h []
    with hfails | ⟨nameId, -, kind, checksum, table, hload⟩
  · exact .module member hfails
  rcases writable.unknown_or_fault_of_load hload with ⟨unknown, rfl⟩ | hfault
  · -- the name is unknown, and nothing but this name is to blame
    rcases ModuleDraft.failsBut_or_refuses h [nameId]
      with hfails | ⟨other, hother, kind, checksum, table, hload⟩
    · exact .unknownName member unknown hfails
    · rcases writable.unknown_or_fault_of_load hload with ⟨-, heq⟩ | hfault
      · injection heq with hkind
        injection hkind with hid
        exact absurd (List.mem_singleton.mpr hid.symm) hother
      · exact hfault
  · exact hfault

/-- Where a draft has no decoded form, something is wrong with it. -/
theorem fault_of_decoded (writable : draft.Writable names) {error : DecodeError}
    (h : draft.decoded names = .error error) : draft.Fault names error := by
  rcases bind_eq_error_iff.mp h with hmodules | ⟨findings, hread, h⟩
  · obtain ⟨descriptor, member, findings, hdescriptor⟩ := exists_of_foldlM_eq_error hmodules
    exact writable.fault_of_readWith member hdescriptor
  rcases bind_eq_error_iff.mp h with hmethods | ⟨_, -, hpure⟩
  · exact fault_of_remapMethods hread hmethods
  · cases hpure

end Writable

/-! ### What is noted down -/

/-- A loader of source files that also notes down which file it found for which name. -/
def logged (load : SourceLoader SourceTable) :
    SourceLoader (SourceTable × List (UInt32 × SourceRef)) :=
  fun nameId kind checksum (table, log) => do
    let (ref, table) ← load nameId kind checksum table
    return (ref, table, log ++ [(nameId, ref)])

/-- The table finds files by their names, and each has been described as the draft says. -/
structure Sound (draft : ImageDraft) (table : SourceTable) : Prop where
  byName : ∀ {name ref}, table.find? name = some ref →
    ∃ file, table.file? ref = some file ∧ file.name = name
  described : ∀ file ∈ table.files, ∃ kind checksum,
    draft.describe { SourceFile.ofName file.name with checksumKind := kind, checksum } = .ok file

/-- The table is that of the draft, and the files noted down are those with the names. -/
structure Logged (draft : ImageDraft) (names : List String) (table : SourceTable)
    (state : SourceTable × List (UInt32 × SourceRef)) : Prop where
  same : state.1 = table
  sound : draft.Sound table
  found : ∀ entry ∈ state.2, ∃ file, table.file? entry.2 = some file ∧
    (nameTable names).name? entry.1 = some file.name

theorem Sound.empty (draft : ImageDraft) : draft.Sound .empty where
  byName := by
    intro name ref h
    simp [SourceTable.find?, SourceTable.empty] at h
  described := by
    intro file member
    simp [SourceTable.empty] at member

theorem file?_add {table : SourceTable} {ref : SourceRef} {file : SourceFile} (new : SourceFile)
    (h : table.file? ref = some file) : (table.add new).2.file? ref = some file := by
  obtain ⟨hlt, -⟩ := Array.getElem?_eq_some_iff.mp h
  rw [SourceTable.file?, SourceTable.add, Array.getElem?_push_lt hlt]
  exact (Array.getElem?_eq_getElem hlt).symm.trans h

theorem file?_add_new (table : SourceTable) (new : SourceFile) :
    (table.add new).2.file? (table.add new).1 = some new := by
  rw [SourceTable.file?, SourceTable.add]
  exact Array.getElem?_push_size

/-- A file that is added is found by its name, and all others stay. -/
theorem Sound.add {table : SourceTable} (sound : draft.Sound table) {file file' : SourceFile}
    (hdescribe : draft.describe file = .ok file') {kind : UInt8} {checksum : ByteArray}
    (hfile : file = { SourceFile.ofName file.name with checksumKind := kind, checksum }) :
    draft.Sound (table.add file').2 := by
  constructor
  · intro name ref h
    rw [SourceTable.find?, SourceTable.add, Std.HashMap.getElem?_insert] at h
    split at h
    · next heq =>
      cases h
      exact ⟨file', file?_add_new table file', eq_of_beq heq⟩
    · obtain ⟨found, hfound, hname⟩ := sound.byName h
      exact ⟨found, file?_add file' hfound, hname⟩
  · intro other member
    rcases Array.mem_push.mp member with member | rfl
    · exact sound.described other member
    · refine ⟨kind, checksum, ?_⟩
      rw [name_of_describe hdescribe, ← hfile]
      exact hdescribe

/-- Noting down changes nothing, and what is noted down is right. -/
theorem logged_sim (draft : ImageDraft) (names : List String) :
    LoaderSim NoExcuse (draft.Logged names) (draft.load names) (logged (draft.load names)) := by
  rintro nameId kind checksum table ⟨other, log⟩ ⟨hsame, sound, found⟩
  obtain rfl : table = other := hsame.symm
  unfold logged
  dsimp only
  cases hload : draft.load names nameId kind checksum table with
  | error error => exact .error error
  | ok result =>
    obtain ⟨ref, table'⟩ := result
    suffices h : draft.Logged names table' (table', log ++ [(nameId, ref)]) from .ok ⟨rfl, h⟩
    unfold load at hload
    cases hname : (nameTable names).name? nameId with
    | none =>
      rw [hname] at hload
      cases hload
    | some name =>
      rw [hname] at hload
      dsimp only at hload
      cases hfind : table.find? name with
      | some known =>
        -- the file has been there before
        rw [hfind] at hload
        cases hload
        obtain ⟨file, hfile, rfl⟩ := sound.byName hfind
        refine ⟨rfl, sound, ?_⟩
        intro entry member
        rcases List.mem_append.mp member with member | member
        · exact found entry member
        · obtain rfl := List.mem_singleton.mp member
          exact ⟨file, hfile, hname⟩
      | none =>
        rw [hfind] at hload
        obtain ⟨file, hdescribe, hadd⟩ := bind_eq_ok_iff.mp hload
        cases hadd
        refine ⟨rfl, sound.add hdescribe rfl, ?_⟩
        intro entry member
        rcases List.mem_append.mp member with member | member
        · obtain ⟨old, hold, holdName⟩ := found entry member
          exact ⟨old, file?_add file hold, holdName⟩
        · obtain rfl := List.mem_singleton.mp member
          refine ⟨file, file?_add_new table file, ?_⟩
          rw [hname, name_of_describe hdescribe]
          rfl

theorem readModules_logged (draft : ImageDraft) (names : List String) :
    ResultSim NoExcuse (ModuleFindings.Agree (draft.Logged names))
      (draft.readModules (draft.load names) .empty)
      (draft.readModules (logged (draft.load names)) (.empty, [])) := by
  have hempty : draft.Logged names .empty (.empty, []) :=
    ⟨rfl, .empty draft, fun entry member => nomatch member⟩
  exact draft.readModules_sim (draft.logged_sim names) hempty

end ImageDraft

/-! ### What the file says -/

/-- The descriptor lists the module. -/
structure ModuleDraft.Describes (draft : ModuleDraft) (descriptor : ModuleDescriptor) : Prop where
  name : descriptor.name = draft.name
  objectName : descriptor.objectName = some draft.objectName
  stream : descriptor.stream?.isSome = draft.symbols.isSome
  symbolsSize : descriptor.symbolsSize.toNat = draft.symbolsSize
  oldLinesSize : descriptor.oldLinesSize = 0
  linesSize : descriptor.linesSize.toNat = draft.lines.size

namespace ImageDraft

/-- The file says what the draft says. -/
structure Catalogued (draft : ImageDraft) (names : List String) (info : DebugInfo) : Prop where
  version : info.version = 20000404
  signature : info.signature = draft.signature
  age : info.age = draft.age
  guid : info.guid = draft.guid
  executableAge : info.executableAge = if draft.debugAge = 0 then draft.age else draft.debugAge
  modules : List.Forall₂ ModuleDraft.Describes draft.modules info.modules
  sourceServer : ∀ text : String, ("srcsrv", text.toUTF8) ∈ draft.namedStreams →
    info.sourceServer = text
  noSourceServer : (∀ stream ∈ draft.namedStreams, Upper.ofString stream.1 ≠ "SRCSRV") →
    info.sourceServer = ""
  /-- Methods, lines and files are what the modules say, where it is noted down which file was found
  for which checksum record; and a record with the number of a name stands for the file with that
  name. -/
  records : ∃ findings, draft.readModules (logged (draft.load names)) (.empty, []) = .ok findings ∧
    DebugInfo.remapMethods draft.remap findings.methods.toList = .ok info.methods ∧
    findings.tokenLines = info.tokenLines ∧ findings.sources.1.files = info.sources ∧
    ∀ before name after, names = before ++ name :: after →
      ∀ entry ∈ findings.sources.2, entry.1 = (before.foldl addName {}).nextNameId →
        ∃ file, info.sources[entry.2.index]? = some file ∧ file.name = name
  /-- A file has what was said about it, and an empty text counts as none. -/
  sources : ∀ file ∈ info.sources, ∀ name language vendor documentType source,
    ("/src/files/" ++ name, sourceStream language vendor documentType source)
      ∈ draft.namedStreams → Upper.ofString name = Upper.ofString file.name →
    file.languageGuid = language ∧ file.vendor = vendor ∧ file.documentType = documentType ∧
      file.embeddedSource = source.filter (0 < ·.size)

variable {draft : ImageDraft} {names : List String}

/-- The only item with a key is found by it. -/
theorem find?_of_nodup {α : Type} {key : α → String} {items : List α}
    (distinct : (items.map key).Nodup) {item : α} (member : item ∈ items) :
    items.find? (fun other => key other == key item) = some item := by
  induction items with
  | nil => cases member
  | cons first items ih =>
    rw [List.map_cons, List.nodup_cons] at distinct
    rcases List.mem_cons.mp member with rfl | member
    · exact List.find?_cons_of_pos (beq_self_eq_true _)
    · rw [List.find?_cons_of_neg]
      · exact ih distinct.2 member
      · intro heq
        exact distinct.1 (beq_iff_eq.mp heq ▸ List.mem_map_of_mem member)

theorem forall₂_map_zip {α β γ : Type} {R : α → γ → Prop} {value : α × β → γ} {left : List α}
    {right : List β} (hlength : left.length = right.length)
    (h : ∀ entry ∈ left.zip right, R entry.1 (value entry)) :
    List.Forall₂ R left ((left.zip right).map value) := by
  induction left generalizing right with
  | nil => exact .nil
  | cons first left ih =>
    cases right with
    | nil => cases hlength
    | cons second right =>
      refine .cons (h (first, second) (by simp)) (ih (Nat.succ.inj hlength) ?_)
      intro entry member
      exact h entry (List.mem_cons_of_mem _ member)

namespace Writable

theorem contentOf?_of_mem (writable : draft.Writable names) {stream : String × ByteArray}
    (member : stream ∈ draft.namedStreams) {name : String}
    (hname : Upper.ofString stream.1 = Upper.ofString name) :
    draft.contentOf? name = some stream.2 := by
  have hmember : stream ∈ draft.allNamedStreams := by
    rw [writable.allNamedStreams_eq]
    exact List.mem_cons_of_mem _ member
  rw [contentOf?, ← hname, find?_of_nodup writable.distinct_all hmember]
  rfl

theorem size_namedStream_lt (writable : draft.Writable names) {stream : String × ByteArray}
    (member : stream ∈ draft.namedStreams) : stream.2.size < 2 ^ 31 := by
  apply writable.fits.sizes
  rw [streams_eq, writable.allNamedStreams_eq]
  simp only [List.map_cons, List.mem_append, List.mem_cons]
  exact .inr (.inl (.inr (List.mem_map_of_mem member)))

theorem describes (writable : draft.Writable names) :
    ∀ entry ∈ draft.numberedModules, entry.1.Describes (entry.1.written entry.2) := by
  intro entry member
  have hlines := writable.lineSizes _ (List.of_mem_zip member).1
  have hregions : entry.1.symbolsSize < 2 ^ 32 ∧
      (entry.1.written entry.2).stream?.isSome = entry.1.symbols.isSome := by
    rcases writable.module_cases entry member
      with ⟨hnone, hwritten⟩ | ⟨index, content, hstream, hwritten, -, hsize⟩
    · rw [ModuleDraft.stream?, Option.map_eq_none_iff] at hnone
      rw [hwritten, hnone, ModuleDraft.symbolsSize, hnone]
      exact ⟨by decide, rfl⟩
    · rw [ModuleDraft.stream?, Option.map_eq_some_iff] at hstream
      obtain ⟨symbols, hsymbols, rfl⟩ := hstream
      rw [ByteArray.size_append] at hsize
      rw [hwritten, hsymbols, ModuleDraft.symbolsSize, hsymbols]
      exact ⟨Nat.lt_of_le_of_lt (Nat.le_add_right _ _) (Nat.lt_trans hsize (by decide)), rfl⟩
  obtain ⟨hsymbols, hstream⟩ := hregions
  constructor
  case name => rfl
  case objectName => rfl
  case stream => exact hstream
  case symbolsSize => exact UInt32.toNat_ofNat_of_lt' hsymbols
  case oldLinesSize => rfl
  case linesSize => exact UInt32.toNat_ofNat_of_lt' hlines

/-- What a file has that was described by a stream with these values. -/
theorem described_eq (writable : draft.Writable names) {file file' : SourceFile} {name : String}
    {language vendor documentType : Guid} {source : Option ByteArray}
    (member : ("/src/files/" ++ name, sourceStream language vendor documentType source)
      ∈ draft.namedStreams)
    (hname : Upper.ofString name = Upper.ofString file.name)
    (h : draft.describe file = .ok file') :
    file' = file.withStream language vendor documentType source := by
  have hkey : Upper.ofString ("/src/files/" ++ name)
      = Upper.ofString (sourceStreamName file.name) := by
    have hprefix : Upper.ofString "/src/files/" = "/SRC/FILES/" := by decide
    rw [upper_sourceStreamName, sourceStreamName, Upper.ofString_append, hprefix, hname]
  have hcontent := writable.contentOf?_of_mem member hkey
  have hpieces : 0 < (sourceStream language vendor documentType source).size ∧
      ∀ text ∈ source, text.size < 2 ^ 31 := by
    have hsize := writable.size_namedStream_lt member
    cases source with
    | none => simp [sourceStream, Guid.bytes]
    | some text =>
      simp only [sourceStream, ByteArray.size_append, Guid.bytes, Bytes.size_uint32] at hsize ⊢
      constructor
      · omega
      · rintro _ ⟨⟩
        omega
  unfold describe at h
  rw [hcontent] at h
  dsimp only at h
  rw [if_neg (by omega), SourceFile.readStream_sourceStream _ _ _ _ hpieces.2] at h
  cases h
  rfl

theorem catalogued (writable : draft.Writable names) {info : DebugInfo}
    (h : draft.decoded names = .ok info) : draft.Catalogued names info := by
  obtain ⟨findings, hread, h⟩ := bind_eq_ok_iff.mp h
  obtain ⟨methods, hmethods, h⟩ := bind_eq_ok_iff.mp h
  cases h
  have hlogged := draft.readModules_logged names
  rw [hread] at hlogged
  generalize hresult : draft.readModules (logged (draft.load names)) (.empty, []) = result
    at hlogged
  cases hlogged with | ok agree =>
  next logged =>
  obtain ⟨hmethods', hlines, hsame, sound, found⟩ := agree
  constructor
  case version => rfl
  case signature => rfl
  case age => rfl
  case guid => rfl
  case executableAge => rfl
  case modules => exact forall₂_map_zip (by simp) writable.describes
  case sourceServer =>
    intro text member
    show draft.sourceServer = text
    have hname : Upper.ofString "srcsrv" = Upper.ofString "SRCSRV" := by decide
    rw [sourceServer, writable.contentOf?_of_mem member hname]
    exact Lossy.decode_toUTF8 text
  case noSourceServer =>
    intro hnone
    show draft.sourceServer = ""
    rw [sourceServer]
    cases hcontent : draft.contentOf? "SRCSRV" with
    | none => rfl
    | some content =>
      obtain ⟨stream, member, hname, -⟩ := mem_of_contentOf? hcontent
      have hupper : Upper.ofString "SRCSRV" = "SRCSRV" := by decide
      rw [writable.allNamedStreams_eq, List.mem_cons] at member
      rw [hupper] at hname
      rcases member with rfl | member
      · have hnames : Upper.ofString "/names" ≠ "SRCSRV" := by decide
        exact absurd hname hnames
      · exact absurd hname (hnone stream member)
  case records =>
    refine ⟨logged, hresult, ?_, hlines.symm, ?_, ?_⟩
    · rw [← hmethods']
      exact hmethods
    · rw [hsame]
    · rintro before name after rfl entry member hid
      obtain ⟨file, hfile, hname⟩ := found entry member
      rw [hid, name?_nextNameId writable.size_bufferOf_lt] at hname
      cases hname
      exact ⟨file, hfile, rfl⟩
  case sources =>
    intro file member name language vendor documentType source hstream hname
    obtain ⟨kind, checksum, hdescribe⟩ := sound.described file member
    have hfile := writable.described_eq hstream (by exact hname) hdescribe
    rw [hfile]
    exact ⟨rfl, rfl, rfl, Option.or_none⟩

end Writable

/-- A file that was written from a draft is decoded unless something is wrong with what the draft
holds, and then says what the draft says. -/
theorem catalog_round_trip {draft : ImageDraft} {names : List String}
    (writable : draft.Writable names) :
    (∀ error, DebugInfo.decode draft.image = .error error → draft.Fault names error) ∧
      ∀ info, DebugInfo.decode draft.image = .ok info → draft.Catalogued names info := by
  rw [DebugInfo.decode_image writable]
  constructor
  · intro error h
    exact writable.fault_of_decoded h
  · intro info h
    exact writable.catalogued h

/-- A module with a method, its lines and the checksum record of their file, which has a stream
about it; modules with an empty stream and without one; the module with token lines; a source server
script and a table of new rows. -/
def catalogDraft : ImageDraft :=
  { (({} : ImageDraft).addName "a.cs" |>.addSourceServer "SRCSRV: end").addSourceStream "A.cs"
      .nil microsoftVendor textDocumentType (some "class A;".toUTF8) with
    modules := [
      { ModuleDraft.ofName "a.obj" with
        symbols := some (SymbolRegion.ofCommands [.method 0x06000001 1 16 32 "a", .close 6]).bytes
        lines := (LineRegion.ofCommands
          [.checksum ⟨1, 1, ⟨#[7]⟩⟩, .lines ⟨1, 16, 32, [⟨0, [.single 0 5]⟩], false⟩]).bytes },
      ⟨"b.obj", "b.lib", some .empty, .empty⟩,
      .ofName "c.obj",
      { ModuleDraft.ofName tokenLineModule with
        symbols := some (SymbolRegion.ofCommands [.tokenLine 0x02000002 0 3 1 9 2]).bytes }]
    tokenRemap := some [0, 9] }

theorem writable_catalogDraft : catalogDraft.Writable ["a.cs"] where
  hasNameTable := rfl
  nameBuffer := rfl
  names := by decide
  streamNames := by decide +kernel
  distinct := by decide +kernel
  reserved := by decide +kernel
  modules := by
    have hnamed : ∀ descriptor ∈ catalogDraft.modules,
        ZeroFree descriptor.name ∧ ZeroFree descriptor.objectName := by decide +kernel
    exact fun descriptor member =>
      ⟨(hnamed descriptor member).1, (hnamed descriptor member).2⟩
  lineSizes := by decide +kernel
  count := by decide +kernel
  fits := ⟨⟨9, by decide, by decide, rfl⟩, by decide +kernel, by decide +kernel, by decide +kernel⟩

set_option synthInstance.maxSize 256 in
theorem exists_decode_catalogDraft :
    ∃ info, DebugInfo.decode catalogDraft.image = .ok info ∧
      info.methods.toList.map (fun method => (method.token, method.name, method.lines.length))
        = [(0x06000009, some "a", 1)] ∧
      info.tokenLines.toList.map (fun entry => (entry.1, entry.2.size)) = [(0x02000002, 1)] ∧
      info.sources.toList.map (fun file => (file.name, file.checksum, file.embeddedSource))
        = [("a.cs", ⟨#[7]⟩, some "class A;".toUTF8)] := by
  have hscan : (catalogDraft.scanned ["a.cs"]).map (fun found =>
      (found.1.map (fun method => (method.token, method.name, method.lines.length)),
        found.2.1.toList.map (fun entry => (entry.1, entry.2.size)),
        found.2.2.map (fun file => (file.name, file.checksum, file.embeddedSource))))
      = some ([(0x06000009, some "a", 1)], [(0x02000002, 1)],
        [("a.cs", ⟨#[7]⟩, some "class A;".toUTF8)]) := by
    unfold ImageDraft.scanned ImageDraft.readModules ModuleDraft.readWith
      ModuleDescriptor.readStream ModuleDescriptor.readMethodsWithLines DebugInfo.remapMethods
    simp only [Method.sort_eq_insertSort]
    decide +kernel
  obtain ⟨info, hinfo, -, hsaid⟩ := writable_catalogDraft.exists_decode_of_scan hscan
  obtain ⟨hmethods, htokenLines, hsources⟩ := by simpa only [Prod.mk.injEq] using hsaid
  exact ⟨info, hinfo, hmethods, htokenLines, hsources⟩

theorem catalog_round_trip_catalogDraft :
    catalogDraft.Writable ["a.cs"] ∧ ∃ info, DebugInfo.decode catalogDraft.image = .ok info ∧
      catalogDraft.Catalogued ["a.cs"] info ∧
      info.methods.toList.map (fun method => (method.token, method.name, method.lines.length))
        = [(0x06000009, some "a", 1)] ∧
      info.tokenLines.toList.map (fun entry => (entry.1, entry.2.size)) = [(0x02000002, 1)] ∧
      info.sources.toList.map (fun file => (file.name, file.checksum, file.embeddedSource))
        = [("a.cs", ⟨#[7]⟩, some "class A;".toUTF8)] := by
  obtain ⟨info, hinfo, hsaid⟩ := exists_decode_catalogDraft
  have hcatalogued := (catalog_round_trip writable_catalogDraft).2 info hinfo
  exact ⟨writable_catalogDraft, info, hinfo, hcatalogued, hsaid⟩

end ImageDraft

end ManagedPdb
