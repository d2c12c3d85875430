import ManagedPdb.Proofs.DebugInfo.Streams
import ManagedPdb.Proofs.Draft.Modules
import ManagedPdb.Proofs.Draft.Names

/-!
# Decoding a file that was written

What a file says that was written from a draft is a function of the draft alone
(`DebugInfo.decode_image`).  That function, `ImageDraft.decoded`, knows no stream numbers and no
formats but those of the modules and of the streams about source files: it looks names up in the
list of names that were added, and streams in the list of named streams.
-/

namespace ManagedPdb

namespace ImageDraft

/-- The draft can be written, and `names` are the names that were added to its name table. -/
structure Writable (draft : ImageDraft) (names : List String) : Prop where
  hasNameTable : draft.hasNameTable = true
  nameBuffer : draft.nameBuffer = (names.foldl addName {}).nameBuffer
  names : ∀ name ∈ names, ZeroFree name
  streamNames : ∀ stream ∈ draft.namedStreams, ZeroFree stream.1
  distinct : (draft.namedStreams.map fun stream => Upper.ofString stream.1).Nodup
  /-- No other stream has the name of the name table. -/
  reserved : ∀ stream ∈ draft.namedStreams, Upper.ofString stream.1 ≠ "/NAMES"
  modules : ∀ descriptor ∈ draft.modules, descriptor.Named
  /-- A module without a stream announces lines, too. -/
  lineSizes : ∀ descriptor ∈ draft.modules, descriptor.lines.size < 2 ^ 32
  count : draft.streams.length < 65535
  fits : Layout.Fits draft.pageSize draft.streams

/-- A draft without named streams, in pages of the usual size. -/
theorem Writable.of_modules {draft : ImageDraft} {added : List String}
    (hasNameTable : draft.hasNameTable = true)
    (nameBuffer : draft.nameBuffer = (added.foldl addName {}).nameBuffer)
    (noStreams : draft.namedStreams = []) (usualPages : draft.pageSize = 512)
    (names : ∀ name ∈ added, ZeroFree name)
    (modules : ∀ descriptor ∈ draft.modules, ZeroFree descriptor.name ∧
      ZeroFree descriptor.objectName ∧ descriptor.lines.size < 2 ^ 32)
    (count : draft.streams.length < 65535) (sizes : ∀ stream ∈ draft.streams, stream.size < 2 ^ 31)
    (directory : Layout.directorySize 512 draft.streams < 2 ^ 32)
    (roots : Header.fixedSize
      + 4 * pagesFor (4 * pagesFor (Layout.directorySize 512 draft.streams) 512) 512 ≤ 512) :
    draft.Writable added where
  hasNameTable := hasNameTable
  nameBuffer := nameBuffer
  names := names
  streamNames := by simp [noStreams]
  distinct := by simp [noStreams]
  reserved := by simp [noStreams]
  modules := fun descriptor member =>
    ⟨(modules descriptor member).1, (modules descriptor member).2.1⟩
  lineSizes := fun descriptor member => (modules descriptor member).2.2
  count := count
  fits := by
    rw [usualPages]
    exact ⟨⟨9, by decide, by decide, rfl⟩, sizes, directory, roots⟩

/-! ### What a draft says -/

/-- The content of the stream with a name, in whatever case. -/
def contentOf? (draft : ImageDraft) (name : String) : Option ByteArray :=
  (draft.allNamedStreams.find? fun stream => Upper.ofString stream.1 == Upper.ofString name).map
    Prod.snd

/-- Adds to `file` what the stream about it says, if there is such a stream and it is not empty. -/
def describe (draft : ImageDraft) (file : SourceFile) : Except DecodeError SourceFile :=
  match draft.contentOf? (sourceStreamName file.name) with
  | none => .ok file
  | some content => if content.size = 0 then .ok file else file.readStream.run content

/-- The entry of the file that a checksum record names, which is new if the name is. -/
def load (draft : ImageDraft) (names : List String) : SourceLoader SourceTable :=
  fun nameId checksumKind checksum table =>
    match (nameTable names).name? nameId with
    | none => .error (.ofKind (.unknownName nameId))
    | some name =>
      match table.find? name with
      | some ref => .ok (ref, table)
      | none => do
        let file ← draft.describe { SourceFile.ofName name with checksumKind, checksum }
        return table.add file

/-- The token remap table. -/
def remap (draft : ImageDraft) : TokenRemap :=
  match draft.tokenRemap with
  | none => .identity
  | some table => .ofTable table

/-- The source server script. -/
def sourceServer (draft : ImageDraft) : String :=
  match draft.contentOf? "SRCSRV" with
  | none => ""
  | some content => Lossy.decode content

/-- The modules with the numbers of their streams. -/
def numberedModules (draft : ImageDraft) : List (ModuleDraft × Option UInt16) :=
  draft.modules.zip (moduleStreamNumbers (4 + draft.allNamedStreams.length) draft.modules)

end ImageDraft

/-- Adds what a module says, where `load` finds its source files. -/
def ModuleDraft.readWith {σ : Type} (descriptor : ModuleDraft) (load : SourceLoader σ)
    (findings : ModuleFindings σ) : Except DecodeError (ModuleFindings σ) :=
  match descriptor.stream? with
  | none => .ok findings
  | some content => ((descriptor.written none).readStream load true findings).run content

namespace ImageDraft

/-- Adds what the modules say, one after the other. -/
def readModules {σ : Type} (draft : ImageDraft) (load : SourceLoader σ) (sources : σ) :
    Except DecodeError (ModuleFindings σ) :=
  draft.modules.foldlM (fun findings descriptor => descriptor.readWith load findings)
    (.empty sources)

/-- What a file that was written from the draft says. -/
def decoded (draft : ImageDraft) (names : List String) : Except DecodeError DebugInfo := do
  let findings ← draft.readModules (draft.load names) .empty
  let methods ← DebugInfo.remapMethods draft.remap findings.methods.toList
  return {
    version := 20000404
    signature := draft.signature
    age := draft.age
    debugAge := draft.debugAge
    guid := draft.guid
    modules := writtenModules draft.numberedModules
    methods
    lastOfToken := DebugInfo.indexTokens methods
    tokenLines := findings.tokenLines
    sources := findings.sources.files
    sourceServer := draft.sourceServer }

/-! ### Numbers of streams -/

variable {draft : ImageDraft} {names : List String}

/-- The names of the named streams with their numbers. -/
def numberedNames (draft : ImageDraft) : List (String × UInt32) :=
  ((draft.allNamedStreams.map Prod.fst).zipIdx 4).map fun (name, number) =>
    (name, UInt32.ofNat number)

/-- The table of new rows, as a stream. -/
def remapStream? (draft : ImageDraft) : Option ByteArray := draft.tokenRemap.map Bytes.uint32s

/-- The number of the stream with the token remap table. -/
def remapNumber (draft : ImageDraft) : Nat :=
  4 + draft.allNamedStreams.length + (draft.modules.filterMap ModuleDraft.stream?).length

/-- The streams with fixed numbers and the others behind them. -/
theorem streams_eq (draft : ImageDraft) :
    draft.streams = [ByteArray.empty, draft.infoStream draft.numberedNames, ByteArray.empty,
        draft.debugStream (moduleStreamNumbers (4 + draft.allNamedStreams.length) draft.modules)
          (draft.remapStream?.map fun _ => UInt16.ofNat draft.remapNumber)]
      ++ (draft.allNamedStreams.map Prod.snd
        ++ (draft.modules.filterMap ModuleDraft.stream? ++ draft.remapStream?.toList)) := by
  rw [streams]
  simp only [List.append_assoc]
  rfl

/-- The library that is read from the streams. -/
def library (draft : ImageDraft) (names : List String) : StreamLibrary where
  streams := draft.streams
  info := draft.identity draft.numberedNames
  names := nameTable names

/-- The content at a place of the list. -/
theorem content_ofNat {streams : Streams} {number : Nat} (hnumber : number < 2 ^ 32)
    {content : ByteArray} (h : streams[number]? = some content) :
    streams.content (UInt32.ofNat number) = .ok content := by
  rw [Streams.content, UInt32.toNat_ofNat_of_lt' hnumber, h]

/-- The streams behind those with fixed numbers. -/
theorem streams_getElem? (draft : ImageDraft) (place : Nat) :
    draft.streams[4 + place]? = (draft.allNamedStreams.map Prod.snd
      ++ (draft.modules.filterMap ModuleDraft.stream? ++ draft.remapStream?.toList))[place]? := by
  rw [streams_eq, List.getElem?_append_right (Nat.le_add_right 4 place), List.length_cons]
  exact congrArg (_[·]?) (Nat.add_sub_cancel_left 4 place)

theorem numberedNames_getElem? (draft : ImageDraft) (place : Nat) :
    draft.numberedNames[place]?
      = draft.allNamedStreams[place]?.map fun stream => (stream.1, UInt32.ofNat (4 + place)) := by
  rw [numberedNames, List.getElem?_map, List.getElem?_zipIdx, List.getElem?_map]
  cases draft.allNamedStreams[place]? <;> rfl

theorem fst_numberedNames (draft : ImageDraft) :
    draft.numberedNames.map Prod.fst = draft.allNamedStreams.map Prod.fst := by
  rw [numberedNames, List.map_map]
  exact List.zipIdx_map_fst ..

namespace Writable

theorem allNamedStreams_eq (writable : draft.Writable names) :
    draft.allNamedStreams = ("/names", draft.nameStream) :: draft.namedStreams := by
  rw [allNamedStreams, if_pos writable.hasNameTable]

theorem distinct_all (writable : draft.Writable names) :
    (draft.allNamedStreams.map fun stream => Upper.ofString stream.1).Nodup := by
  have hreserved : Upper.ofString "/names" = "/NAMES" := by decide
  rw [writable.allNamedStreams_eq, List.map_cons, List.nodup_cons, hreserved]
  refine ⟨?_, writable.distinct⟩
  intro member
  obtain ⟨stream, hstream, heq⟩ := List.mem_map.mp member
  exact writable.reserved stream hstream heq

theorem distinct_numbered (writable : draft.Writable names) :
    (draft.numberedNames.map fun stream => Upper.ofString stream.1).Nodup := by
  have hmap : ∀ {α : Type} (streams : List (String × α)),
      (streams.map fun stream => Upper.ofString stream.1)
        = (streams.map Prod.fst).map Upper.ofString := by simp
  rw [hmap, fst_numberedNames, ← hmap]
  exact writable.distinct_all

theorem content_of_place (writable : draft.Writable names) {place : Nat} {content : ByteArray}
    (h : draft.streams[4 + place]? = some content) :
    Streams.content draft.streams (UInt32.ofNat (4 + place)) = .ok content := by
  obtain ⟨hplace, -⟩ := List.getElem?_eq_some_iff.mp h
  have hcount := writable.count
  exact content_ofNat (by omega) h

theorem content_named (writable : draft.Writable names) {place : Nat} {stream : String × ByteArray}
    (h : draft.allNamedStreams[place]? = some stream) :
    Streams.content draft.streams (UInt32.ofNat (4 + place)) = .ok stream.2 := by
  obtain ⟨hplace, -⟩ := List.getElem?_eq_some_iff.mp h
  apply writable.content_of_place
  rw [streams_getElem?, List.getElem?_append_left (by rwa [List.length_map]), List.getElem?_map, h]
  rfl

/-- A named stream is found by its name, and has its content. -/
theorem stream?_cases (writable : draft.Writable names) (name : String) :
    (∃ index content, (draft.identity draft.numberedNames).stream? name = some index ∧
        Streams.content draft.streams index = .ok content ∧ draft.contentOf? name = some content) ∨
      (draft.identity draft.numberedNames).stream? name = none ∧ draft.contentOf? name = none := by
  unfold contentOf?
  cases hfind : draft.allNamedStreams.find? fun stream =>
      Upper.ofString stream.1 == Upper.ofString name with
  | some stream =>
    left
    have hname := List.find?_some hfind
    rw [beq_iff_eq] at hname
    obtain ⟨place, hplace⟩ := List.getElem?_of_mem (List.mem_of_find?_eq_some hfind)
    have hnumbered : (stream.1, UInt32.ofNat (4 + place)) ∈ draft.numberedNames := by
      apply List.mem_of_getElem?
      rw [numberedNames_getElem?, hplace]
      rfl
    refine ⟨UInt32.ofNat (4 + place), stream.2, ?_, writable.content_named hplace, rfl⟩
    exact draft.stream?_identity_of_mem writable.distinct_numbered hnumbered hname
  | none =>
    right
    refine ⟨?_, rfl⟩
    apply draft.stream?_identity_of_not_mem
    intro stream member heq
    have hfst := List.mem_map_of_mem member (f := Prod.fst)
    rw [fst_numberedNames, List.mem_map] at hfst
    obtain ⟨named, hnamed, hfst⟩ := hfst
    apply List.find?_eq_none.mp hfind named hnamed
    rw [hfst, heq]
    exact beq_self_eq_true _

theorem nameBuffer_eq (writable : draft.Writable names) : draft.nameBuffer = bufferOf names := by
  rw [writable.nameBuffer, nameBuffer_addNames]

theorem size_bufferOf_lt (writable : draft.Writable names) : (bufferOf names).size < 2 ^ 32 := by
  have hstream : draft.nameStream ∈ draft.streams := by
    rw [streams_eq, writable.allNamedStreams_eq]
    simp
  have hsize := writable.fits.sizes _ hstream
  rw [nameStream, writable.nameBuffer_eq] at hsize
  simp only [ByteArray.size_append] at hsize
  omega

theorem size_namedBuffer_lt (writable : draft.Writable names) :
    (namedBuffer draft.numberedNames).size < 2 ^ 32 := by
  have hstream : draft.infoStream draft.numberedNames ∈ draft.streams := by
    rw [streams_eq]
    simp
  have hsize := writable.fits.sizes _ hstream
  rw [infoStream_eq, identityBytes] at hsize
  simp only [ByteArray.size_append] at hsize
  omega

theorem zeroFree_numbered (writable : draft.Writable names) :
    ∀ stream ∈ draft.numberedNames, ZeroFree stream.1 := by
  intro stream member
  have hfst := List.mem_map_of_mem member (f := Prod.fst)
  rw [fst_numberedNames, writable.allNamedStreams_eq, List.map_cons, List.mem_cons,
    List.mem_map] at hfst
  rcases hfst with hnames | ⟨named, hnamed, hfst⟩
  · rw [hnames]
    show ZeroFree "/names"
    decide
  · rw [← hfst]
    exact writable.streamNames named hnamed

theorem length_numbered (writable : draft.Writable names) :
    draft.numberedNames.length < 2 ^ 32 := by
  have hcount := writable.count
  have hlength : draft.numberedNames.length = draft.allNamedStreams.length := by
    rw [← List.length_map (f := Prod.fst), fst_numberedNames, List.length_map]
  rw [streams_eq] at hcount
  simp only [List.length_append, List.length_map] at hcount
  omega

/-! ### Streams with fixed numbers -/

theorem infoStream_run (writable : draft.Writable names) :
    Streams.content draft.streams infoStreamIndex >>= InfoStream.read.run
      = .ok (draft.identity draft.numberedNames) := by
  have hinfo : Streams.content draft.streams infoStreamIndex
      = .ok (draft.infoStream draft.numberedNames) := by
    rw [Streams.content, streams_eq]
    rfl
  rw [hinfo, ok_bind, infoStream_eq]
  exact (draft.reads_identity writable.zeroFree_numbered writable.distinct_numbered
    writable.length_numbered writable.size_namedBuffer_lt).run_append

/-- The name table is the first of the named streams. -/
theorem stream?_nameTable (writable : draft.Writable names) :
    (draft.identity draft.numberedNames).stream? "/NAMES" = some 4 := by
  have hnumbered : ("/names", UInt32.ofNat 4) ∈ draft.numberedNames := by
    apply List.mem_of_getElem? (i := 0)
    rw [numberedNames_getElem?, writable.allNamedStreams_eq]
    rfl
  exact draft.stream?_identity_of_mem writable.distinct_numbered hnumbered (by decide)

theorem nameTable_run (writable : draft.Writable names) :
    Streams.content draft.streams 4 >>= NameTable.read.run = .ok (nameTable names) := by
  have hfirst : draft.allNamedStreams[0]? = some ("/names", draft.nameStream) := by
    rw [writable.allNamedStreams_eq]
    rfl
  have hcontent : Streams.content draft.streams 4 = .ok draft.nameStream :=
    writable.content_named hfirst
  rw [hcontent, ok_bind, nameStream_eq writable.nameBuffer_eq writable.names]
  exact (reads_nameTable writable.names writable.size_bufferOf_lt).run_append

theorem ofStreams_streams (writable : draft.Writable names) :
    StreamLibrary.ofStreams draft.streams = .ok (draft.library names) := by
  rw [StreamLibrary.ofStreams, ← bind_assoc, writable.infoStream_run, ok_bind]
  simp only [writable.stream?_nameTable]
  rw [← bind_assoc, writable.nameTable_run]
  rfl

theorem debugStream_run (writable : draft.Writable names) :
    (do (DebugStream.read true).run (← Streams.content draft.streams debugStreamIndex))
      = .ok { age := draft.debugAge
              modules := writtenModules draft.numberedModules
              tokenRemapStream := (draft.remapStream?.map fun _ =>
                UInt16.ofNat draft.remapNumber).bind streamOfField } := by
  generalize hstream : draft.debugStream
    (moduleStreamNumbers (4 + draft.allNamedStreams.length) draft.modules)
    (draft.remapStream?.map fun _ => UInt16.ofNat draft.remapNumber) = stream
  have hcontent : Streams.content draft.streams debugStreamIndex = .ok stream := by
    rw [Streams.content, streams_eq, hstream]
    rfl
  have hsize := writable.fits.sizes stream (by rw [streams_eq, hstream]; simp)
  rw [hcontent, ok_bind]
  subst hstream
  exact (reads_debugStream writable.modules _ _ (by omega)).run_eq

end Writable

/-! ### The token remap table -/

/-- A number that is neither zero nor too large is a stream number. -/
theorem streamOfField_ofNat {number : Nat} (hpos : 0 < number) (hlt : number < 65535) :
    streamOfField (UInt16.ofNat number) = some (UInt32.ofNat number) := by
  have hnat : (UInt16.ofNat number).toNat = number :=
    UInt16.toNat_ofNat_of_lt' (Nat.lt_trans hlt (by decide))
  have hfield : ¬(UInt16.ofNat number = 0 ∨ UInt16.ofNat number = 0xffff) := by
    rintro (h | h)
    · rw [h] at hnat
      exact absurd hnat (by simp; omega)
    · rw [h] at hnat
      exact absurd hnat (by simp; omega)
  rw [streamOfField, if_neg hfield]
  congr 1
  rw [← UInt32.toNat_inj, UInt16.toNat_toUInt32, hnat,
    UInt32.toNat_ofNat_of_lt' (Nat.lt_trans hlt (by decide))]

theorem read_remap (table : List UInt32) :
    TokenRemap.read.run (Bytes.uint32s table) = .ok (.ofTable table) := by
  have hcount : (Bytes.uint32s table).size / 4 = table.length := by
    rw [Bytes.size_uint32s]
    omega
  have hrows : Reads (do return TokenRemap.ofTable (← Reader.uint32s table.length)) 0
      (Bytes.uint32s table) (.ofTable table) := .bind_pure TokenRemap.ofTable (.uint32s table)
  rw [Reader.run, TokenRemap.read, Reader.bind_apply, Reader.size]
  simp only [hcount, hrows _ (.self _)]

namespace Writable

theorem remapOfStreams_eq (writable : draft.Writable names) {debug : DebugStream}
    (hdebug : debug.tokenRemapStream
      = (draft.remapStream?.map fun _ => UInt16.ofNat draft.remapNumber).bind streamOfField) :
    DebugInfo.remapOfStreams {} draft.streams debug = .ok draft.remap := by
  unfold DebugInfo.remapOfStreams remap
  cases htable : draft.tokenRemap with
  | none =>
    rw [remapStream?, htable] at hdebug
    rw [hdebug]
    rfl
  | some table =>
    rw [remapStream?, htable] at hdebug
    -- the table is the last stream
    have hplace : draft.streams[draft.remapNumber]? = some (Bytes.uint32s table) := by
      rw [remapNumber, Nat.add_assoc, streams_getElem?, remapStream?, htable, ← List.append_assoc,
        List.getElem?_append_right (by simp)]
      simp
    have hcount := writable.count
    have hlt := (List.getElem?_eq_some_iff.mp hplace).1
    have hpos : 0 < draft.remapNumber := by
      rw [remapNumber]
      omega
    have hcontent : Streams.content draft.streams (UInt32.ofNat draft.remapNumber)
        = .ok (Bytes.uint32s table) := content_ofNat (by omega) hplace
    have hstream : debug.tokenRemapStream = some (UInt32.ofNat draft.remapNumber) := by
      rw [hdebug]
      exact streamOfField_ofNat hpos (by omega)
    rw [hstream]
    simp only [if_true, hcontent, ok_bind, read_remap]

end Writable

/-! ### Modules -/

/-- A module has the number of its stream, which stands where the streams of modules do. -/
theorem mem_zip_moduleStreamNumbers {modules : List ModuleDraft} {next : Nat} :
    ∀ entry ∈ modules.zip (moduleStreamNumbers next modules),
      (entry.1.stream? = none ∧ entry.2 = none) ∨
        ∃ place content, entry.1.stream? = some content ∧
          entry.2 = some (UInt16.ofNat (next + place)) ∧
          (modules.filterMap ModuleDraft.stream?)[place]? = some content := by
  induction modules generalizing next with
  | nil => intro entry member; cases member
  | cons descriptor modules ih =>
    intro entry member
    rw [moduleStreamNumbers] at member
    cases hsymbols : descriptor.symbols with
    | none =>
      have hstream : descriptor.stream? = none := by rw [ModuleDraft.stream?, hsymbols]; rfl
      rw [hsymbols, if_neg (by simp), List.zip_cons_cons, List.mem_cons] at member
      rw [List.filterMap_cons, hstream]
      rcases member with rfl | member
      · exact .inl ⟨hstream, rfl⟩
      · exact ih entry member
    | some symbols =>
      have hstream : descriptor.stream? = some (symbols ++ descriptor.lines) := by
        rw [ModuleDraft.stream?, hsymbols]
        rfl
      rw [hsymbols, if_pos Option.isSome_some, List.zip_cons_cons, List.mem_cons] at member
      rw [List.filterMap_cons, hstream]
      rcases member with rfl | member
      · exact .inr ⟨0, _, hstream, rfl, rfl⟩
      · rcases ih entry member with hnone | ⟨place, content, hcontent, hnumber, hplace⟩
        · exact .inl hnone
        · refine .inr ⟨place + 1, content, hcontent, ?_, hplace⟩
          rw [hnumber, Nat.add_right_comm, Nat.add_assoc]

@[simp] theorem length_moduleStreamNumbers (next : Nat) (modules : List ModuleDraft) :
    (moduleStreamNumbers next modules).length = modules.length := by
  induction modules generalizing next with
  | nil => rfl
  | cons descriptor modules ih =>
    rw [moduleStreamNumbers]
    split <;> rw [List.length_cons, ih, List.length_cons]

end ImageDraft

namespace ModuleDraft

variable {descriptor : ModuleDraft} {content : ByteArray}

/-- The regions of a module fill its stream. -/
theorem linesEnd_written (hcontent : descriptor.stream? = some content)
    (hsize : content.size < 2 ^ 32) (stream : Option UInt16) :
    (descriptor.written stream).linesEnd = content.size := by
  rw [ModuleDraft.stream?, Option.map_eq_some_iff] at hcontent
  obtain ⟨symbols, hsymbols, rfl⟩ := hcontent
  rw [ByteArray.size_append] at hsize ⊢
  have hsymbolsSize : descriptor.symbolsSize = symbols.size := by
    rw [symbolsSize, hsymbols]
    rfl
  rw [ModuleDescriptor.linesEnd, ModuleDescriptor.linesStart, ModuleDescriptor.symbolsEnd, written,
    hsymbolsSize, UInt32.toNat_ofNat', UInt32.toNat_ofNat', Nat.mod_eq_of_lt (by omega),
    Nat.mod_eq_of_lt (by omega), UInt32.toNat_zero, Nat.add_zero]

end ModuleDraft

namespace ImageDraft

variable {draft : ImageDraft} {names : List String}

namespace Writable

theorem load_eq (writable : draft.Writable names) :
    (draft.library names).load = draft.load names := by
  have hdescribe : ∀ file, (draft.library names).describe file = draft.describe file := by
    intro file
    unfold StreamLibrary.describe describe
    rcases writable.stream?_cases (sourceStreamName file.name)
      with ⟨index, content, hindex, hcontent, hname⟩ | ⟨hindex, hname⟩
    · simp only [library, hindex, hcontent, hname, ok_bind]
      rfl
    · simp only [library, hindex, hname]
  unfold StreamLibrary.load load
  simp only [hdescribe]
  rfl

theorem sourceServer_eq (writable : draft.Writable names) :
    (draft.library names).sourceServer = .ok draft.sourceServer := by
  unfold StreamLibrary.sourceServer sourceServer
  rcases writable.stream?_cases "SRCSRV"
    with ⟨index, content, hindex, hcontent, hname⟩ | ⟨hindex, hname⟩
  · simp only [library, hindex, hcontent, hname, ok_bind]
    rfl
  · simp only [library, hindex, hname]

/-- A module without a stream is listed without one, and any other with the number of its own. -/
theorem module_cases (writable : draft.Writable names) :
    ∀ entry ∈ draft.numberedModules,
      (entry.1.stream? = none ∧ (entry.1.written entry.2).stream? = none) ∨
        ∃ index content, entry.1.stream? = some content ∧
          (entry.1.written entry.2).stream? = some index ∧
          Streams.content draft.streams index = .ok content ∧ content.size < 2 ^ 31 := by
  intro entry member
  rcases mem_zip_moduleStreamNumbers entry member
    with ⟨hstream, hnumber⟩ | ⟨place, content, hstream, hnumber, hplace⟩
  · refine .inl ⟨hstream, ?_⟩
    rw [ModuleDescriptor.stream?, hnumber]
    rfl
  · -- the streams of modules stand behind those with names
    have hcontent : draft.streams[4 + (draft.allNamedStreams.length + place)]? = some content := by
      rw [streams_getElem?, List.getElem?_append_right (by simp), List.length_map,
        Nat.add_sub_cancel_left, List.getElem?_append_left (List.getElem?_eq_some_iff.mp hplace).1,
        hplace]
    have hcount := writable.count
    have hlt := (List.getElem?_eq_some_iff.mp hcontent).1
    refine .inr ⟨_, content, hstream, ?_, writable.content_of_place hcontent,
      writable.fits.sizes content (List.mem_of_getElem? hcontent)⟩
    rw [ModuleDescriptor.stream?, hnumber, Nat.add_assoc]
    exact streamOfField_ofNat (by omega) (by omega)

theorem decodeModule_eq (writable : draft.Writable names) (findings : ModuleFindings SourceTable) :
    ∀ entry ∈ draft.numberedModules,
      (draft.library names).decodeModule true findings (entry.1.written entry.2)
        = entry.1.readWith (draft.load names) findings := by
  intro entry member
  unfold StreamLibrary.decodeModule ModuleDraft.readWith
  rcases writable.module_cases entry member
    with ⟨hnone, hwritten⟩ | ⟨index, content, hstream, hwritten, hcontent, hsize⟩
  · rw [hnone, hwritten]
  · have hregions := ModuleDraft.linesEnd_written hstream (by omega) entry.2
    have hread : (draft.library names).streams.content index = .ok content := hcontent
    simp only [hwritten, hstream, hread, ok_bind, hregions, Nat.lt_irrefl, if_false,
      writable.load_eq]
    rfl

/-- The modules are read one after the other, in any form in which each is read alike. -/
theorem foldlM_modules (writable : draft.Writable names) (findings : ModuleFindings SourceTable) :
    (writtenModules draft.numberedModules).foldlM ((draft.library names).decodeModule true) findings
      = draft.modules.foldlM (fun findings descriptor =>
          descriptor.readWith (draft.load names) findings) findings := by
  have hmodules : draft.numberedModules.map Prod.fst = draft.modules :=
    List.map_fst_zip (by simp)
  conv_rhs => rw [← hmodules]
  rw [writtenModules, List.foldlM_map, List.foldlM_map]
  apply ResultSim.eq
  apply ResultSim.foldlM draft.numberedModules ?_ rfl
  rintro entry member state _ rfl
  rw [← writable.decodeModule_eq state entry member]
  exact .refl _

/-- What is read from a file that was written from the draft. -/
theorem ofStreams_eq (writable : draft.Writable names) :
    DebugInfo.ofStreams {} draft.streams = draft.decoded names := by
  unfold DebugInfo.ofStreams decoded readModules
  rw [writable.ofStreams_streams, ok_bind, ← bind_assoc, writable.debugStream_run, ok_bind,
    writable.remapOfStreams_eq rfl, ok_bind]
  dsimp only
  rw [writable.foldlM_modules]
  simp only [writable.sourceServer_eq, ok_bind]
  rfl

end Writable

end ImageDraft

/-- A file that was laid out has the streams that were put in. -/
theorem Layout.exists_holds {pageSize : UInt32} {streams : Streams} (fits : Fits pageSize streams) :
    ∃ container, Container.ofImage (image pageSize streams) = .ok container ∧
      container.Holds streams :=
  ⟨_, ofImage_image fits, Container.paged_of_ofImage (ofImage_image fits), contents_image fits⟩

/-- A file that was laid out says what its streams say. -/
theorem DebugInfo.decodeWith_layout {pageSize : UInt32} {streams : Streams}
    (fits : Layout.Fits pageSize streams) (options : DecodeOptions) :
    decodeWith options (Layout.image pageSize streams) = ofStreams options streams := by
  obtain ⟨container, hcontainer, holds⟩ := Layout.exists_holds fits
  rw [decodeWith, hcontainer, ok_bind, run'_ofContainer holds]

/-- What is said of what the streams say is said of the file. -/
theorem DebugInfo.exists_decodeWith_layout {pageSize : UInt32} {streams : Streams}
    (fits : Layout.Fits pageSize streams) {options : DecodeOptions} {α : Type}
    {say : DebugInfo → α} {said : α}
    (h : (ofStreams options streams).toOption.map say = some said) :
    ∃ info, decodeWith options (Layout.image pageSize streams) = .ok info ∧ say info = said := by
  rw [decodeWith_layout fits]
  cases hread : ofStreams options streams with
  | error error =>
    rw [hread] at h
    cases h
  | ok info =>
    rw [hread] at h
    exact ⟨info, rfl, Option.some.inj h⟩

theorem DebugInfo.decodeWith_image {draft : ImageDraft}
    (fits : Layout.Fits draft.pageSize draft.streams) (options : DecodeOptions) :
    decodeWith options draft.image = ofStreams options draft.streams :=
  decodeWith_layout fits options

/-- A file that was written says what the draft says. -/
theorem DebugInfo.decode_image {draft : ImageDraft} {names : List String}
    (writable : draft.Writable names) : decode draft.image = draft.decoded names := by
  rw [decode, decodeWith_image writable.fits, writable.ofStreams_eq]

/-- What is said of what the draft says is said of the file. -/
theorem DebugInfo.exists_decode_image {draft : ImageDraft} {names : List String}
    (writable : draft.Writable names) {α : Type} {say : DebugInfo → α} {said : α}
    (h : (draft.decoded names).toOption.map say = some said) :
    ∃ info, decode draft.image = .ok info ∧ say info = said :=
  exists_decodeWith_layout writable.fits (by rwa [writable.ofStreams_eq])

end ManagedPdb
