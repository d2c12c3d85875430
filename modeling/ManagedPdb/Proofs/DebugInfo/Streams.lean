import ManagedPdb.DebugInfo.Decode
import ManagedPdb.Draft.Image
import ManagedPdb.Proofs.Container.Staging
import ManagedPdb.Proofs.Draft.Layout
import ManagedPdb.Proofs.Simulation

/-!
# Decoding from the contents of streams

What a file says is a function of the contents of its streams.  `DebugInfo.ofStreams` is that
function: it knows no pages and no cursors, only a list of contents.  A container whose streams
can all be read is decoded as that function decodes their contents, whatever the cursors hold at
first (`DebugInfo.run'_ofContainer`).  The main statement compares two files: if their streams
have the same contents, then they are decoded alike, wherever the pages lie.
-/

namespace ManagedPdb

/-- The contents of the streams of a container, by number. -/
abbrev Streams : Type := List ByteArray

/-- The content of the stream with a number. -/
def Streams.content (streams : Streams) (index : UInt32) : Except DecodeError ByteArray :=
  match streams[index.toNat]? with
  | some content => .ok content
  | none => .error (.ofKind (.invalidStreamIndex index))

/-- All streams of the container can be read, and these are their contents. -/
structure Container.Holds (container : Container) (streams : Streams) : Prop where
  paged : 0 < container.file.pageSize.toNat
  contents : container.directory.streams.toList.map (·.content container.file)
    = streams.map Except.ok

/-! ### The function of the contents -/

/-- What is needed to find out about a source file, with the streams as their contents. -/
structure StreamLibrary where
  streams : Streams
  info : InfoStream
  names : NameTable

namespace StreamLibrary

def ofStreams (streams : Streams) : Except DecodeError StreamLibrary := do
  let info ← InfoStream.read.run (← streams.content infoStreamIndex)
  match info.stream? "/NAMES" with
  | none => throw (.ofKind .missingNamesStream)
  | some index => return { streams, info, names := ← NameTable.read.run (← streams.content index) }

/-- Adds to `file` what the stream about it says, if there is such a stream and it is not empty. -/
def describe (library : StreamLibrary) (file : SourceFile) : Except DecodeError SourceFile :=
  match library.info.stream? (sourceStreamName file.name) with
  | none => .ok file
  | some index => do
    let content ← library.streams.content index
    if content.size = 0 then return file else file.readStream.run content

/-- The entry of the file that a checksum record names, which is new if the name is. -/
def load (library : StreamLibrary) : SourceLoader SourceTable :=
  fun nameId checksumKind checksum table =>
    match library.names.name? nameId with
    | none => .error (.ofKind (.unknownName nameId))
    | some name =>
      match table.find? name with
      | some ref => .ok (ref, table)
      | none => do
        let file ← library.describe { SourceFile.ofName name with checksumKind, checksum }
        return table.add file

/-- Adds what a module says. -/
def decodeModule (library : StreamLibrary) (keepNames : Bool)
    (findings : ModuleFindings SourceTable) (descriptor : ModuleDescriptor) :
    Except DecodeError (ModuleFindings SourceTable) :=
  match descriptor.stream? with
  | none => .ok findings
  | some index => do
    let content ← library.streams.content index
    if content.size < descriptor.linesEnd then throw (.ofKind .invalidModuleRegions)
    (descriptor.readStream library.load keepNames findings).run content

/-- The source server script. -/
def sourceServer (library : StreamLibrary) : Except DecodeError String :=
  match library.info.stream? "SRCSRV" with
  | none => .ok ""
  | some index => return Lossy.decode (← library.streams.content index)

end StreamLibrary

namespace DebugInfo

/-- The token remap table that is to be applied. -/
def remapOfStreams (options : DecodeOptions) (streams : Streams) (debug : DebugStream) :
    Except DecodeError TokenRemap :=
  match debug.tokenRemapStream with
  | none => .ok .identity
  | some index =>
    if options.applyTokenRemap then do TokenRemap.read.run (← streams.content index)
    else .ok .identity

/-- What the streams with the given contents say. -/
def ofStreams (options : DecodeOptions) (streams : Streams) : Except DecodeError DebugInfo := do
  let library ← StreamLibrary.ofStreams streams
  let debug ← (DebugStream.read options.keepNames).run (← streams.content debugStreamIndex)
  let remap ← remapOfStreams options streams debug
  let findings ← debug.modules.foldlM (library.decodeModule options.keepNames) (.empty .empty)
  let methods ← remapMethods remap findings.methods.toList
  let sourceServer ← library.sourceServer
  return {
    version := library.info.version
    signature := library.info.signature
    age := library.info.age
    debugAge := debug.age
    guid := library.info.guid
    modules := debug.modules
    methods
    lastOfToken := indexTokens methods
    tokenLines := findings.tokenLines
    sources := findings.sources.files
    sourceServer }

end DebugInfo

/-! ### Streams of a container -/

variable {α β : Type} {container : Container} {streams : Streams}

namespace Container.Holds

/-- A stream number that is listed has a content, and any other is refused. -/
theorem stream_eq (holds : container.Holds streams) (index : UInt32) :
    (∃ stream content, container.directory.stream index = .ok stream ∧
        stream.content container.file = .ok content ∧ content.size = stream.length.toNat ∧
        streams.content index = .ok content) ∨
      ∃ error, container.directory.stream index = .error error ∧
        streams.content index = .error error := by
  have hlist := congrArg (·[index.toNat]?) holds.contents
  simp only [List.getElem?_map, Array.getElem?_toList] at hlist
  unfold Directory.stream Streams.content
  cases hstream : container.directory.streams[index.toNat]? with
  | none =>
    rw [hstream] at hlist
    cases hcontent : streams[index.toNat]? with
    | none => exact .inr ⟨_, rfl, rfl⟩
    | some content => simp [hcontent] at hlist
  | some stream =>
    rw [hstream] at hlist
    cases hcontent : streams[index.toNat]? with
    | none => simp [hcontent] at hlist
    | some content =>
      rw [hcontent] at hlist
      have hread : stream.content container.file = .ok content := by simpa using hlist
      exact .inl ⟨stream, content, rfl, hread,
        StreamDescriptor.size_of_read_eq_ok holds.paged hread, rfl⟩

theorem content_eq (holds : container.Holds streams) (index : UInt32) :
    container.content index = streams.content index := by
  unfold Container.content
  rcases holds.stream_eq index with ⟨stream, content, hstream, hread, -, hcontent⟩
    | ⟨error, hstream, hcontent⟩
  · rw [hstream, hcontent]
    exact hread
  · rw [hstream, hcontent]
    rfl

end Container.Holds

/-! ### Steps with a cursor -/

/-- The steps with a cursor do what the right side says, whatever the cursor holds. -/
def StagingSim (Related : α → β → Prop) (left : Staging α) (right : Except DecodeError β) : Prop :=
  ∀ cursor : Cursor, ResultSim NoExcuse Related (left.run' cursor) right

namespace StagingSim

variable {γ δ σ τ : Type} {Related : α → β → Prop} {Related' : γ → δ → Prop}

theorem run'_bind (left : Staging α) (next : α → Staging γ) (cursor : Cursor) :
    (left >>= next).run' cursor
      = left cursor >>= fun found => (next found.1).run' found.2 := by
  show (·.1) <$> (left cursor >>= fun found => next found.1 found.2) = _
  rw [map_bind]
  rfl

/-- Both sides are done, and the cursor holds something else, or both fail alike. -/
theorem run_cases {left : Staging α} {right : Except DecodeError β}
    (h : StagingSim Related left right) (cursor : Cursor) :
    (∃ value cursor' value', left cursor = .ok (value, cursor') ∧ right = .ok value' ∧
        Related value value') ∨
      ∃ error, left cursor = .error error ∧ right = .error error := by
  have hresult := h cursor
  unfold StateT.run' at hresult
  cases hleft : left cursor with
  | error error =>
    rw [hleft] at hresult
    cases hresult with
    | error => exact .inr ⟨error, rfl, rfl⟩
    | excused _ excused => exact excused.elim
  | ok found =>
    rw [hleft] at hresult
    cases hresult with
    | ok related => exact .inl ⟨found.1, found.2, _, rfl, rfl, related⟩

protected theorem bind {left : Staging α} {right : Except DecodeError β} {next : α → Staging γ}
    {next' : β → Except DecodeError δ} (h : StagingSim Related left right)
    (hnext : ∀ value value', Related value value' →
      StagingSim Related' (next value) (next' value')) :
    StagingSim Related' (left >>= next) (right >>= next') := by
  intro cursor
  rw [run'_bind]
  rcases h.run_cases cursor
    with ⟨value, cursor', value', hleft, rfl, related⟩ | ⟨error, hleft, rfl⟩
  · rw [hleft]
    exact hnext value value' related cursor'
  · rw [hleft]
    exact .error error

protected theorem pure {value : α} {value' : β} (related : Related value value') :
    StagingSim Related (pure value) (pure value') :=
  fun _ => .ok related

protected theorem throw (error : DecodeError) :
    StagingSim Related (throw error) (.error error) :=
  fun _ => .error error

/-- A step without the cursor. -/
theorem lift {left : Except DecodeError α} {right : Except DecodeError β}
    (h : ResultSim NoExcuse Related left right) :
    StagingSim Related (liftM left : Staging α) right := by
  intro cursor
  cases h with
  | ok related => exact .ok related
  | error error => exact .error error
  | excused _ excused => exact excused.elim

theorem ite {condition condition' : Prop} [Decidable condition] [Decidable condition']
    (hiff : condition ↔ condition') {left left' : Staging α} {right right' : Except DecodeError β}
    (htrue : StagingSim Related left right) (hfalse : StagingSim Related left' right') :
    StagingSim Related (if condition then left else left')
      (if condition' then right else right') := by
  by_cases h : condition
  · rwa [if_pos h, if_pos (hiff.mp h)]
  · rwa [if_neg h, if_neg fun h' => h (hiff.mpr h')]

theorem foldlM {Related : σ → τ → Prop} {step : σ → α → Staging σ}
    {step' : τ → α → Except DecodeError τ}
    (hstep : ∀ item state state', Related state state' →
      StagingSim Related (step state item) (step' state' item))
    (items : List α) {state : σ} {state' : τ} (related : Related state state') :
    StagingSim Related (items.foldlM step state) (items.foldlM step' state') := by
  induction items generalizing state state' with
  | nil => exact .pure related
  | cons item items ih =>
    rw [List.foldlM_cons, List.foldlM_cons]
    exact (hstep item state state' related).bind fun _ _ => ih

/-- A reader that is run on a stream. -/
theorem stage {stream : StreamDescriptor} {file : PageFile} {content : ByteArray}
    (paged : 0 < file.pageSize.toNat) (hcontent : stream.content file = .ok content)
    {left : Reader α} {right : Reader β} (h : ReaderSim NoExcuse Related left right) :
    StagingSim Related (stream.stage file left) (right.run content) := by
  intro cursor
  rw [StreamDescriptor.run'_stage paged, hcontent]
  exact h.run content

/-- A reader that is run on the stream with a number. -/
theorem stage_index (holds : container.Holds streams) (index : UInt32) (reader : Reader α) :
    StagingSim Eq (container.stage index reader) (streams.content index >>= reader.run) := by
  rcases holds.stream_eq index with ⟨stream, content, hstream, hread, -, hcontent⟩
    | ⟨error, hstream, hcontent⟩
  · unfold Container.stage
    rw [hstream, hcontent]
    exact stage holds.paged hread (.refl reader)
  · unfold Container.stage
    rw [hstream, hcontent]
    exact .throw error

end StagingSim

/-! ### Source files -/

/-- The library with the contents of its streams. -/
structure SourceLibrary.Holds (library : SourceLibrary) (contents : StreamLibrary) : Prop where
  container : library.container.Holds contents.streams
  info : library.info = contents.info
  names : library.names = contents.names

/-- The session has found just these source files. -/
def SourceSession.HasTable (session : SourceSession) (table : SourceTable) : Prop :=
  session.table = table

variable {library : SourceLibrary} {contents : StreamLibrary}

namespace SourceLibrary.Holds

theorem describe_sim (holds : library.Holds contents) (file : SourceFile) :
    StagingSim Eq (library.describe file) (contents.describe file) := by
  unfold SourceLibrary.describe StreamLibrary.describe
  rw [holds.info]
  cases contents.info.stream? (sourceStreamName file.name) with
  | none => exact .pure rfl
  | some index =>
    rcases holds.container.stream_eq index with ⟨stream, content, hstream, hread, hsize, hcontent⟩
      | ⟨error, hstream, hcontent⟩
    · simp only [hstream, hcontent]
      refine StagingSim.ite ?_ (.pure rfl) (.stage holds.container.paged hread (.refl _))
      -- a stream is empty if its length says so
      rw [hsize, StreamDescriptor.isEmpty, beq_iff_eq, ← UInt32.toNat_inj, UInt32.toNat_zero]
    · simp only [hstream, hcontent]
      exact .throw error

theorem load_sim (holds : library.Holds contents) :
    LoaderSim NoExcuse SourceSession.HasTable library.load contents.load := by
  rintro nameId kind checksum session _ rfl
  unfold SourceLibrary.load StreamLibrary.load
  rw [holds.names]
  cases contents.names.name? nameId with
  | none => exact .error _
  | some name =>
    cases htable : session.table.find? name with
    | some ref =>
      simp only [htable]
      exact .ok ⟨rfl, rfl⟩
    | none =>
      simp only [htable]
      have hsim := holds.describe_sim { SourceFile.ofName name with checksumKind := kind, checksum }
      rcases hsim.run_cases session.cursor
        with ⟨file, cursor, _, hfile, hdescribe, rfl⟩ | ⟨error, hfile, hdescribe⟩
      · rw [hfile, hdescribe]
        exact .ok ⟨rfl, rfl⟩
      · rw [hfile, hdescribe]
        exact .error error

end SourceLibrary.Holds

/-! ### Modules -/

namespace ModuleFindings

variable {σ τ : Type}

/-- The same methods and token lines, with related states of the loaders. -/
structure Agree (Related : σ → τ → Prop) (findings : ModuleFindings σ)
    (findings' : ModuleFindings τ) : Prop where
  methods : findings.methods = findings'.methods
  tokenLines : findings.tokenLines = findings'.tokenLines
  sources : Related findings.sources findings'.sources

end ModuleFindings

namespace ModuleDescriptor

variable {σ τ : Type} {Related : σ → τ → Prop} {Excused : DecodeError → Prop}
  {load : SourceLoader σ} {load' : SourceLoader τ}

theorem readTokenLines_sim (hload : LoaderSim Excused Related load load')
    (descriptor : ModuleDescriptor) {findings : ModuleFindings σ} {findings' : ModuleFindings τ}
    (agree : findings.Agree Related findings') :
    ReaderSim Excused (ModuleFindings.Agree Related) (descriptor.readTokenLines load findings)
      (descriptor.readTokenLines load' findings') := by
  unfold readTokenLines
  refine .bind_same fun lines => ?_
  refine (ChecksumTable.read_sim hload _ _ agree.sources).bind ?_
  rintro ⟨checksums, sources⟩ ⟨_, sources'⟩ ⟨rfl, related⟩
  exact .pure ⟨agree.methods, by rw [agree.tokenLines], related⟩

theorem readMethodsWithLines_sim (hload : LoaderSim Excused Related load load')
    (descriptor : ModuleDescriptor) (keepNames : Bool) {findings : ModuleFindings σ}
    {findings' : ModuleFindings τ} (agree : findings.Agree Related findings') :
    ReaderSim Excused (ModuleFindings.Agree Related)
      (descriptor.readMethodsWithLines load keepNames findings)
      (descriptor.readMethodsWithLines load' keepNames findings') := by
  unfold readMethodsWithLines
  refine .bind_same fun methods => ?_
  refine (ChecksumTable.read_sim hload _ _ agree.sources).bind ?_
  rintro ⟨checksums, sources⟩ ⟨_, sources'⟩ ⟨rfl, related⟩
  exact .bind_same fun methods => .pure ⟨by rw [agree.methods], agree.tokenLines, related⟩

theorem readStream_sim (hload : LoaderSim Excused Related load load')
    (descriptor : ModuleDescriptor) (keepNames : Bool) {findings : ModuleFindings σ}
    {findings' : ModuleFindings τ} (agree : findings.Agree Related findings') :
    ReaderSim Excused (ModuleFindings.Agree Related) (descriptor.readStream load keepNames findings)
      (descriptor.readStream load' keepNames findings') := by
  unfold readStream
  by_cases hname : descriptor.name = tokenLineModule
  · rw [if_pos hname, if_pos hname]
    exact readTokenLines_sim hload descriptor agree
  by_cases hsize : descriptor.symbolsSize = 0
  · rw [if_neg hname, if_neg hname, if_pos hsize, if_pos hsize]
    exact .pure agree
  · rw [if_neg hname, if_neg hname, if_neg hsize, if_neg hsize]
    exact readMethodsWithLines_sim hload descriptor keepNames agree

theorem decode_sim (holds : library.Holds contents) (keepNames : Bool)
    (descriptor : ModuleDescriptor) {findings : ModuleFindings SourceSession}
    {findings' : ModuleFindings SourceTable}
    (agree : findings.Agree SourceSession.HasTable findings') :
    StagingSim (ModuleFindings.Agree SourceSession.HasTable)
      (decode library keepNames findings descriptor)
      (contents.decodeModule keepNames findings' descriptor) := by
  unfold decode StreamLibrary.decodeModule
  cases descriptor.stream? with
  | none => exact .pure agree
  | some index =>
    rcases holds.container.stream_eq index with ⟨stream, content, hstream, hread, hsize, hcontent⟩
      | ⟨error, hstream, hcontent⟩
    · simp only [hstream, hcontent]
      refine StagingSim.ite (by rw [hsize]) (fun _ => .error _) ?_
      exact .stage holds.container.paged hread
        (readStream_sim holds.load_sim descriptor keepNames agree)
    · simp only [hstream, hcontent]
      exact .throw error

end ModuleDescriptor

/-! ### The whole file -/

theorem SourceLibrary.ofContainer_sim (holds : container.Holds streams) :
    StagingSim SourceLibrary.Holds (SourceLibrary.ofContainer container)
      (StreamLibrary.ofStreams streams) := by
  unfold SourceLibrary.ofContainer StreamLibrary.ofStreams
  rw [← bind_assoc]
  refine (StagingSim.stage_index holds _ _).bind ?_
  rintro info _ rfl
  cases info.stream? "/NAMES" with
  | none => exact .throw _
  | some index =>
    simp only []
    rw [← bind_assoc]
    refine (StagingSim.stage_index holds _ _).bind ?_
    rintro names _ rfl
    exact .pure ⟨holds, rfl, rfl⟩

namespace DebugInfo

theorem decodeRemap_sim (holds : container.Holds streams) (options : DecodeOptions)
    (debug : DebugStream) :
    StagingSim Eq (decodeRemap container debug options)
      (remapOfStreams options streams debug) := by
  unfold decodeRemap remapOfStreams
  cases debug.tokenRemapStream with
  | none => exact .pure rfl
  | some index => exact .ite .rfl (.stage_index holds index _) (.pure rfl)

theorem decodeSourceServer_eq (holds : library.Holds contents) :
    decodeSourceServer library = contents.sourceServer := by
  unfold decodeSourceServer StreamLibrary.sourceServer
  rw [holds.info]
  cases contents.info.stream? "SRCSRV" with
  | none => rfl
  | some index => simp only [holds.container.content_eq]

theorem ofContainer_sim (holds : container.Holds streams) (options : DecodeOptions)
    (sourceCursor : Cursor) :
    StagingSim Eq (ofContainer options container sourceCursor) (ofStreams options streams) := by
  unfold ofContainer ofStreams
  refine (SourceLibrary.ofContainer_sim holds).bind ?_
  intro library contents hlibrary
  rw [← bind_assoc]
  refine (StagingSim.stage_index holds _ _).bind ?_
  rintro debug _ rfl
  refine (decodeRemap_sim holds options debug).bind ?_
  rintro remap _ rfl
  have hempty : ModuleFindings.Agree SourceSession.HasTable
      (.empty { table := .empty, cursor := sourceCursor }) (.empty .empty) := ⟨rfl, rfl, rfl⟩
  refine (StagingSim.foldlM (fun descriptor _ _ =>
    ModuleDescriptor.decode_sim hlibrary options.keepNames descriptor) debug.modules hempty).bind ?_
  rintro findings findings' ⟨hmethods, htokenLines, hsources⟩
  rw [hmethods]
  refine (StagingSim.lift (.refl _)).bind ?_
  rintro methods _ rfl
  rw [decodeSourceServer_eq hlibrary]
  refine (StagingSim.lift (.refl _)).bind ?_
  rintro sourceServer _ rfl
  have htable : findings.sources.table = findings'.sources := hsources
  rw [hlibrary.info, htokenLines, htable]
  exact .pure rfl

/-- A container is decoded from the contents of its streams alone, whatever its cursors hold at
first. -/
theorem run'_ofContainer (holds : container.Holds streams) (options : DecodeOptions)
    (cursor sourceCursor : Cursor) :
    (ofContainer options container sourceCursor).run' cursor = ofStreams options streams :=
  (ofContainer_sim holds options sourceCursor cursor).eq

theorem exists_eq_map_ok {ε : Type} {results : List (Except ε α)}
    (h : ∀ result ∈ results, ∃ value, result = .ok value) :
    ∃ values : List α, results = values.map .ok := by
  induction results with
  | nil => exact ⟨[], rfl⟩
  | cons result results ih =>
    obtain ⟨value, rfl⟩ := h result (by simp)
    obtain ⟨values, rfl⟩ := ih fun result member => h result (List.mem_cons_of_mem _ member)
    exact ⟨value :: values, rfl⟩

/-- Decoding depends on nothing but the contents of the streams.  Two files with the same number of
streams, where streams of the same number can be read and have the same bytes, are decoded alike,
however their pages are chosen and ordered; and so are their streams with any cursors to begin
with. -/
theorem decodeWith_eq_of_contents {left right : ByteArray}
    {leftContainer rightContainer : Container}
    (hleft : Container.ofImage left = .ok leftContainer)
    (hright : Container.ofImage right = .ok rightContainer)
    (hcount : leftContainer.directory.streams.size = rightContainer.directory.streams.size)
    (hcontents : ∀ (index : Nat) (hl : index < leftContainer.directory.streams.size)
      (hr : index < rightContainer.directory.streams.size), ∃ bytes,
        leftContainer.directory.streams[index].content leftContainer.file = .ok bytes ∧
        rightContainer.directory.streams[index].content rightContainer.file = .ok bytes)
    (options : DecodeOptions) :
    decodeWith options left = decodeWith options right ∧
      ∀ cursor sourceCursor cursor' sourceCursor' : Cursor,
        (ofContainer options leftContainer sourceCursor).run' cursor
          = (ofContainer options rightContainer sourceCursor').run' cursor' := by
  have hsame : leftContainer.directory.streams.toList.map (·.content leftContainer.file)
      = rightContainer.directory.streams.toList.map (·.content rightContainer.file) := by
    apply List.ext_getElem (by simp [hcount])
    intro index hl hr
    simp only [List.length_map, Array.length_toList] at hl hr
    obtain ⟨bytes, hleft_content, hright_content⟩ := hcontents index hl hr
    simp [hleft_content, hright_content]
  obtain ⟨streams, hstreams⟩ : ∃ streams : Streams,
      leftContainer.directory.streams.toList.map (·.content leftContainer.file)
        = streams.map .ok := by
    apply exists_eq_map_ok
    intro content member
    obtain ⟨index, hindex, rfl⟩ := List.getElem_of_mem member
    simp only [List.length_map, Array.length_toList] at hindex
    obtain ⟨bytes, hleft_content, -⟩ := hcontents index hindex (hcount ▸ hindex)
    exact ⟨bytes, by simp [hleft_content]⟩
  have hleft_holds : leftContainer.Holds streams :=
    ⟨Container.paged_of_ofImage hleft, hstreams⟩
  have hright_holds : rightContainer.Holds streams :=
    ⟨Container.paged_of_ofImage hright, hsame ▸ hstreams⟩
  have hruns : ∀ cursor sourceCursor cursor' sourceCursor' : Cursor,
      (ofContainer options leftContainer sourceCursor).run' cursor
        = (ofContainer options rightContainer sourceCursor').run' cursor' := by
    intro cursor sourceCursor cursor' sourceCursor'
    rw [run'_ofContainer hleft_holds, run'_ofContainer hright_holds]
  refine ⟨?_, hruns⟩
  rw [decodeWith, decodeWith, hleft, hright]
  exact hruns ..

/-- Two files with the same streams, on pages of different sizes. -/
theorem decodeWith_eq_of_contents_page_sizes :
    let streams := (({} : ImageDraft).addStream "/data" (Bytes.zeros 600)).streams
    ∃ left right, Container.ofImage (Layout.image 512 streams) = .ok left ∧
      Container.ofImage (Layout.image 1024 streams) = .ok right ∧
      left.directory.streams ≠ right.directory.streams ∧
      ∀ options, decodeWith options (Layout.image 512 streams)
        = decodeWith options (Layout.image 1024 streams) := by
  intro streams
  have hsizes : ∀ stream ∈ streams, stream.size < 2 ^ 31 := by decide +kernel
  have hsmall : Layout.Fits 512 streams :=
    ⟨⟨9, by decide, by decide, rfl⟩, hsizes, by decide +kernel, by decide +kernel⟩
  have hlarge : Layout.Fits 1024 streams :=
    ⟨⟨10, by decide, by decide, rfl⟩, hsizes, by decide +kernel, by decide +kernel⟩
  have hpages : (Layout.placed 512 1 streams).toArray ≠ (Layout.placed 1024 1 streams).toArray := by
    decide +kernel
  clear_value streams
  have hleft := Layout.ofImage_image hsmall
  have hright := Layout.ofImage_image hlarge
  refine ⟨_, _, hleft, hright, hpages, ?_⟩
  intro options
  refine (decodeWith_eq_of_contents hleft hright ?_ ?_ options).1
  · exact (Layout.length_placed ..).trans (Layout.length_placed ..).symm
  · intro index hl hr
    have hindex : index < streams.length := Nat.lt_of_lt_of_eq hl (Layout.length_placed ..)
    exact ⟨streams[index], Layout.content_getElem_placed hsmall hl hindex,
      Layout.content_getElem_placed hlarge hr hindex⟩

end DebugInfo

end ManagedPdb
