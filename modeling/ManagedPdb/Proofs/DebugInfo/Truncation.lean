import ManagedPdb.Proofs.Draft.Catalog

/-!
# Longer and shorter files

The decoder learns that a file ends only where it cannot read on.  So bytes behind a file change
nothing, unless it was cut off in front of something that the decoder looks for; and of a file that
was cut off, all is decoded or nothing (`DebugInfo.decodeWith_append`).

Both files are decoded side by side.  As long as the shorter one can be read, the same bytes are
staged, and the cursors stay the same (`Staging.Sim`); where it cannot, it is excused.
-/

namespace ManagedPdb

/-- The file ends in front of the bytes that were looked for. -/
def Unreadable (error : DecodeError) : Prop := error.kind = .sourceUnreadable

/-- The same pages, and more bytes behind them. -/
def PageFile.append (file : PageFile) (suffix : ByteArray) : PageFile :=
  { file with source := file.source ++ suffix }

/-- The same streams, and more bytes behind all pages. -/
def Container.append (container : Container) (suffix : ByteArray) : Container :=
  { container with file := container.file.append suffix }

/-- The same names, and more bytes behind all pages. -/
def SourceLibrary.append (library : SourceLibrary) (suffix : ByteArray) : SourceLibrary :=
  { library with container := library.container.append suffix }

variable {α β γ δ σ τ : Type} {Excused : DecodeError → Prop} {suffix : ByteArray}

/-! ### Steps side by side -/

namespace Staging

/-- From every cursor, the left steps do what the right ones do, and leave the same cursor. -/
def Sim (Excused : DecodeError → Prop) (Related : α → β → Prop) (left : Staging α)
    (right : Staging β) : Prop :=
  ∀ cursor : Cursor, ResultSim Excused
    (fun found found' => Related found.1 found'.1 ∧ found.2 = found'.2) (left cursor) (right cursor)

namespace Sim

variable {Related : α → β → Prop} {Related' : γ → δ → Prop} {left : Staging α} {right : Staging β}

protected theorem pure {value : α} {value' : β} (related : Related value value') :
    Sim Excused Related (pure value) (pure value') :=
  fun _ => .ok ⟨related, rfl⟩

protected theorem bind {next : α → Staging γ} {next' : β → Staging δ}
    (h : Sim Excused Related left right)
    (hnext : ∀ value value', Related value value' →
      Sim Excused Related' (next value) (next' value')) :
    Sim Excused Related' (left >>= next) (right >>= next') := by
  intro cursor
  refine (h cursor).bind ?_
  rintro ⟨value, cursor'⟩ ⟨value', _⟩ ⟨related, rfl⟩
  exact hnext value value' related cursor'

/-- A step without the cursor. -/
theorem lift {left : Except DecodeError α} {right : Except DecodeError β}
    (h : ResultSim Excused Related left right) :
    Sim Excused Related (liftM left : Staging α) (liftM right : Staging β) := by
  intro cursor
  exact h.bind fun _ _ related => .ok ⟨related, rfl⟩

protected theorem throw (error : DecodeError) :
    Sim Excused Related (throw error : Staging α) (throw error : Staging β) :=
  fun _ => .error error

theorem ite {condition : Prop} [Decidable condition] {left' : Staging α} {right' : Staging β}
    (htrue : Sim Excused Related left right) (hfalse : Sim Excused Related left' right') :
    Sim Excused Related (if condition then left else left')
      (if condition then right else right') := by
  by_cases h : condition
  · rwa [if_pos h, if_pos h]
  · rwa [if_neg h, if_neg h]

theorem foldlM {Related : σ → τ → Prop} {step : σ → α → Staging σ} {step' : τ → α → Staging τ}
    (hstep : ∀ item state state', Related state state' →
      Sim Excused Related (step state item) (step' state' item))
    (items : List α) {state : σ} {state' : τ} (related : Related state state') :
    Sim Excused Related (items.foldlM step state) (items.foldlM step' state') := by
  induction items generalizing state state' with
  | nil => exact .pure related
  | cons item items ih =>
    rw [List.foldlM_cons, List.foldlM_cons]
    exact (hstep item state state' related).bind fun _ _ => ih

theorem read {left : Reader α} {right : Reader β} (h : ReaderSim Excused Related left right) :
    Sim Excused Related (Staging.read left) (Staging.read right) := by
  intro cursor
  have hcontent := h cursor.content cursor.position
  unfold Staging.read Cursor.run
  generalize left cursor.content cursor.position = outcome at hcontent ⊢
  generalize right cursor.content cursor.position = outcome' at hcontent ⊢
  cases hcontent with
  | done position related => exact .ok ⟨related, rfl⟩
  | failed error position => exact .error error
  | excused position outcome' excused => exact .excused _ excused

/-- What the steps give, whatever they leave in the cursor. -/
theorem run' (h : Sim Excused Related left right) (cursor : Cursor) :
    ResultSim Excused Related (left.run' cursor) (right.run' cursor) :=
  (h cursor).bind fun _ _ related => .ok related.1

end Sim

end Staging

/-! ### Streams -/

/-- What can be read is the same in a longer file. -/
theorem PageFile.read_append (file : PageFile) (suffix : ByteArray) (page : UInt32)
    (offset count : Nat) :
    ResultSim Unreadable Eq (file.read page offset count)
      ((file.append suffix).read page offset count) := by
  unfold read append
  dsimp only
  generalize page.toNat * file.pageSize.toNat + offset = start
  by_cases h : count ≤ file.source.size - start
  · rw [if_pos h, if_pos (by rw [ByteArray.size_append]; omega)]
    refine .ok ?_
    rcases Nat.eq_zero_or_pos count with rfl | hpos
    · rw [Nat.add_zero, ByteArray.extract_same, ByteArray.extract_same]
    · rw [Bytes.extract_append_left (by omega)]
  · rw [if_neg h]
    exact .excused _ rfl

namespace StreamDescriptor

variable {file : PageFile}

theorem readPages_append (stream : StreamDescriptor) (start stop : Nat) (before : ByteArray)
    (count page : Nat) :
    ResultSim Unreadable Eq (stream.readPages file start stop before count page)
      (stream.readPages (file.append suffix) start stop before count page) := by
  induction count generalizing before page with
  | zero => exact .ok rfl
  | succ count ih =>
    rw [readPages, readPages]
    cases stream.pages[page]? with
    | none => exact .error _
    | some number =>
      dsimp only [PageFile.append]
      have hread := file.read_append suffix number
        (max start (page * file.pageSize.toNat) - page * file.pageSize.toNat)
        (min stop (page * file.pageSize.toNat + file.pageSize.toNat)
          - max start (page * file.pageSize.toNat))
      unfold PageFile.append at hread
      generalize file.read number _ _ = result at hread ⊢
      generalize PageFile.read _ number _ _ = result' at hread ⊢
      cases hread with
      | ok same => exact same ▸ ih _ _
      | error error => exact .error _
      | excused _ excused => exact .excused _ excused

theorem writePages_append (stream : StreamDescriptor) (stop : Nat) (buffer : ByteArray)
    (count page : Nat) :
    ResultSim Unreadable Eq (stream.writePages file stop buffer count page)
      (stream.writePages (file.append suffix) stop buffer count page) := by
  induction count generalizing buffer page with
  | zero => exact .ok rfl
  | succ count ih =>
    rw [writePages, writePages]
    cases stream.pages[page]? with
    | none => exact .error _
    | some number =>
      dsimp only [PageFile.append]
      have hread := file.read_append suffix number 0
        (min stop (page * file.pageSize.toNat + file.pageSize.toNat) - page * file.pageSize.toNat)
      unfold PageFile.append at hread
      generalize file.read number _ _ = result at hread ⊢
      generalize PageFile.read _ number _ _ = result' at hread ⊢
      cases hread with
      | ok same => exact same ▸ ih _ _
      | error error => exact .error _
      | excused _ excused => exact .excused _ excused

theorem content_append (stream : StreamDescriptor) :
    ResultSim Unreadable Eq (stream.content file) (stream.content (file.append suffix)) := by
  unfold content read
  dsimp only
  split
  · exact .error _
  · split
    · exact .ok rfl
    · exact stream.readPages_append ..

theorem load_append (stream : StreamDescriptor) :
    Staging.Sim Unreadable Eq (stream.load file) (stream.load (file.append suffix)) := by
  intro cursor
  refine (stream.writePages_append ..).bind ?_
  rintro buffer _ rfl
  exact .ok ⟨rfl, rfl⟩

theorem stage_append {Related : α → β → Prop} {left : Reader α} {right : Reader β}
    (stream : StreamDescriptor) (h : ReaderSim Unreadable Related left right) :
    Staging.Sim Unreadable Related (stream.stage file left)
      (stream.stage (file.append suffix) right) :=
  stream.load_append.bind fun _ _ _ => .read h

end StreamDescriptor

/-! ### The container -/

theorem Header.bytesOf_append (source : ByteArray) (start count : Nat) :
    ResultSim Unreadable Eq (bytesOf source start count) (bytesOf (source ++ suffix) start count) :=
  PageFile.read_append ⟨source, 0⟩ suffix 0 start count

theorem Header.decode_append (source : ByteArray) :
    ResultSim Unreadable Eq (decode source) (decode (source ++ suffix)) := by
  unfold decode
  refine (bytesOf_append ..).bind ?_
  rintro fixed _ rfl
  refine (ResultSim.refl (fixedPart.run fixed)).bind ?_
  rintro ⟨pageSize, directorySize⟩ _ rfl
  refine (bytesOf_append ..).bind ?_
  rintro roots _ rfl
  exact .refl _

namespace Directory

theorem gatherPages_append (file : PageFile) (before : ByteArray) (toGo : Nat)
    (roots : List UInt32) :
    ResultSim Unreadable Eq (gatherPages file before toGo roots)
      (gatherPages (file.append suffix) before toGo roots) := by
  induction roots generalizing before toGo with
  | nil => exact .ok rfl
  | cons root roots ih =>
    refine (file.read_append suffix root 0 _).bind ?_
    rintro piece _ rfl
    exact ih _ _

theorem entriesOnto_append (file : PageFile) (before : Array StreamDescriptor)
    (lengths : List UInt32) :
    entriesOnto (file.append suffix) before lengths = entriesOnto file before lengths := by
  induction lengths generalizing before with
  | nil => rfl
  | cons length lengths ih => exact bind_congr fun stream => ih (before.push stream)

/-- The length of the source does not matter to what the directory says. -/
theorem entries_append (file : PageFile) : entries (file.append suffix) = entries file := by
  unfold entries
  simp only [entriesOnto_append]

theorem decode_append (file : PageFile) (header : Header) :
    ResultSim Unreadable Eq (decode file header) (decode (file.append suffix) header) := by
  unfold decode
  refine (gatherPages_append ..).bind ?_
  rintro pageList _ rfl
  refine (ResultSim.refl _).bind ?_
  rintro stream _ rfl
  refine stream.content_append.bind ?_
  rintro content _ rfl
  rw [entries_append]
  exact .refl _

end Directory

namespace Container

theorem ofImage_append (image : ByteArray) :
    ResultSim Unreadable (fun container container' => container' = container.append suffix)
      (ofImage image) (ofImage (image ++ suffix)) := by
  unfold ofImage
  refine (Header.decode_append image).bind ?_
  rintro header _ rfl
  refine (Directory.decode_append ⟨image, header.pageSize⟩ header).bind ?_
  rintro directory _ rfl
  exact .ok rfl

theorem content_append (container : Container) (index : UInt32) :
    ResultSim Unreadable Eq (container.content index)
      ((container.append suffix).content index) := by
  refine (ResultSim.refl (container.directory.stream index)).bind ?_
  rintro stream _ rfl
  exact stream.content_append

theorem stage_append (container : Container) (index : UInt32) (reader : Reader α) :
    Staging.Sim Unreadable Eq (container.stage index reader)
      ((container.append suffix).stage index reader) := by
  refine (Staging.Sim.lift (.refl (container.directory.stream index))).bind ?_
  rintro stream _ rfl
  exact stream.stage_append (.refl reader)

end Container

/-! ### The streams of a file -/

namespace SourceLibrary

theorem describe_append (library : SourceLibrary) (file : SourceFile) :
    Staging.Sim Unreadable Eq (library.describe file) ((library.append suffix).describe file) := by
  unfold describe
  dsimp only [append]
  cases library.info.stream? (sourceStreamName file.name) with
  | none => exact .pure rfl
  | some index =>
    refine (Staging.Sim.lift (.refl (library.container.directory.stream index))).bind ?_
    rintro stream _ rfl
    exact .ite (.pure rfl) (stream.stage_append (.refl _))

theorem load_append (library : SourceLibrary) :
    LoaderSim Unreadable Eq library.load (library.append suffix).load := by
  rintro nameId kind checksum session _ rfl
  unfold load
  dsimp only [append]
  cases library.names.name? nameId with
  | none => exact .error _
  | some name =>
    dsimp only
    cases session.table.find? name with
    | some ref => exact .ok ⟨rfl, rfl⟩
    | none =>
      refine (library.describe_append _ session.cursor).bind ?_
      rintro ⟨file, cursor⟩ ⟨_, _⟩ ⟨rfl, rfl⟩
      exact .ok ⟨rfl, rfl⟩

theorem ofContainer_append (container : Container) :
    Staging.Sim Unreadable (fun library library' => library' = library.append suffix)
      (ofContainer container) (ofContainer (container.append suffix)) := by
  refine (container.stage_append _ _).bind ?_
  rintro info _ rfl
  cases info.stream? "/NAMES" with
  | none => exact .lift (.error _)
  | some index =>
    refine (container.stage_append _ _).bind ?_
    rintro names _ rfl
    exact .pure rfl

end SourceLibrary

theorem ModuleFindings.Agree.eq {findings findings' : ModuleFindings σ}
    (agree : findings.Agree Eq findings') : findings = findings' := by
  obtain ⟨methods, tokenLines, sources⟩ := findings
  obtain ⟨rfl, rfl, rfl⟩ := agree
  rfl

theorem ModuleDescriptor.decode_append (library : SourceLibrary) (keepNames : Bool)
    (findings : ModuleFindings SourceSession) (descriptor : ModuleDescriptor) :
    Staging.Sim Unreadable (ModuleFindings.Agree Eq) (descriptor.decode library keepNames findings)
      (descriptor.decode (library.append suffix) keepNames findings) := by
  unfold decode
  dsimp only [SourceLibrary.append]
  cases descriptor.stream? with
  | none => exact .pure ⟨rfl, rfl, rfl⟩
  | some index =>
    refine (Staging.Sim.lift (.refl (library.container.directory.stream index))).bind ?_
    rintro stream _ rfl
    have hload : LoaderSim Unreadable Eq library.load (library.append suffix).load :=
      library.load_append
    exact .ite (.throw _) (stream.stage_append
      (readStream_sim hload descriptor keepNames ⟨rfl, rfl, rfl⟩))

namespace DebugInfo

theorem decodeRemap_append (container : Container) (debug : DebugStream) (options : DecodeOptions) :
    Staging.Sim Unreadable Eq (decodeRemap container debug options)
      (decodeRemap (container.append suffix) debug options) := by
  unfold decodeRemap
  cases debug.tokenRemapStream with
  | none => exact .pure rfl
  | some index => exact .ite (container.stage_append _ _) (.pure rfl)

theorem decodeSourceServer_append (library : SourceLibrary) :
    ResultSim Unreadable Eq (decodeSourceServer library)
      (decodeSourceServer (library.append suffix)) := by
  unfold decodeSourceServer
  dsimp only [SourceLibrary.append]
  cases library.info.stream? "SRCSRV" with
  | none => exact .ok rfl
  | some index =>
    refine (library.container.content_append index).bind ?_
    rintro content _ rfl
    exact .ok rfl

theorem ofContainer_append (options : DecodeOptions) (container : Container)
    (sourceCursor : Cursor) :
    Staging.Sim Unreadable Eq (ofContainer options container sourceCursor)
      (ofContainer options (container.append suffix) sourceCursor) := by
  unfold ofContainer
  refine (SourceLibrary.ofContainer_append container).bind ?_
  rintro library _ rfl
  refine (container.stage_append _ _).bind ?_
  rintro debug _ rfl
  refine (decodeRemap_append container debug options).bind ?_
  rintro remap _ rfl
  have hempty : ModuleFindings.Agree Eq
      (.empty { table := .empty, cursor := sourceCursor } : ModuleFindings SourceSession)
      (.empty { table := .empty, cursor := sourceCursor }) := ⟨rfl, rfl, rfl⟩
  refine (Staging.Sim.foldlM (fun descriptor findings _ agree =>
    agree.eq ▸ descriptor.decode_append library options.keepNames findings)
    debug.modules hempty).bind ?_
  intro findings _ agree
  obtain rfl := agree.eq
  refine (Staging.Sim.lift (.refl _)).bind ?_
  rintro methods _ rfl
  refine (Staging.Sim.lift (decodeSourceServer_append library)).bind ?_
  rintro sourceServer _ rfl
  exact .pure rfl

/-- A file and a longer one are decoded alike, unless the shorter one ends too early. -/
theorem decodeWith_sim (options : DecodeOptions) (image suffix : ByteArray) :
    ResultSim Unreadable Eq (decodeWith options image) (decodeWith options (image ++ suffix)) := by
  unfold decodeWith
  refine (Container.ofImage_append image).bind ?_
  rintro container _ rfl
  exact (ofContainer_append options container .empty).run' .empty

/-- Bytes behind a file do not change what is decoded, nor how decoding fails, unless it fails
because the file ends too early.  So, if a file can be decoded, any part from its start is decoded
to the same, or is not decoded because it ends too early. -/
theorem decodeWith_append (options : DecodeOptions) (image : ByteArray) :
    ((∀ error, decodeWith options image = .error error → error.kind ≠ .sourceUnreadable) →
      ∀ suffix, decodeWith options (image ++ suffix) = decodeWith options image) ∧
    ∀ info, decodeWith options image = .ok info → ∀ length,
      decodeWith options (image.extract 0 length) = .ok info ∨
        ∃ error, decodeWith options (image.extract 0 length) = .error error ∧
          error.kind = .sourceUnreadable := by
  constructor
  · intro readable suffix
    have hsim := decodeWith_sim options image suffix
    generalize decodeWith options (image ++ suffix) = longer at hsim ⊢
    generalize decodeWith options image = result at hsim readable ⊢
    cases hsim with
    | ok same => rw [same]
    | error error => rfl
    | excused _ unreadable => exact absurd unreadable (readable _ rfl)
  · intro info h length
    have hsim := decodeWith_sim options (image.extract 0 length)
      (image.extract length image.size)
    have hwhole : image.extract 0 length ++ image.extract length image.size = image := by
      rw [ByteArray.extract_append_extract, Nat.zero_min,
        ByteArray.extract_zero_max_size]
    rw [hwhole, h] at hsim
    generalize decodeWith options (image.extract 0 length) = result at hsim ⊢
    cases hsim with
    | ok same => exact .inl (by rw [same])
    | excused _ unreadable => exact .inr ⟨_, rfl, unreadable⟩

/-- A file with a method and its lines, with bytes behind it and cut off in its header. -/
theorem decodeWith_append_catalogDraft :
    let image := ImageDraft.catalogDraft.image
    ∃ info, decodeWith {} image = .ok info ∧
      info.methods.toList.map (fun method => (method.token, method.name, method.lines.length))
        = [(0x06000009, some "a", 1)] ∧
      (∀ suffix, decodeWith {} (image ++ suffix) = .ok info) ∧
      ∃ error, decodeWith {} (image.extract 0 51) = .error error ∧
        error.kind = .sourceUnreadable := by
  intro image
  obtain ⟨info, hinfo, hmethods, -⟩ := ImageDraft.exists_decode_catalogDraft
  obtain ⟨hlonger, hshorter⟩ := decodeWith_append {} image
  have hinfo : decodeWith {} image = .ok info := hinfo
  refine ⟨info, hinfo, hmethods, fun suffix => ?_, ?_⟩
  · rw [hlonger (fun error h => by rw [hinfo] at h; cases h), hinfo]
  · -- 52 bytes of the header are looked for
    have hheader : decodeWith {} (image.extract 0 51) ≠ .ok info := by
      have hshort : Header.bytesOf (image.extract 0 51) 0 Header.fixedSize
          = .error (.ofKind .sourceUnreadable) := by
        refine PageFile.read_of_lt (by decide) ?_
        rw [ByteArray.size_extract, Header.fixedSize]
        show _ < 0 * 0 + 0 + 52
        omega
      rw [decodeWith, Container.ofImage, Header.decode, hshort]
      intro h
      cases h
    exact (hshorter info hinfo 51).resolve_left hheader

end DebugInfo

end ManagedPdb
