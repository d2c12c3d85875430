import ManagedPdb.Proofs.Container.PageLists
import ManagedPdb.Proofs.DebugInfo.Remapping

/-!
# No read out of bounds

In a container that can be opened, every stream has the pages that its length needs
(`Container.Complete`).  Decoding loads streams as a whole and reads inside what it has loaded, so
that a read out of the bounds of a stream is never the cause of an error
(`DebugInfo.decodeWith_inBounds`).

The main statement puts this together with the page counts that it rests on
(`DebugInfo.pageLists_agree`).
-/

namespace ManagedPdb

open Reader (InBounds)

variable {α β σ : Type}

theorem InBounds.of_unreadable {error : DecodeError} (h : error.kind = .sourceUnreadable) :
    ManagedPdb.InBounds error := by
  intro position length
  rw [h]
  exact nofun

/-- Reading from the start of a content. -/
theorem Reader.InBounds.of_run {reader : Reader α} (h : reader.InBounds) {content : ByteArray}
    {error : DecodeError} (hrun : reader.run content = .error error) :
    ManagedPdb.InBounds error := by
  unfold Reader.run at hrun
  cases hreader : reader content 0 with
  | done value stop =>
    rw [hreader] at hrun
    cases hrun
  | failed error' stop =>
    rw [hreader] at hrun
    cases hrun
    exact h content 0 error stop hreader

/-! ### Staged steps -/

namespace Staging

/-- No cursor makes the steps fail with a read out of the bounds of a stream. -/
def InBounds (steps : Staging α) : Prop :=
  ∀ cursor error, steps cursor = .error error → ManagedPdb.InBounds error

namespace InBounds

protected theorem pure (value : α) : InBounds (pure value : Staging α) := nofun

/-- What follows has to be in bounds for the values that the first steps can give. -/
theorem bind_of_run' {steps : Staging α} {next : α → Staging β} (h : steps.InBounds)
    (hnext : ∀ value cursor, steps.run' cursor = .ok value → (next value).InBounds) :
    InBounds (steps >>= next) := by
  intro cursor error hfailed
  rcases bind_eq_error_iff.mp hfailed with hfailed | ⟨⟨value, cursor'⟩, hsteps, hfailed⟩
  · exact h cursor error hfailed
  · have hrun : steps.run' cursor = .ok value := by
      show (·.1) <$> steps cursor = _
      rw [hsteps]
      rfl
    exact hnext value cursor hrun cursor' error hfailed

protected theorem bind {steps : Staging α} {next : α → Staging β} (h : steps.InBounds)
    (hnext : ∀ value, (next value).InBounds) : InBounds (steps >>= next) :=
  h.bind_of_run' fun value _ _ => hnext value

protected theorem throw {error : DecodeError} (h : ManagedPdb.InBounds error) :
    InBounds (throw error : Staging α) := by
  intro cursor error' hfailed
  have heq : error = error' := Except.error.inj hfailed
  exact heq ▸ h

/-- A step without the cursor. -/
theorem lift {result : Except DecodeError α}
    (h : ∀ error, result = .error error → ManagedPdb.InBounds error) :
    InBounds (liftM result : Staging α) := by
  intro cursor error hfailed
  cases result with
  | ok value => cases hfailed
  | error error' =>
    cases hfailed
    exact h error rfl

theorem ite {condition : Prop} [Decidable condition] {left right : Staging α}
    (htrue : left.InBounds) (hfalse : right.InBounds) :
    InBounds (if condition then left else right) := by
  by_cases h : condition
  · rwa [if_pos h]
  · rwa [if_neg h]

theorem foldlM {step : σ → α → Staging σ} (hstep : ∀ state item, (step state item).InBounds)
    (items : List α) (state : σ) : InBounds (items.foldlM step state) := by
  induction items generalizing state with
  | nil => exact .pure state
  | cons item items ih =>
    rw [List.foldlM_cons]
    exact (hstep state item).bind ih

theorem read {reader : Reader α} (h : reader.InBounds) : (Staging.read reader).InBounds := by
  intro cursor error hfailed
  unfold Staging.read Cursor.run at hfailed
  cases hreader : reader cursor.content cursor.position with
  | done value stop =>
    rw [hreader] at hfailed
    cases hfailed
  | failed error' stop =>
    rw [hreader] at hfailed
    cases hfailed
    exact h _ _ error stop hreader

theorem run' {steps : Staging α} (h : steps.InBounds) {cursor : Cursor} {error : DecodeError}
    (hrun : steps.run' cursor = .error error) : ManagedPdb.InBounds error := by
  rcases bind_eq_error_iff.mp hrun with hrun | ⟨_, -, hrun⟩
  · exact h cursor error hrun
  · cases hrun

end InBounds

end Staging

/-! ### Streams -/

theorem StreamDescriptor.stage_inBounds {stream : StreamDescriptor} {file : PageFile}
    (paged : 0 < file.pageSize.toNat) (complete : stream.Complete file.pageSize.toNat)
    {reader : Reader α} (h : reader.InBounds) : (stream.stage file reader).InBounds := by
  refine .bind ?_ fun _ => .read h
  intro cursor error hload
  rw [load_eq paged] at hload
  cases hcontent : stream.content file with
  | ok bytes =>
    rw [hcontent] at hload
    cases hload
  | error error' =>
    rw [hcontent] at hload
    cases hload
    exact .of_unreadable (kind_of_content_eq_error paged complete hcontent)

theorem Directory.stream_inBounds (directory : Directory) (index : UInt32) (error : DecodeError)
    (h : directory.stream index = .error error) : ManagedPdb.InBounds error := by
  unfold stream at h
  split at h
  · cases h
  · cases h
    exact nofun

theorem Directory.mem_of_stream {directory : Directory} {index : UInt32}
    {stream : StreamDescriptor} (h : directory.stream index = .ok stream) :
    stream ∈ directory.streams := by
  unfold Directory.stream at h
  split at h
  case h_1 found hfound =>
    cases h
    exact Array.mem_of_getElem? hfound
  case h_2 => cases h

/-- The container has pages, and every stream those that its length needs. -/
structure Container.Complete (container : Container) : Prop where
  paged : 0 < container.file.pageSize.toNat
  streams : ∀ stream ∈ container.directory.streams, stream.Complete container.file.pageSize.toNat

namespace Container.Complete

variable {container : Container}

/-- Steps that begin with a stream of the container. -/
theorem bind_stream (complete : container.Complete) (index : UInt32)
    {next : StreamDescriptor → Staging α}
    (h : ∀ stream, stream.Complete container.file.pageSize.toNat → (next stream).InBounds) :
    (do next (← container.directory.stream index) : Staging α).InBounds := by
  cases hstream : container.directory.stream index with
  | error error =>
    intro cursor error' hfailed
    have heq : error = error' := Except.error.inj hfailed
    exact heq ▸ container.directory.stream_inBounds index error hstream
  | ok stream => exact h stream (complete.streams stream (Directory.mem_of_stream hstream))

theorem stage_inBounds (complete : container.Complete) (index : UInt32) {reader : Reader α}
    (h : reader.InBounds) : (container.stage index reader).InBounds :=
  complete.bind_stream index fun _ hstream =>
    StreamDescriptor.stage_inBounds complete.paged hstream h

theorem content_inBounds (complete : container.Complete) {index : UInt32} {error : DecodeError}
    (h : container.content index = .error error) : ManagedPdb.InBounds error := by
  rcases bind_eq_error_iff.mp h with h | ⟨stream, hstream, h⟩
  · exact container.directory.stream_inBounds index error h
  · exact .of_unreadable (StreamDescriptor.kind_of_content_eq_error complete.paged
      (complete.streams stream (Directory.mem_of_stream hstream)) h)

end Container.Complete

/-! ### The container -/

theorem Directory.decode_inBounds {file : PageFile} (paged : 0 < file.pageSize.toNat)
    {header : Header} {error : DecodeError} (h : decode file header = .error error) :
    ManagedPdb.InBounds error := by
  unfold decode at h
  rcases bind_eq_error_iff.mp h with h | ⟨pageList, -, h⟩
  · rcases gatherPages_cases file _ header.directoryRoots with ⟨_, -, hgather⟩ | ⟨_, -, -, hgather⟩
    · rw [hgather] at h
      cases h
    · rw [hgather] at h
      cases h
      exact .of_unreadable rfl
  rcases bind_eq_error_iff.mp h with h | ⟨stream, hstream, h⟩
  · have hdescriptor : ∀ length count, (descriptor length count).InBounds := fun length count =>
      .bind (.uint32s _) fun _ => .pure _
    exact (hdescriptor _ _).of_run h
  rcases bind_eq_error_iff.mp h with h | ⟨content, -, h⟩
  · obtain ⟨stop, hstream⟩ := Reader.run_eq_ok_iff.mp hstream
    obtain ⟨hlength, hpages⟩ := descriptor_eq_done hstream
    refine .of_unreadable (StreamDescriptor.kind_of_content_eq_error paged ?_ h)
    rw [StreamDescriptor.Complete, hpages, hlength, PageFile.toNat_pagesFor paged]
    rfl
  · have hentry : ∀ length, (entry file length).InBounds := fun length =>
      .ite (.pure _) (.bind (.uint32s _) fun _ => .pure _)
    have hentries : ∀ lengths before, (entriesOnto file before lengths).InBounds := by
      intro lengths
      induction lengths with
      | nil => exact fun _ => .pure _
      | cons length lengths ih => exact fun _ => .bind (hentry length) fun _ => ih _
    have hall : (entries file).InBounds :=
      .bind .uint32 fun _ => .bind (.uint32s _) fun _ => .bind (hentries _ _) fun _ => .pure _
    exact hall.of_run h

theorem Header.decode_inBounds {source : ByteArray} {error : DecodeError}
    (h : decode source = .error error) : ManagedPdb.InBounds error := by
  have hbytes : ∀ start count, bytesOf source start count = .error error →
      ManagedPdb.InBounds error := fun _ _ hread => by
    rw [PageFile.eq_of_read_eq_error hread]
    exact .of_unreadable rfl
  have hfixed : fixedPart.InBounds :=
    .bind (.bytes _) fun _ => .guard (.fail nofun) <| .bind .uint32 fun _ => .bind .uint32 fun _ =>
    .bind .uint32 fun _ => .bind .uint32 fun _ => .bind .uint32 fun _ =>
    .guard (.fail nofun) (.pure _)
  unfold decode at h
  rcases bind_eq_error_iff.mp h with h | ⟨bytes, -, h⟩
  · exact hbytes _ _ h
  rcases bind_eq_error_iff.mp h with h | ⟨⟨pageSize, directorySize⟩, -, h⟩
  · exact hfixed.of_run h
  rcases bind_eq_error_iff.mp h with h | ⟨rootBytes, -, h⟩
  · exact hbytes _ _ h
  rcases bind_eq_error_iff.mp h with h | ⟨roots, -, h⟩
  · exact (Reader.InBounds.uint32s _).of_run h
  · cases h

theorem Directory.complete_of_decode (file : PageFile) (paged : 0 < file.pageSize.toNat)
    {header : Header} {directory : Directory} (h : decode file header = .ok directory) :
    ∀ stream ∈ directory.streams, stream.Complete file.pageSize.toNat := by
  unfold decode at h
  obtain ⟨pageList, -, h⟩ := bind_eq_ok_iff.mp h
  obtain ⟨_, -, h⟩ := bind_eq_ok_iff.mp h
  obtain ⟨content, -, h⟩ := bind_eq_ok_iff.mp h
  obtain ⟨stored, -, hlists⟩ := lists_of_entries paged h
  intro stream member
  obtain ⟨_, -, hlist⟩ := exists_of_mem_of_forall₂ hlists.flip (Array.mem_toList_iff.mpr member)
  exact hlist.complete

theorem Container.complete_of_ofImage {image : ByteArray} {container : Container}
    (h : ofImage image = .ok container) : container.Complete := by
  have paged := paged_of_ofImage h
  unfold ofImage at h
  obtain ⟨header, -, h⟩ := bind_eq_ok_iff.mp h
  obtain ⟨directory, hdirectory, h⟩ := bind_eq_ok_iff.mp h
  cases h
  exact ⟨paged, Directory.complete_of_decode _ paged hdirectory⟩

/-! ### The streams of a file -/

namespace SourceLibrary

variable {library : SourceLibrary}

theorem describe_inBounds (complete : library.container.Complete) (file : SourceFile) :
    (library.describe file).InBounds := by
  unfold describe
  cases library.info.stream? (sourceStreamName file.name) with
  | none => exact .pure _
  | some index =>
    exact complete.bind_stream index fun _ hstream => .ite (.pure _)
      (StreamDescriptor.stage_inBounds complete.paged hstream file.readStream_inBounds)

theorem load_inBounds (complete : library.container.Complete) : library.load.InBounds := by
  intro nameId kind checksum session error h
  unfold load at h
  cases hname : library.names.name? nameId with
  | none =>
    rw [hname] at h
    cases h
    exact nofun
  | some name =>
    rw [hname] at h
    dsimp only at h
    cases hfind : session.table.find? name with
    | some ref =>
      rw [hfind] at h
      cases h
    | none =>
      rw [hfind] at h
      rcases bind_eq_error_iff.mp h with h | ⟨_, -, h⟩
      · exact describe_inBounds complete _ _ _ h
      · cases h

theorem ofContainer_inBounds {container : Container} (complete : container.Complete) :
    (ofContainer container).InBounds := by
  refine .bind (complete.stage_inBounds _ InfoStream.read_inBounds) fun info => ?_
  cases info.stream? "/NAMES" with
  | none => exact .throw nofun
  | some index => exact .bind (complete.stage_inBounds _ NameTable.read_inBounds) fun _ => .pure _

end SourceLibrary

theorem ModuleDescriptor.decode_inBounds {library : SourceLibrary}
    (complete : library.container.Complete) (keepNames : Bool)
    (findings : ModuleFindings SourceSession) (descriptor : ModuleDescriptor) :
    (descriptor.decode library keepNames findings).InBounds := by
  unfold decode
  cases descriptor.stream? with
  | none => exact .pure _
  | some index =>
    exact complete.bind_stream index fun stream hstream => .ite (.throw nofun)
      (StreamDescriptor.stage_inBounds complete.paged hstream
        (readStream_inBounds (SourceLibrary.load_inBounds complete) _ _ _))

namespace DebugInfo

theorem remapMethods_inBounds (remap : TokenRemap) (methods : List Method) (error : DecodeError)
    (h : remapMethods remap methods = .error error) : ManagedPdb.InBounds error := by
  rcases bind_eq_error_iff.mp h with h | ⟨renamed, -, h⟩
  · obtain ⟨method, -, happly⟩ := exists_of_mapM_eq_error h
    obtain ⟨token, -, -, rfl⟩ := TokenRemap.exists_of_apply_eq_error happly
    exact nofun
  · cases h

theorem decodeSourceServer_inBounds {library : SourceLibrary}
    (complete : library.container.Complete) (error : DecodeError)
    (h : decodeSourceServer library = .error error) : ManagedPdb.InBounds error := by
  unfold decodeSourceServer at h
  split at h
  · cases h
  · rcases bind_eq_error_iff.mp h with h | ⟨content, -, h⟩
    · exact complete.content_inBounds h
    · cases h

theorem ofContainer_inBounds (options : DecodeOptions) {container : Container}
    (complete : container.Complete) (sourceCursor : Cursor) :
    (ofContainer options container sourceCursor).InBounds := by
  refine (SourceLibrary.ofContainer_inBounds complete).bind_of_run' fun library _ hlibrary => ?_
  have hcontainer := SourceLibrary.container_of_ofContainer complete.paged hlibrary
  rw [← hcontainer] at complete ⊢
  have hremap : ∀ debug, (decodeRemap library.container debug options).InBounds := fun debug => by
    unfold decodeRemap
    split
    · exact .pure _
    · exact .ite (complete.stage_inBounds _ TokenRemap.read_inBounds) (.pure _)
  refine .bind (complete.stage_inBounds _ (DebugStream.read_inBounds _)) fun debug =>
    .bind (hremap debug) fun remap => .bind ?_ fun findings => ?_
  · exact .foldlM (ModuleDescriptor.decode_inBounds complete options.keepNames) _ _
  · exact .bind (.lift (remapMethods_inBounds _ _)) fun _ =>
      .bind (.lift (decodeSourceServer_inBounds complete)) fun _ => .pure _

/-- No file makes the decoder read out of the bounds of a stream. -/
theorem decodeWith_inBounds {options : DecodeOptions} {image : ByteArray} {error : DecodeError}
    (h : decodeWith options image = .error error) : ManagedPdb.InBounds error := by
  rcases bind_eq_error_iff.mp h with h | ⟨container, hcontainer, h⟩
  · rcases bind_eq_error_iff.mp h with h | ⟨header, hheader, h⟩
    · exact Header.decode_inBounds h
    rcases bind_eq_error_iff.mp h with h | ⟨directory, -, h⟩
    · exact Directory.decode_inBounds (Header.pageSize_pos (Header.isPageSize_of_decode hheader)) h
    · cases h
  · exact (ofContainer_inBounds options (Container.complete_of_ofImage hcontainer) .empty).run' h

end DebugInfo

/-! ### The page counts of a file -/

/-- The root pages give the page list of the directory: the pieces in `pieces` are their parts in
`parts`, and one after the other they are what is gathered and stands in the cursor then.  With it,
`stream`, the directory as a stream, has its pages. -/
structure Directory.Gathers (file : PageFile) (header : Header) (parts : List (UInt32 × Nat))
    (pieces : List ByteArray) (stream : StreamDescriptor) : Prop where
  read : List.Forall₂ (fun part piece => readShare file part = .ok piece) parts pieces
  gathered : gatherPages file .empty (file.pagesFor header.directorySize).toNat
    header.directoryRoots = .ok (Bytes.concat pieces)
  staged : Stages (Machine.pageList file (file.pagesFor header.directorySize).toNat
    header.directoryRoots) (.ok (Bytes.concat pieces))
  size : (Bytes.concat pieces).size = 4 * (header.directorySize.toNat ⌈/⌉ file.pageSize.toNat)
  parsed : (descriptor header.directorySize (file.pagesFor header.directorySize).toNat).run
    (Bytes.concat pieces) = .ok stream
  length : stream.length = header.directorySize
  complete : stream.Complete file.pageSize.toNat

theorem Directory.gathers_or_error (file : PageFile) {header : Header}
    (large : 512 ≤ file.pageSize.toNat) {toGo : Nat}
    (htoGo : toGo = header.directorySize.toNat ⌈/⌉ file.pageSize.toNat)
    (hsum : (shares (file.pageSize.toNat / 4) toGo header.directoryRoots.length).sum = toGo) :
    let parts := header.directoryRoots.zip
      (shares (file.pageSize.toNat / 4) toGo header.directoryRoots.length)
    (∃ part ∈ parts, readShare file part = .error (.ofKind .sourceUnreadable) ∧
      decode file header = .error (.ofKind .sourceUnreadable)) ∨
    ∃ pieces stream, Gathers file header parts pieces stream ∧
      decode file header = stream.content file >>= fun content => (entries file).run content := by
  intro parts
  have paged : 0 < file.pageSize.toNat := by omega
  have hcount : (file.pagesFor header.directorySize).toNat = toGo := by
    rw [PageFile.toNat_pagesFor paged, htoGo, pagesFor_eq_ceilDiv]
  have hstages := @Stages.pageList file toGo header.directoryRoots (by
    have := pagesFor_mul_lt header.directorySize large
    rw [pagesFor_eq_ceilDiv, ← htoGo] at this
    omega)
  have hdecode : decode file header = (do
      let pageList ← gatherPages file .empty toGo header.directoryRoots
      let stream ← (descriptor header.directorySize toGo).run pageList
      (entries file).run (← stream.content file)) := by simp only [decode, hcount]
  rw [hdecode]
  rcases gatherPages_cases file toGo header.directoryRoots with
    ⟨pieces, hread, hgather⟩ | ⟨part, member, hpart, hgather⟩
  · have hsize : (Bytes.concat pieces).size = 4 * toGo := by
      rw [size_concat_of_readShare hread, List.map_snd_zip (by simp), hsum, Nat.mul_comm]
    obtain ⟨stream, hstream, hlength, hpages⟩ :=
      exists_descriptor_run header.directorySize hsize
    rw [hgather] at hstages ⊢
    simp only [ok_bind, hstream]
    refine .inr ⟨pieces, stream, ⟨hread, hcount ▸ hgather, hcount ▸ hstages, htoGo ▸ hsize,
      hcount ▸ hstream, hlength, ?_⟩, rfl⟩
    rw [StreamDescriptor.Complete, hpages, hlength, htoGo]
  · rw [hgather]
    exact .inl ⟨part, member, hpart, rfl⟩

namespace DebugInfo

/-- The page counts of a file agree.  The header names as many root pages as the page list of the
directory needs.  Each of these gives at least one page number, until none is to be found; so,
unless a root page cannot be read, the page list is staged and is the page list of the directory.
Then every stream has the pages that its length needs, and reads inside it fail only where the file
ends too early.  No file makes the decoder read out of the bounds of a stream. -/
theorem pageLists_agree (image : ByteArray) :
    (∀ header, Header.decode image = .ok header →
      let file : PageFile := ⟨image, header.pageSize⟩
      let pageSize := header.pageSize.toNat
      let pageCount := header.directorySize.toNat ⌈/⌉ pageSize
      let shares := Directory.shares (pageSize / 4) pageCount header.directoryRoots.length
      let parts := header.directoryRoots.zip shares
      header.directoryRoots.length = (4 * pageCount) ⌈/⌉ pageSize ∧
      (∀ share ∈ shares, 1 ≤ share ∧ share ≤ pageSize / 4) ∧ shares.sum = pageCount ∧
      ((∃ part ∈ parts, Directory.readShare file part = .error (.ofKind .sourceUnreadable) ∧
          Directory.decode file header = .error (.ofKind .sourceUnreadable)) ∨
        ∃ pieces stream, Directory.Gathers file header parts pieces stream ∧
          ∀ directory, Directory.decode file header = .ok directory →
            (∃ content stored, stream.content file = .ok content ∧
              Directory.storedLengths.run content = .ok stored ∧
              List.Forall₂ (Directory.Lists pageSize) stored directory.streams.toList) ∧
            ∀ stream ∈ directory.streams, ∀ position count,
              position.toNat + count ≤ stream.length.toNat → ∀ error,
              stream.read file position count = .error error → error.kind = .sourceUnreadable)) ∧
    ∀ options error, decodeWith options image = .error error →
      ∀ position length, error.kind ≠ .streamOutOfBounds position length := by
  refine ⟨?_, fun options error h => decodeWith_inBounds h⟩
  intro header hheader file pageSize pageCount shares parts
  have hsize := Header.isPageSize_of_decode hheader
  have large : 512 ≤ pageSize := Header.pageSize_ge hsize
  have paged : 0 < pageSize := by omega
  have hroots := Header.length_directoryRoots_eq_pagesFor hheader
  obtain ⟨hshares, hsum⟩ := Directory.shares_of_pagesFor (show 0 < pageSize / 4 by omega) hroots
  refine ⟨?_, hshares, hsum, ?_⟩
  · rw [Header.length_directoryRoots hheader, Header.rootCount, Nat.mul_comm]
    rfl
  · rcases Directory.gathers_or_error file large rfl hsum with
      hfails | ⟨pieces, stream, hgathers, hdecode⟩
    · exact .inl hfails
    · refine .inr ⟨pieces, stream, hgathers, fun directory hdirectory => ⟨?_, ?_⟩⟩
      · rw [hdecode] at hdirectory
        obtain ⟨content, hcontent, hentries⟩ := bind_eq_ok_iff.mp hdirectory
        obtain ⟨stored, hstored, hlists⟩ := Directory.lists_of_entries paged hentries
        exact ⟨content, stored, hcontent, hstored, hlists⟩
      · intro listed member position count inside error hread
        exact StreamDescriptor.kind_of_read_eq_error paged
          (Directory.complete_of_decode file paged hdirectory listed member) inside hread

/-- Three pages: the header, the root page and the directory, which puts its only stream on a page
behind the end of the file. -/
def truncatedImage : ByteArray :=
  Bytes.concat [Layout.header 512 3 12 [1], Bytes.resize (Bytes.uint32s [2]) 512,
    Bytes.resize (Bytes.uint32s [1, 5, 99]) 512]

theorem pageLists_agree_truncatedImage :
    let header : Header := ⟨512, 12, [1]⟩
    let file : PageFile := ⟨truncatedImage, 512⟩
    Header.decode truncatedImage = .ok header ∧ Directory.shares 128 1 1 = [1] ∧
      (∃ stream, Directory.Gathers file header [(1, 1)] [Bytes.uint32s [2]] stream) ∧
      Directory.decode file header = .ok ⟨#[⟨5, #[99]⟩]⟩ ∧
      (∃ error, (⟨5, #[99]⟩ : StreamDescriptor).read file 1 4 = .error error ∧
        error.kind = .sourceUnreadable) ∧
      ∃ error, decodeWith {} truncatedImage = .error error ∧
        ∀ position length, error.kind ≠ .streamOutOfBounds position length := by
  intro header file
  have hheader : Header.decode truncatedImage = .ok header := by decide +kernel
  have hdirectory : Directory.decode file header = .ok ⟨#[⟨5, #[99]⟩]⟩ := by decide +kernel
  have hread : (⟨5, #[99]⟩ : StreamDescriptor).read file 1 4
      = .error (.ofKindAt .sourceUnreadable 50688) := by decide +kernel
  have hshare : Directory.readShare file (1, 1) = .ok (Bytes.uint32s [2]) := by decide +kernel
  have hdecode : (decodeWith {} truncatedImage).toOption.isNone = true := by decide +kernel
  obtain ⟨hlists, hinBounds⟩ := pageLists_agree truncatedImage
  obtain ⟨-, -, -, hgathers⟩ := hlists header hheader
  obtain ⟨pieces, stream, hgathers, hlists⟩ := hgathers.resolve_left fun ⟨_, _, _, h⟩ => by
    rw [hdirectory] at h
    cases h
  refine ⟨hheader, rfl, ⟨stream, ?_⟩, hdirectory, ⟨_, hread, ?_⟩, ?_⟩
  · have hparts : header.directoryRoots.zip (Directory.shares (header.pageSize.toNat / 4)
        (header.directorySize.toNat ⌈/⌉ header.pageSize.toNat) header.directoryRoots.length)
        = [(1, 1)] := by decide +kernel
    rw [hparts] at hgathers
    obtain ⟨piece, _, hpiece, hrest, rfl⟩ := List.forall₂_cons_left_iff.mp hgathers.read
    cases hrest
    rwa [Except.ok.inj (hpiece.symm.trans hshare)] at hgathers
  · exact (hlists _ hdirectory).2 _ (by simp) 1 4 (by decide) _ hread
  · cases herror : decodeWith {} truncatedImage with
    | ok info =>
      rw [herror] at hdecode
      cases hdecode
    | error error => exact ⟨error, rfl, hinBounds {} error herror⟩

end DebugInfo

end ManagedPdb
