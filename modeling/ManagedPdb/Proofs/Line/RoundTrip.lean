import ManagedPdb.Proofs.Draft.LineRegion
import ManagedPdb.Proofs.Line.Correlation
import ManagedPdb.Proofs.Line.Packing

/-!
# Written line regions are read back

A file id is the offset of a checksum record.  Whoever writes a region knows it from the records
written so far, and whoever reads it from the position in the subsection.  Both agree as all frames
and records are padded to multiples of four and the region stands at one (`Reads.checksumRecords`).
The main result (`LineRegion.read_written`) puts together the table of files and the lines that are
given to methods.
-/

namespace ManagedPdb

/-! ### Frames -/

/-- The subsection holds what was written: its payload stands there, at a multiple of four. -/
structure Subsection.Holds (content : ByteArray) (draft : SubsectionDraft)
    (subsection : Subsection) : Prop where
  kind : subsection.kind = draft.kind
  stands : StandsAt draft.payload content subsection.start
  stop : subsection.stop = subsection.start + draft.payload.size
  aligned : subsection.start % 4 = 0

namespace SubsectionDraft

/-- Readers do not pass over the subsection. -/
def Kept (draft : SubsectionDraft) : Prop := draft.kind &&& Subsection.ignoredFlag = 0

theorem le_size_bytes (draft : SubsectionDraft) : 8 + draft.payload.size ≤ draft.bytes.size := by
  rw [bytes, Bytes.size_padded]
  simp only [ByteArray.size_append, Bytes.size_uint32]
  omega

/-- The subsections that are written one behind the other. -/
def located (start : Nat) : (drafts : List SubsectionDraft) → List Subsection
  | [] => []
  | draft :: rest =>
    ⟨draft.kind, start + 8, start + 8 + draft.payload.size⟩
      :: located (start + draft.bytes.size) rest

theorem forall₂_located {content : ByteArray} {start : Nat} {drafts : List SubsectionDraft}
    (aligned : start % 4 = 0)
    (stands : StandsAt (Bytes.concat (drafts.map bytes)) content start) :
    List.Forall₂ (Subsection.Holds content) drafts (located start drafts) := by
  induction drafts generalizing start with
  | nil => exact .nil
  | cons draft rest ih =>
    rw [List.map_cons, Bytes.concat_cons] at stands
    have hsize := draft.size_bytes_mod_four
    refine .cons ⟨rfl, ?_, rfl, ?_⟩ (ih (by omega) stands.append_right)
    · have hframe := stands.append_left
      rw [bytes, Bytes.padded] at hframe
      have hpayload := hframe.append_left.append_right
      rwa [ByteArray.size_append, Bytes.size_uint32, Bytes.size_uint32] at hpayload
    · show (start + 8) % 4 = 0
      omega

end SubsectionDraft

namespace Reads

variable {start limit : Nat}

theorem subsection {draft : SubsectionDraft} (kept : draft.Kept) (found : Array Subsection)
    (aligned : start % 4 = 0) (inside : start + draft.bytes.size ≤ limit)
    (hsize : draft.payload.size < 2 ^ 32) (hlimit : limit + 4 ≤ 2 ^ 64) :
    Reads (Subsection.readNext limit found) start draft.bytes
      (found.push ⟨draft.kind, start + 8, start + 8 + draft.payload.size⟩) := by
  have hle := draft.le_size_bytes
  have hlength : (UInt32.ofNat draft.payload.size).toNat = draft.payload.size := by
    rw [UInt32.toNat_ofNat', Nat.mod_eq_of_lt hsize]
  rw [SubsectionDraft.bytes, Bytes.padded]
  simp only [ByteArray.append_assoc]
  refine .bind (.uint32 _) (.bind (.uint32 _) (.position ?_))
  simp only [hlength, Bytes.size_uint32]
  rw [if_neg (by omega)]
  refine .bind (.seek rfl) (.bind_empty (.align_four_of_le ?_ (by omega)) ?_)
  · simp only [Bytes.size_zeros, ByteArray.size_append, Bytes.size_uint32]
    omega
  · rw [if_pos (show draft.kind &&& Subsection.ignoredFlag = 0 from kept)]
    exact .pure _

theorem subsections {drafts : List SubsectionDraft} (kept : ∀ draft ∈ drafts, draft.Kept)
    (aligned : start % 4 = 0)
    (hlimit : start + (Bytes.concat (drafts.map SubsectionDraft.bytes)).size = limit)
    (hsize : (Bytes.concat (drafts.map SubsectionDraft.bytes)).size < 2 ^ 32)
    (hspace : limit + 4 ≤ 2 ^ 64) (found : Array Subsection) :
    Reads (Reader.whileBelow limit (Subsection.readNext limit) found) start
      (Bytes.concat (drafts.map SubsectionDraft.bytes))
      (found ++ (SubsectionDraft.located start drafts).toArray) := by
  induction drafts generalizing start found with
  | nil =>
    simp only [List.map_nil, Bytes.concat_nil, ByteArray.size_empty, SubsectionDraft.located,
      Array.append_empty] at hlimit ⊢
    exact .whileBelow_done (by omega)
  | cons draft rest ih =>
    rw [List.forall_mem_cons] at kept
    simp only [List.map_cons, Bytes.concat_cons, ByteArray.size_append] at hlimit hsize ⊢
    have hle := draft.le_size_bytes
    have haligned := draft.size_bytes_mod_four
    have hrest := @ih (start + draft.bytes.size) kept.2 (by omega) (by omega) (by omega)
      (found.push ⟨draft.kind, start + 8, start + 8 + draft.payload.size⟩)
    refine .whileBelow_step ?_ (subsection kept.1 found aligned ?_ ?_ hspace) ?_
      (by simpa [SubsectionDraft.located] using hrest)
    all_goals omega

end Reads

/-- Where a region of subsections stands, those of a kind are found. -/
theorem Subsection.readKind_eq {content : ByteArray} {start limit : Nat}
    {drafts : List SubsectionDraft} (kept : ∀ draft ∈ drafts, draft.Kept)
    (aligned : start % 4 = 0)
    (stands : StandsAt (Bytes.concat (drafts.map SubsectionDraft.bytes)) content start)
    (hlimit : start + (Bytes.concat (drafts.map SubsectionDraft.bytes)).size = limit)
    (hsize : (Bytes.concat (drafts.map SubsectionDraft.bytes)).size < 2 ^ 32)
    (hspace : limit + 4 ≤ 2 ^ 64) (kind : UInt32) (position : Nat) :
    ∃ subsections, readKind kind start limit content position = .done subsections limit ∧
      List.Forall₂ (Holds content) (drafts.filter (·.kind == kind)) subsections := by
  refine ⟨(SubsectionDraft.located start drafts).filter (·.kind == kind), ?_, ?_⟩
  · have hstart : start ≤ content.size := by
      have hle := stands.le_size
      omega
    have hloop := Reads.subsections kept aligned hlimit hsize hspace #[] content stands
    simp only [readKind, readAll, Reader.bind_apply, Reader.seek_of_le hstart, hloop, hlimit,
      Reader.pure_apply]
    simp
  · refine List.rel_filter ?_ (SubsectionDraft.forall₂_located aligned stands)
    intro draft subsection holds
    simp only [holds.kind]

/-! ### Checksum records -/

section

variable {σ : Type} {load : SourceLoader σ}

/-- Asks the loader for the files of all records, one after the other. -/
def loadAll (load : SourceLoader σ) :
    (drafts : List ChecksumDraft) → σ → Except DecodeError (List SourceRef × σ)
  | [], sources => .ok ([], sources)
  | draft :: rest, sources => do
    let (file, sources) ← load draft.nameId draft.kind draft.checksum sources
    let (files, sources) ← loadAll load rest sources
    return (file :: files, sources)

theorem length_of_loadAll {drafts : List ChecksumDraft} {sources sources' : σ}
    {files : List SourceRef} (h : loadAll load drafts sources = .ok (files, sources')) :
    files.length = drafts.length := by
  induction drafts generalizing sources files with
  | nil =>
    cases h
    rfl
  | cons draft rest ih =>
    obtain ⟨⟨file, middle⟩, -, h⟩ := bind_eq_ok_iff.mp h
    obtain ⟨⟨later, last⟩, hlater, h⟩ := bind_eq_ok_iff.mp h
    cases h
    rw [List.length_cons, ih hlater, List.length_cons]

namespace ChecksumDraft

theorem offsets_ge {start : Nat} {drafts : List ChecksumDraft} {offset : Nat}
    (member : offset ∈ offsets start drafts) : start ≤ offset := by
  induction drafts generalizing start with
  | nil => cases member
  | cons draft rest ih =>
    rcases List.mem_cons.mp member with rfl | member
    · exact Nat.le_refl _
    · have hle := ih member
      omega

theorem offsets_lt {start : Nat} {drafts : List ChecksumDraft} {offset : Nat}
    (member : offset ∈ offsets start drafts) :
    offset < start + (Bytes.concat (drafts.map bytes)).size := by
  induction drafts generalizing start with
  | nil => cases member
  | cons draft rest ih =>
    have hpos := draft.size_bytes_pos
    rw [List.map_cons, Bytes.concat_cons, ByteArray.size_append]
    rcases List.mem_cons.mp member with rfl | member
    · omega
    · have hlt := ih member
      omega

theorem nodup_offsets (start : Nat) (drafts : List ChecksumDraft) :
    (offsets start drafts).Nodup := by
  induction drafts generalizing start with
  | nil => exact List.nodup_nil
  | cons draft rest ih =>
    refine List.nodup_cons.mpr ⟨fun member => ?_, ih _⟩
    have hle := offsets_ge member
    have hpos := draft.size_bytes_pos
    omega

theorem length_offsets (start : Nat) (drafts : List ChecksumDraft) :
    (offsets start drafts).length = drafts.length := by
  induction drafts generalizing start with
  | nil => rfl
  | cons draft rest ih => rw [offsets, List.length_cons, ih, List.length_cons]

/-- File ids are offsets in 32 bits, so that no two records have the same. -/
theorem nodup_fileIds {drafts : List ChecksumDraft}
    (hsize : (Bytes.concat (drafts.map bytes)).size < 2 ^ 32) :
    ((offsets 0 drafts).map UInt32.ofNat).Nodup := by
  refine (List.nodup_map_iff_inj_on (nodup_offsets 0 drafts)).mpr ?_
  intro first hfirst second hsecond heq
  have hlt := offsets_lt hfirst
  have hlt' := offsets_lt hsecond
  rw [← UInt32.toNat_inj, UInt32.toNat_ofNat', UInt32.toNat_ofNat', Nat.mod_eq_of_lt (by omega),
    Nat.mod_eq_of_lt (by omega)] at heq
  exact heq

end ChecksumDraft

namespace Reads

variable {start offset : Nat}

theorem checksumRecord {draft : ChecksumDraft} {table : ChecksumTable} {sources sources' : σ}
    {file : SourceRef} (hload : load draft.nameId draft.kind draft.checksum sources
      = .ok (file, sources')) (short : draft.checksum.size ≤ 255)
    (aligned : (start + offset) % 4 = 0)
    (hspace : start + offset + draft.bytes.size + 4 ≤ 2 ^ 64) :
    Reads (ChecksumTable.readRecord load start (table, sources)) (start + offset) draft.bytes
      (table.insert (UInt32.ofNat offset) file, sources') := by
  have hlength : (UInt8.ofNat draft.checksum.size).toNat = draft.checksum.size := by
    rw [UInt8.toNat_ofNat', Nat.mod_eq_of_lt (by omega)]
  rw [ChecksumDraft.bytes, Bytes.size_padded] at hspace
  simp only [ByteArray.size_append, Bytes.size_uint32, Bytes.size_uint8] at hspace
  rw [ChecksumDraft.bytes, Bytes.padded]
  simp only [ByteArray.append_assoc]
  refine .position (.bind (.uint32 _) (.bind (.uint8 _) (.bind (.uint8 _) ?_)))
  refine .bind (.bytes hlength) ?_
  rw [hload]
  refine .empty_bind (.pure _) (.bind_empty (.align_four_of_le ?_ ?_) ?_)
  · simp only [Bytes.size_zeros, ByteArray.size_append, Bytes.size_uint32, Bytes.size_uint8]
    omega
  · simp only [Bytes.size_uint32, Bytes.size_uint8]
    omega
  · rw [Nat.add_sub_cancel_left]
    exact .pure _

theorem checksumRecords {drafts : List ChecksumDraft} {stop : Nat} {table : ChecksumTable}
    {sources sources' : σ} {files : List SourceRef}
    (hload : loadAll load drafts sources = .ok (files, sources'))
    (short : ∀ draft ∈ drafts, draft.checksum.size ≤ 255)
    (aligned : start % 4 = 0) (aligned_offset : offset % 4 = 0)
    (hstop : start + offset + (Bytes.concat (drafts.map ChecksumDraft.bytes)).size = stop)
    (hspace : stop + 4 ≤ 2 ^ 64) :
    Reads (Reader.whileBelow stop (ChecksumTable.readRecord load start) (table, sources))
      (start + offset) (Bytes.concat (drafts.map ChecksumDraft.bytes))
      (table.insertMany (((ChecksumDraft.offsets offset drafts).map UInt32.ofNat).zip files),
        sources') := by
  induction drafts generalizing offset table sources files with
  | nil =>
    cases hload
    simp only [List.map_nil, Bytes.concat_nil, ByteArray.size_empty, List.zip_nil_right,
      Std.HashMap.insertMany_nil] at hstop ⊢
    exact .whileBelow_done (by omega)
  | cons draft rest ih =>
    obtain ⟨⟨file, middle⟩, hfirst, hload⟩ := bind_eq_ok_iff.mp hload
    obtain ⟨⟨later, last⟩, hlater, hload⟩ := bind_eq_ok_iff.mp hload
    cases hload
    rw [List.forall_mem_cons] at short
    simp only [List.map_cons, Bytes.concat_cons, ByteArray.size_append] at hstop ⊢
    have hpos := draft.size_bytes_pos
    have hmod := draft.size_bytes_mod_four
    have hrest := @ih (offset + draft.bytes.size) (table.insert (UInt32.ofNat offset) file) middle
      later hlater short.2 (by omega) (by omega)
    rw [ChecksumDraft.offsets, List.map_cons, List.zip_cons_cons, Std.HashMap.insertMany_cons]
    refine .whileBelow_step ?_ (checksumRecord hfirst short.1 ?_ ?_) hpos
      (by rwa [Nat.add_assoc])
    all_goals omega

end Reads

end

/-! ### Lines subsections -/

namespace LinesDraft

def site (draft : LinesDraft) : Site := ⟨draft.segment, draft.address⟩

/-- What the subsection says: one table for each block. -/
def tables (checksums : ChecksumTable) (draft : LinesDraft) : List LineTable :=
  draft.blocks.map (LineBlockDraft.table checksums draft.hasColumns)

/-- The same with its place. -/
def siteLines (checksums : ChecksumTable) (draft : LinesDraft) : SiteLines :=
  ⟨some draft.site, some (draft.tables checksums)⟩

/-- All first lines fit into their field. -/
def Packable (draft : LinesDraft) : Prop := ∀ block ∈ draft.blocks, block.Packable

variable {draft : LinesDraft} {content : ByteArray} {subsection : Subsection}

theorem read_of_holds (packable : draft.Packable) (hsize : draft.payload.size < 2 ^ 32)
    (holds : subsection.Holds content draft.subsection) (checksums : ChecksumTable) :
    ∃ inside, LinesHeader.read content subsection.start
        = .done ⟨draft.address, draft.segment, draft.hasColumns⟩ inside ∧
      LineTable.readBlocks checksums draft.hasColumns subsection.stop content inside
        = .done (draft.tables checksums) subsection.stop := by
  have hstands : StandsAt draft.payload content subsection.start := holds.stands
  have hstop : subsection.stop = subsection.start + draft.payload.size := holds.stop
  rw [payload, LineRegion.linesPayload] at hstands hstop hsize
  have hheader : Reads LinesHeader.read subsection.start
      (Bytes.uint32 draft.address ++ Bytes.uint16 draft.segment
        ++ Bytes.uint16 (if draft.hasColumns then 1 else 0) ++ Bytes.uint32 draft.codeSize)
      ⟨draft.address, draft.segment, draft.hasColumns⟩ := by
    simp only [ByteArray.append_assoc]
    refine .bind (.uint32 _) (.bind (.uint16 _) (.bind (.uint16 _) (.bind_empty (.uint32 _) ?_)))
    cases draft.hasColumns <;> exact .pure _
  rw [ByteArray.size_append] at hstop hsize
  have hblocks : Reads (LineTable.readBlocks checksums draft.hasColumns subsection.stop)
      _ _ (draft.tables checksums) :=
    Reads.lineBlocks packable
      (by rw [hstop, Nat.add_assoc] : subsection.start + _ + _ = subsection.stop) (by omega)
  refine ⟨_, hheader content hstands.append_left, ?_⟩
  rw [hblocks content hstands.append_right, hstop, Nat.add_assoc]

theorem ofSubsection_eq (packable : draft.Packable) (hsize : draft.payload.size < 2 ^ 32)
    (holds : subsection.Holds content draft.subsection) (checksums : ChecksumTable) :
    SiteLines.ofSubsection checksums content subsection = draft.siteLines checksums := by
  obtain ⟨inside, hheader, hblocks⟩ := read_of_holds packable hsize holds checksums
  simp only [SiteLines.ofSubsection, hheader, hblocks]
  rfl

/-- Each subsection says what was written into it. -/
theorem map_ofSubsection_eq {drafts : List LinesDraft} {subsections : List Subsection}
    (packable : ∀ draft ∈ drafts, draft.Packable)
    (hsizes : ∀ draft ∈ drafts, draft.payload.size < 2 ^ 32)
    (holds : List.Forall₂ (Subsection.Holds content) (drafts.map LinesDraft.subsection) subsections)
    (checksums : ChecksumTable) :
    subsections.map (SiteLines.ofSubsection checksums content)
      = drafts.map (siteLines checksums) := by
  induction drafts generalizing subsections with
  | nil =>
    cases holds
    rfl
  | cons draft rest ih =>
    cases holds with
    | cons hfirst hrest =>
      rw [List.forall_mem_cons] at packable hsizes
      rw [List.map_cons, List.map_cons, ofSubsection_eq packable.1 hsizes.1 hfirst,
        ih packable.2 hsizes.2 hrest]

end LinesDraft

namespace Attachment

/-- Gives the lines that were written to the method that is selected for their place. -/
def give (search : SiteSearch) (checksums : ChecksumTable) (attachment : Attachment)
    (draft : LinesDraft) : Attachment :=
  match attachment.free? search draft.site with
  | none => attachment
  | some index => attachment.attach index (draft.tables checksums)

theorem readSubsection_of_holds {draft : LinesDraft} {content : ByteArray}
    {subsection : Subsection} (packable : draft.Packable) (hsize : draft.payload.size < 2 ^ 32)
    (holds : subsection.Holds content draft.subsection) (search : SiteSearch)
    (checksums : ChecksumTable) (attachment : Attachment) (position : Nat) :
    ∃ next, attachment.readSubsection search checksums subsection content position
      = .done (attachment.give search checksums draft) next := by
  obtain ⟨inside, hheader, hblocks⟩ := draft.read_of_holds packable hsize holds checksums
  have hstart : subsection.start ≤ content.size := by
    have hle := holds.stands.le_size
    omega
  simp only [readSubsection, Reader.bind_apply, Reader.seek_of_le hstart, hheader, give,
    LinesDraft.site]
  cases attachment.free? search ⟨draft.segment, draft.address⟩ with
  | none => exact ⟨_, rfl⟩
  | some index =>
    simp only [Reader.bind_apply, hblocks]
    exact ⟨_, rfl⟩

theorem readSubsections_of_holds {drafts : List LinesDraft} {content : ByteArray}
    {subsections : List Subsection} (packable : ∀ draft ∈ drafts, draft.Packable)
    (hsizes : ∀ draft ∈ drafts, draft.payload.size < 2 ^ 32)
    (holds : List.Forall₂ (Subsection.Holds content) (drafts.map LinesDraft.subsection) subsections)
    (search : SiteSearch) (checksums : ChecksumTable) (attachment : Attachment) (position : Nat) :
    ∃ next, attachment.readSubsections search checksums subsections content position
      = .done (drafts.foldl (give search checksums) attachment) next := by
  induction drafts generalizing subsections attachment position with
  | nil =>
    cases holds
    exact ⟨_, rfl⟩
  | cons draft rest ih =>
    cases holds with
    | cons hfirst hrest =>
      rw [List.forall_mem_cons] at packable hsizes
      obtain ⟨middle, hmiddle⟩ := readSubsection_of_holds packable.1 hsizes.1 hfirst search
        checksums attachment position
      obtain ⟨next, hnext⟩ := ih packable.2 hsizes.2 hrest
        (attachment.give search checksums draft) middle
      refine ⟨next, ?_⟩
      rw [readSubsections, Reader.bind_apply, hmiddle]
      exact hnext

end Attachment

/-! ### Whole regions -/

namespace LineRegion

variable {commands : List LineCommand}

theorem kept_subsections : ∀ draft ∈ subsections commands, draft.Kept := by
  intro draft member
  rcases List.mem_append.mp member with member | member
  · cases hdrafts : LineCommand.checksums commands with
    | nil =>
      rw [hdrafts] at member
      cases member
    | cons first rest =>
      rw [hdrafts] at member
      obtain rfl := List.mem_singleton.mp member
      exact (rfl : Subsection.checksumsKind &&& Subsection.ignoredFlag = 0)
  · obtain ⟨lines, -, rfl⟩ := List.mem_map.mp member
    exact (rfl : Subsection.linesKind &&& Subsection.ignoredFlag = 0)

theorem filter_checksums : (subsections commands).filter (·.kind == Subsection.checksumsKind)
    = checksumSubsections (LineCommand.checksums commands) := by
  have hnone : ((LineCommand.linesOf commands).map LinesDraft.subsection).filter
      (·.kind == Subsection.checksumsKind) = [] := by
    rw [List.filter_eq_nil_iff]
    intro draft member
    obtain ⟨lines, -, rfl⟩ := List.mem_map.mp member
    simp [LinesDraft.subsection, Subsection.linesKind, Subsection.checksumsKind]
  rw [subsections, List.filter_append, hnone, List.append_nil]
  cases LineCommand.checksums commands <;> rfl

theorem filter_lines : (subsections commands).filter (·.kind == Subsection.linesKind)
    = (LineCommand.linesOf commands).map LinesDraft.subsection := by
  have hall : ((LineCommand.linesOf commands).map LinesDraft.subsection).filter
        (·.kind == Subsection.linesKind)
      = (LineCommand.linesOf commands).map LinesDraft.subsection := by
    rw [List.filter_eq_self]
    intro draft member
    obtain ⟨lines, -, rfl⟩ := List.mem_map.mp member
    rfl
  rw [subsections, List.filter_append, hall]
  cases LineCommand.checksums commands <;> rfl

theorem size_payload_lt (draft : SubsectionDraft) (member : draft ∈ subsections commands)
    (hsize : (ofCommands commands).bytes.size < 2 ^ 32) : draft.payload.size < 2 ^ 32 := by
  have hbytes := Bytes.size_le_size_concat (List.mem_map_of_mem (f := SubsectionDraft.bytes) member)
  have hle := draft.le_size_bytes
  rw [bytes_ofCommands] at hsize
  omega

/-- A line region that was written and stands at a multiple of four of a content. -/
structure Placed (commands : List LineCommand) (content : ByteArray) (start : Nat) : Prop where
  size : (ofCommands commands).bytes.size < 2 ^ 32
  aligned : start % 4 = 0
  stands : StandsAt (ofCommands commands).bytes content start
  /-- The content is not longer than memory can be. -/
  addressable : content.size < 2 ^ 63

namespace Placed

variable {content : ByteArray} {start : Nat}

theorem readKind_eq (placed : Placed commands content start) (kind : UInt32) (position : Nat) :
    ∃ found, Subsection.readKind kind start (start + (ofCommands commands).bytes.size) content
        position = .done found (start + (ofCommands commands).bytes.size) ∧
      List.Forall₂ (Subsection.Holds content) ((subsections commands).filter (·.kind == kind))
        found := by
  have hsize := placed.size
  have hstands := placed.stands
  have hle := hstands.le_size
  have hmemory := placed.addressable
  rw [bytes_ofCommands] at hsize hstands hle ⊢
  exact Subsection.readKind_eq kept_subsections placed.aligned hstands rfl hsize (by omega) kind
    position

/-- The table of the records that were written. -/
theorem read_checksums (placed : Placed commands content start) {σ : Type} {load : SourceLoader σ}
    {sources sources' : σ} {files : List SourceRef}
    (short : ∀ draft ∈ LineCommand.checksums commands, draft.checksum.size ≤ 255)
    (known : loadAll load (LineCommand.checksums commands) sources = .ok (files, sources'))
    (position : Nat) :
    ∃ next, ChecksumTable.read load start (start + (ofCommands commands).bytes.size) sources content
      position = .done (.ofList ((empty.fileIds commands).zip files), sources') next := by
  obtain ⟨found, hfound, holds⟩ := placed.readKind_eq Subsection.checksumsKind position
  rw [filter_checksums] at holds
  simp only [ChecksumTable.read, Reader.bind_apply, hfound]
  rw [fileIds_eq ⟨rfl, rfl⟩]
  cases hdrafts : LineCommand.checksums commands with
  | nil =>
    rw [hdrafts] at holds known
    cases holds
    cases known
    exact ⟨_, rfl⟩
  | cons draft rest =>
    rw [hdrafts] at holds known short
    obtain ⟨subsection, rfl, hholds⟩ : ∃ subsection, found = [subsection] ∧
        subsection.Holds content ⟨Subsection.checksumsKind,
          Bytes.concat ((draft :: rest).map ChecksumDraft.bytes)⟩ := by
      cases holds with
      | cons hfirst hrest =>
        cases hrest
        exact ⟨_, rfl, hfirst⟩
    have hstands := hholds.stands
    have hle := hstands.le_size
    have hmemory := placed.addressable
    have hstop := hholds.stop
    have hrecords : Reads (Reader.whileBelow subsection.stop
        (ChecksumTable.readRecord load subsection.start) (∅, sources)) (subsection.start + 0) _ _ :=
      .checksumRecords known short hholds.aligned rfl hstop.symm (by omega)
    have hdone := hrecords content hstands
    rw [Nat.add_zero] at hdone
    simp only [ChecksumTable.readSubsections, Reader.bind_apply,
      Reader.seek_of_le (show subsection.start ≤ content.size by omega), hdone]
    exact ⟨_, rfl⟩

theorem size_payload_lt (placed : Placed commands content start) {draft : LinesDraft}
    (member : draft ∈ LineCommand.linesOf commands) : draft.payload.size < 2 ^ 32 :=
  LineRegion.size_payload_lt draft.subsection
    (List.mem_append_right _ (List.mem_map_of_mem member)) placed.size

/-- The lines that were written go to the methods selected for their places. -/
theorem read_lines (placed : Placed commands content start)
    (packable : ∀ draft ∈ LineCommand.linesOf commands, draft.Packable) (search : SiteSearch)
    (checksums : ChecksumTable) (methods : List Method) (position : Nat) :
    ∃ next, readLinesBy search checksums start (start + (ofCommands commands).bytes.size) methods
      content position = .done ((LineCommand.linesOf commands).foldl
        (Attachment.give search checksums) (.ofMethods methods)).methods.toList next := by
  obtain ⟨found, hfound, holds⟩ := placed.readKind_eq Subsection.linesKind position
  rw [filter_lines] at holds
  obtain ⟨next, hnext⟩ := Attachment.readSubsections_of_holds packable
    (fun draft member => placed.size_payload_lt member) holds search checksums
    (.ofMethods methods) (start + (ofCommands commands).bytes.size)
  refine ⟨next, ?_⟩
  simp only [readLinesBy, Reader.bind_apply, hfound, hnext]
  rfl

/-- Where methods are sorted, that is the plain rule. -/
theorem correlated (placed : Placed commands content start)
    (packable : ∀ draft ∈ LineCommand.linesOf commands, draft.Packable) {search : SiteSearch}
    (finds : search.Finds) {methods : List Method} (sorted : SortedBySite methods)
    (checksums : ChecksumTable) :
    Correlated methods ((LineCommand.linesOf commands).map (LinesDraft.siteLines checksums))
      ((LineCommand.linesOf commands).foldl (Attachment.give search checksums)
        (.ofMethods methods)).methods.toList := by
  obtain ⟨found, -, holds⟩ := placed.readKind_eq Subsection.linesKind 0
  rw [filter_lines] at holds
  obtain ⟨next, hnext⟩ := Attachment.readSubsections_of_holds packable
    (fun draft member => placed.size_payload_lt member) holds search checksums
    (.ofMethods methods) 0
  have hfollows := (Attachment.follows_ofMethods methods).readSubsections sorted finds hnext
  rw [List.nil_append, LinesDraft.map_ofSubsection_eq packable
    (fun draft member => placed.size_payload_lt member) holds] at hfollows
  exact hfollows.correlated

end Placed

/-- A map of pairs with different keys holds these pairs and no others. -/
theorem file?_ofList_zip {fileIds : List UInt32} {files : List SourceRef} (nodup : fileIds.Nodup)
    (same : files.length = fileIds.length) :
    (∀ (index : Nat) (fileId : UInt32) (file : SourceRef),
        fileIds[index]? = some fileId → files[index]? = some file →
        ChecksumTable.file? (.ofList (fileIds.zip files)) fileId = some file) ∧
      ∀ fileId ∉ fileIds, ChecksumTable.file? (.ofList (fileIds.zip files)) fileId = none := by
  have hkeys : (fileIds.zip files).map Prod.fst = fileIds := List.map_fst_zip (by omega)
  have hpairwise : (fileIds.zip files).Pairwise fun left right => (left.1 == right.1) = false := by
    rw [← hkeys, List.Nodup, List.pairwise_map] at nodup
    exact nodup.imp beq_false_of_ne
  refine ⟨fun index fileId file hid hfile => ?_, fun fileId fresh => ?_⟩
  · apply Std.HashMap.getElem?_ofList_of_mem (beq_self_eq_true fileId) hpairwise
    exact List.mem_of_getElem? (List.getElem?_zip_eq_some.mpr ⟨hid, hfile⟩)
  · apply Std.HashMap.getElem?_ofList_of_contains_eq_false
    rw [hkeys]
    simpa using fresh

theorem nodup_fileIds (hsize : (ofCommands commands).bytes.size < 2 ^ 32) :
    (empty.fileIds commands).Nodup := by
  rw [fileIds_eq ⟨rfl, rfl⟩]
  apply ChecksumDraft.nodup_fileIds
  cases hdrafts : LineCommand.checksums commands with
  | nil => exact Nat.two_pow_pos 32
  | cons draft rest =>
    refine size_payload_lt ⟨Subsection.checksumsKind, _⟩ ?_ hsize
    apply List.mem_append_left
    rw [hdrafts]
    exact List.mem_singleton_self _

theorem length_fileIds (commands : List LineCommand) :
    (empty.fileIds commands).length = (LineCommand.checksums commands).length := by
  rw [fileIds_eq ⟨rfl, rfl⟩, List.length_map, ChecksumDraft.length_offsets]

/-- A line region that was written is read back.  The file ids that were given out when checksum
records were written stand for the files that the loader gives for these records, and no other id
stands for a file.  Each lines subsection goes to the method that is selected for its place, as
`Attachment.give` says, with one table for each block. -/
theorem read_written {σ : Type} {load : SourceLoader σ} {sources sources' : σ}
    {files : List SourceRef} {content : ByteArray} {start : Nat}
    (placed : Placed commands content start)
    (short : ∀ draft ∈ LineCommand.checksums commands, draft.checksum.size ≤ 255)
    (packable : ∀ draft ∈ LineCommand.linesOf commands, draft.Packable)
    (known : loadAll load (LineCommand.checksums commands) sources = .ok (files, sources')) :
    ∃ table : ChecksumTable,
      (∀ position, ∃ next, ChecksumTable.read load start (start + (ofCommands commands).bytes.size)
        sources content position = .done (table, sources') next) ∧
      (empty.fileIds commands).Nodup ∧ files.length = (empty.fileIds commands).length ∧
      (∀ (index : Nat) (fileId : UInt32) (file : SourceRef),
        (empty.fileIds commands)[index]? = some fileId → files[index]? = some file →
        table.file? fileId = some file) ∧
      (∀ fileId ∉ empty.fileIds commands, table.file? fileId = none) ∧
      ∀ search methods position, ∃ result next,
        readLinesBy search table start (start + (ofCommands commands).bytes.size) methods content
          position = .done result next ∧
        result = ((LineCommand.linesOf commands).foldl (Attachment.give search table)
          (.ofMethods methods)).methods.toList ∧
        (search.Finds → SortedBySite methods →
          Correlated methods ((LineCommand.linesOf commands).map (LinesDraft.siteLines table))
            result) := by
  have hnodup := nodup_fileIds placed.size
  have hlength : files.length = (empty.fileIds commands).length := by
    rw [length_of_loadAll known, length_fileIds]
  obtain ⟨hfile, hnone⟩ := file?_ofList_zip hnodup hlength
  refine ⟨_, placed.read_checksums short known, hnodup, hlength, hfile, hnone, ?_⟩
  intro search methods position
  obtain ⟨next, hlines⟩ := placed.read_lines packable search
    (.ofList ((empty.fileIds commands).zip files)) methods position
  exact ⟨_, next, hlines, rfl, fun finds sorted => placed.correlated packable finds sorted _⟩

/-- Two checksum records, and two lines subsections between and behind them, the first with columns
and with a block whose file has no record. -/
theorem read_written_two_files :
    let commands : List LineCommand := [
      .checksum ⟨7, 1, ⟨#[0xa, 0xb, 0xc]⟩⟩,
      .lines ⟨1, 0x100, 16, [⟨0, [⟨0, 5, 300, 1, 2⟩, ⟨4, 9, 8, 3, 4⟩]⟩, ⟨99, []⟩], true⟩,
      .checksum ⟨3, 0, .empty⟩,
      .lines ⟨1, 0x200, 8, [⟨12, [⟨0, 6, 7, 5, 6⟩]⟩], false⟩]
    let content := Bytes.uint32 4 ++ (ofCommands commands).bytes
    let load : SourceLoader Unit := fun nameId _ _ sources => .ok (⟨nameId.toNat⟩, sources)
    let files : List SourceRef := [⟨7⟩, ⟨3⟩]
    Placed commands content 4 ∧
      (∀ draft ∈ LineCommand.checksums commands, draft.checksum.size ≤ 255) ∧
      (∀ draft ∈ LineCommand.linesOf commands, draft.Packable) ∧
      loadAll load (LineCommand.checksums commands) () = .ok (files, ()) ∧
      ∃ table : ChecksumTable, table.file? 0 = some ⟨7⟩ ∧ table.file? 12 = some ⟨3⟩ ∧
        table.file? 99 = none := by
  intro commands content load files
  have hplaced : Placed commands content 4 :=
    { size := by decide +kernel
      aligned := rfl
      stands := ⟨Bytes.uint32 4, .empty, by rw [ByteArray.append_empty], rfl⟩
      addressable := by decide +kernel }
  have hshort : ∀ draft ∈ LineCommand.checksums commands, draft.checksum.size ≤ 255 := by decide
  have hpackable : ∀ draft ∈ LineCommand.linesOf commands, draft.Packable := by
    unfold LinesDraft.Packable LineBlockDraft.Packable
    decide
  have hknown : loadAll load (LineCommand.checksums commands) () = .ok (files, ()) := rfl
  have hids : empty.fileIds commands = [0, 12] := by decide +kernel
  obtain ⟨table, -, -, -, hfile, hnone, -⟩ := read_written hplaced hshort hpackable hknown
  rw [hids] at hfile hnone
  exact ⟨hplaced, hshort, hpackable, hknown, table, hfile 0 0 ⟨7⟩ rfl rfl, hfile 1 12 ⟨3⟩ rfl rfl,
    hnone 99 (by decide)⟩

end LineRegion

end ManagedPdb
