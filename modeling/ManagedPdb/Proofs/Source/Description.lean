import ManagedPdb.Proofs.DebugInfo.Readings
import ManagedPdb.Proofs.Draft.Catalog
import ManagedPdb.Proofs.Stable

/-!
# What is known about a source file

A source file has a name, what its first checksum record says, and what the stream about it says.
The values in such a stream stand at places that depend on two sizes only
(`SourceFile.withContent`), and the stream is the one with the upper-case name of the file
(`SourceLibrary.describes_of_describe`).
-/

namespace ManagedPdb

/-! ### Places in a stream -/

namespace Reader

variable {content : ByteArray} {position stop : Nat}

theorem guid_eq_done {value : Guid} (h : guid content position = .done value stop) :
    value = .ofBytes content position ∧ stop = position + 16 := by
  unfold guid at h
  cases hskip : skip 16 content position with
  | failed error stopped =>
    rw [hskip] at h
    cases h
  | done start middle =>
    obtain ⟨-, rfl, rfl⟩ := Stable.skip_eq_done_iff.mp hskip
    rw [hskip] at h
    cases h
    exact ⟨rfl, rfl⟩

theorem bytes_eq_done {count : Nat} {value : ByteArray}
    (h : bytes count content position = .done value stop) :
    value = content.extract position (position + count) ∧ stop = position + count := by
  unfold bytes at h
  cases hskip : skip count content position with
  | failed error stopped =>
    rw [hskip] at h
    cases h
  | done start middle =>
    obtain ⟨-, rfl, rfl⟩ := Stable.skip_eq_done_iff.mp hskip
    rw [hskip] at h
    cases h
    exact ⟨rfl, rfl⟩

end Reader

namespace SourceFile

/-- The size that stands at a place; a negative one counts as zero. -/
def sizeAt (content : ByteArray) (place : Nat) : Nat :=
  (UInt32.ofNat (LittleEndian.read content place 4)).toInt32.toInt.toNat

/-- The text in a stream, which stands behind the checksum. -/
def textIn (content : ByteArray) : Option ByteArray :=
  let start := 72 + sizeAt content 64
  if sizeAt content 68 = 0 then none
  else some (content.extract start (start + sizeAt content 68))

/-- A file with the first three identifiers of the stream about it. -/
def withIdentifiers (file : SourceFile) (content : ByteArray) : SourceFile :=
  { file with
    languageGuid := .ofBytes content 0
    vendor := .ofBytes content 16
    documentType := .ofBytes content 32 }

/-- A file with what the stream about it says: three identifiers and, unless the stream ends there,
an algorithm, two sizes, a checksum and a text. -/
def withContent (file : SourceFile) (content : ByteArray) : SourceFile :=
  if content.size = 48 then file.withIdentifiers content
  else
    { file.withIdentifiers content with
      algorithm := .ofBytes content 48
      algorithmChecksum := content.extract 72 (72 + sizeAt content 64)
      embeddedSource := (textIn content).or file.embeddedSource }

theorem readSize_eq_done {content : ByteArray} {position stop size : Nat}
    (h : readSize content position = .done size stop) :
    size = sizeAt content position ∧ stop = position + 4 := by
  obtain ⟨number, middle, hnumber, h⟩ := Reader.bind_eq_done_iff.mp h
  obtain ⟨word, last, hword, hnumber⟩ := Reader.bind_eq_done_iff.mp hnumber
  obtain ⟨-, rfl, rfl⟩ := Reader.uint32_eq_done hword
  cases hnumber
  cases h
  exact ⟨rfl, rfl⟩

theorem eq_withContent_of_readStream {file file' : SourceFile} {content : ByteArray}
    (h : file.readStream.run content = .ok file') : file' = file.withContent content := by
  obtain ⟨last, h⟩ := Reader.run_eq_ok_iff.mp h
  obtain ⟨language, _, hlanguage, h⟩ := Reader.bind_eq_done_iff.mp h
  obtain ⟨rfl, rfl⟩ := Reader.guid_eq_done hlanguage
  obtain ⟨vendor, _, hvendor, h⟩ := Reader.bind_eq_done_iff.mp h
  obtain ⟨rfl, rfl⟩ := Reader.guid_eq_done hvendor
  obtain ⟨documentType, _, htype, h⟩ := Reader.bind_eq_done_iff.mp h
  obtain ⟨rfl, rfl⟩ := Reader.guid_eq_done htype
  obtain ⟨_, _, hposition, h⟩ := Reader.bind_eq_done_iff.mp h
  cases hposition
  obtain ⟨_, _, hsize, h⟩ := Reader.bind_eq_done_iff.mp h
  cases hsize
  rw [withContent]
  by_cases hend : content.size = 48
  · rw [if_pos hend.symm] at h
    cases h
    rw [if_pos hend]
    rfl
  · rw [if_neg (Ne.symm hend)] at h
    obtain ⟨algorithm, _, halgorithm, h⟩ := Reader.bind_eq_done_iff.mp h
    obtain ⟨rfl, rfl⟩ := Reader.guid_eq_done halgorithm
    obtain ⟨checksumSize, _, hchecksumSize, h⟩ := Reader.bind_eq_done_iff.mp h
    obtain ⟨rfl, rfl⟩ := readSize_eq_done hchecksumSize
    obtain ⟨sourceSize, _, hsourceSize, h⟩ := Reader.bind_eq_done_iff.mp h
    obtain ⟨rfl, rfl⟩ := readSize_eq_done hsourceSize
    obtain ⟨checksum, _, hchecksum, h⟩ := Reader.bind_eq_done_iff.mp h
    obtain ⟨rfl, rfl⟩ := Reader.bytes_eq_done hchecksum
    rw [if_neg hend, textIn]
    by_cases hempty : sizeAt content 68 = 0
    · rw [if_pos hempty] at h
      cases h
      rw [if_pos hempty]
      rfl
    · rw [if_neg hempty] at h
      obtain ⟨source, _, hsource, h⟩ := Reader.bind_eq_done_iff.mp h
      cases h
      obtain ⟨text, _, htext, hsource⟩ := Reader.bind_eq_done_iff.mp hsource
      obtain ⟨rfl, -⟩ := Reader.bytes_eq_done htext
      cases hsource
      rw [if_neg hempty]
      rfl

end SourceFile

/-! ### The file of a record -/

/-- All that a record says about the file with its name. -/
def ChecksumRecord.file (record : ChecksumRecord) (name : String) : SourceFile :=
  { SourceFile.ofName name with checksumKind := record.kind, checksum := record.checksum }

namespace SourceLibrary

variable {library : SourceLibrary} {record : ChecksumRecord} {file : SourceFile}

/-- The file is what the record says, together with what the stream says that has its upper-case
name, if there is such a stream and it is not empty. -/
def Describes (library : SourceLibrary) (record : ChecksumRecord) (file : SourceFile) : Prop :=
  match library.info.streams["/SRC/FILES/" ++ Upper.ofString file.name]? with
  | none => file = record.file file.name
  | some index => ∃ content, library.container.content index = .ok content ∧
      file = if content.size = 0 then record.file file.name
        else (record.file file.name).withContent content

theorem stream?_sourceStreamName (library : SourceLibrary) (name : String) :
    library.info.stream? (sourceStreamName name)
      = library.info.streams["/SRC/FILES/" ++ Upper.ofString name]? := by
  rw [InfoStream.stream?, ImageDraft.upper_sourceStreamName]
  rfl

/-- Adds to a file what the stream about it says, with that stream read as a whole. -/
def describeWhole (library : SourceLibrary) (file : SourceFile) : Except DecodeError SourceFile :=
  match library.info.stream? (sourceStreamName file.name) with
  | none => .ok file
  | some index => do
    let content ← library.container.content index
    if content.size = 0 then .ok file else file.readStream.run content

theorem run'_describe (paged : library.container.Paged) (file : SourceFile) (cursor : Cursor) :
    (library.describe file).run' cursor = library.describeWhole file := by
  unfold describe describeWhole Container.content
  cases library.info.stream? (sourceStreamName file.name) with
  | none => rfl
  | some index =>
    dsimp only
    cases library.container.directory.stream index with
    | error error => rfl
    | ok stream =>
      show StateT.run' (if stream.isEmpty then pure file
        else stream.stage library.container.file file.readStream : Staging _) cursor = _
      have hisEmpty : stream.isEmpty = true ↔ stream.length.toNat = 0 := by
        rw [StreamDescriptor.isEmpty, beq_iff_eq, ← UInt32.toNat_inj, UInt32.toNat_zero]
      by_cases hempty : stream.isEmpty
      · have hread : stream.content library.container.file = .ok .empty := by
          rw [StreamDescriptor.content, hisEmpty.mp hempty]
          rfl
        rw [if_pos hempty, ok_bind, hread]
        rfl
      · rw [if_neg hempty, StreamDescriptor.run'_stage paged, ok_bind]
        cases hread : stream.content library.container.file with
        | error error => rfl
        | ok content =>
          have hsize := StreamDescriptor.size_of_read_eq_ok paged hread
          have hfull : content.size ≠ 0 := fun hzero => hempty (hisEmpty.mpr (hsize ▸ hzero))
          rw [ok_bind, ok_bind, if_neg hfull]

theorem describes_of_describe (paged : library.container.Paged) {name : String} {cursor : Cursor}
    (h : (library.describe (record.file name)).run' cursor = .ok file) :
    file.name = name ∧ library.Describes record file := by
  have hbase : (record.file name).name = name := rfl
  rw [run'_describe paged, describeWhole, hbase, stream?_sourceStreamName] at h
  unfold Describes
  cases hindex : library.info.streams["/SRC/FILES/" ++ Upper.ofString name]? with
  | none =>
    rw [hindex] at h
    cases h
    exact ⟨rfl, by rw [hbase, hindex]⟩
  | some index =>
    rw [hindex] at h
    obtain ⟨content, hcontent, h⟩ := bind_eq_ok_iff.mp h
    by_cases hempty : content.size = 0
    · rw [if_pos hempty] at h
      cases h
      refine ⟨rfl, ?_⟩
      rw [hbase, hindex]
      exact ⟨content, hcontent, (if_pos hempty).symm⟩
    · rw [if_neg hempty] at h
      have hname : file.name = name := SourceFile.name_of_readStream h
      refine ⟨hname, ?_⟩
      rw [hname, hindex]
      exact ⟨content, hcontent, by
        rw [if_neg hempty]
        exact SourceFile.eq_withContent_of_readStream h⟩

end SourceLibrary

end ManagedPdb
