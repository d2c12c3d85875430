import ManagedPdb.Draft.Image
import ManagedPdb.Proofs.Guid
import ManagedPdb.Source.File

/-!
# Streams about source files

What is read from a stream about a source file is added to what is known of the file, and never
changes its name (`SourceFile.name_of_readStream`).  A stream that was written says what it was
written from (`SourceFile.readStream_sourceStream`); an empty text is the same as none.
-/

namespace ManagedPdb

/-! ### Values of readers -/

/-- Whatever the reader reads, its value has the property. -/
def Reader.Ensures {α : Type} (P : α → Prop) (reader : Reader α) : Prop :=
  ∀ content position value stop, reader content position = .done value stop → P value

namespace Reader.Ensures

variable {α β : Type} {P : β → Prop}

protected theorem pure {value : β} (h : P value) : Ensures P (Pure.pure value) := by
  intro content position value' stop hdone
  cases hdone
  exact h

protected theorem bind {reader : Reader α} {next : α → Reader β}
    (h : ∀ value, Ensures P (next value)) : Ensures P (reader >>= next) := by
  intro content position value stop hdone
  obtain ⟨first, middle, -, hnext⟩ := bind_eq_done_iff.mp hdone
  exact h first content middle value stop hnext

theorem run {reader : Reader β} (h : Ensures P reader) {content : ByteArray} {value : β}
    (hrun : reader.run content = .ok value) : P value := by
  obtain ⟨stop, hdone⟩ := run_eq_ok_iff.mp hrun
  exact h content 0 value stop hdone

end Reader.Ensures

/-! ### Sizes -/

/-- A size that was written as a number of 32 bits. -/
theorem Reads.readSize {start size : Nat} (hsize : size < 2 ^ 31) :
    Reads SourceFile.readSize start (Bytes.uint32 (UInt32.ofNat size)) size := by
  have hvalue : (UInt32.ofNat size).toInt32.toInt.toNat = size := by
    rw [UInt32.toInt32_ofNat', Int32.toInt_ofNat_of_lt hsize, Int.toNat_natCast]
  have h : Reads SourceFile.readSize start
      (Bytes.uint32 (UInt32.ofNat size).toInt32.toUInt32) (UInt32.ofNat size).toInt32.toInt.toNat :=
    .bind_pure (fun value : Int32 => value.toInt.toNat) (.int32 _)
  rwa [hvalue, UInt32.toUInt32_toInt32] at h

namespace SourceFile

theorem name_of_readStream {file file' : SourceFile} {content : ByteArray}
    (h : file.readStream.run content = .ok file') : file'.name = file.name := by
  have hname :
      Reader.Ensures (fun file' : SourceFile => file'.name = file.name) file.readStream := by
    unfold readStream
    refine .bind fun language => .bind fun vendor => .bind fun documentType => ?_
    refine .bind fun position => .bind fun size => ?_
    dsimp only
    by_cases hend : position = size
    · rw [if_pos hend]
      exact .pure rfl
    · rw [if_neg hend]
      refine .bind fun algorithm => .bind fun checksumSize => .bind fun sourceSize => ?_
      refine .bind fun checksum => ?_
      by_cases hempty : sourceSize = 0
      · rw [if_pos hempty]
        exact .bind fun _ => .pure rfl
      · rw [if_neg hempty]
        exact .bind fun _ => .pure rfl
  exact hname.run h

/-- A file about which a stream with these values was written. -/
def withStream (file : SourceFile) (language vendor documentType : Guid)
    (source : Option ByteArray) : SourceFile :=
  { file with languageGuid := language, vendor, documentType,
              algorithm := if source.isSome then .nil else file.algorithm,
              algorithmChecksum := if source.isSome then .empty else file.algorithmChecksum,
              embeddedSource := (source.filter (0 < ·.size)).or file.embeddedSource }

theorem readsIn_sourceStream (file : SourceFile) (language vendor documentType : Guid)
    {source : Option ByteArray} (hsize : ∀ text ∈ source, text.size < 2 ^ 31) :
    ReadsIn (ImageDraft.sourceStream language vendor documentType source) file.readStream 0
      (ImageDraft.sourceStream language vendor documentType source)
      (file.withStream language vendor documentType source) := by
  have hguid : ∀ guid : Guid, guid.bytes.size = 16 := by
    intro guid
    simp [Guid.bytes]
  generalize hcontent : ImageDraft.sourceStream language vendor documentType source = content
  cases source with
  | none =>
    -- the stream ends behind the document type
    simp only [ImageDraft.sourceStream, ByteArray.append_assoc, ByteArray.append_empty] at hcontent
    have hend : 0 + language.bytes.size + vendor.bytes.size + documentType.bytes.size
        = content.size := by
      rw [← hcontent]
      simp only [ByteArray.size_append, Nat.zero_add, Nat.add_assoc]
    have h : ReadsIn content file.readStream 0
        (language.bytes ++ (vendor.bytes ++ documentType.bytes))
        (file.withStream language vendor documentType none) := by
      refine .bind (Reads.guid _ content) fun _ => .bind (Reads.guid _ content) fun _ => ?_
      refine .bind_empty (Reads.guid _ content) (.position (.size ?_))
      dsimp only
      rw [if_pos hend]
      exact Reads.pure _ content
    rwa [hcontent] at h
  | some text =>
    have htext := hsize text rfl
    simp only [ImageDraft.sourceStream, ByteArray.append_assoc, Bytes.uint32s_cons,
      Bytes.uint32s_nil, ByteArray.append_empty] at hcontent
    have hend : 0 + language.bytes.size + vendor.bytes.size + documentType.bytes.size
        ≠ content.size := by
      rw [← hcontent]
      simp only [ByteArray.size_append, hguid]
      omega
    have h : ReadsIn content file.readStream 0 (language.bytes ++ (vendor.bytes
        ++ (documentType.bytes ++ (Guid.nil.bytes ++ (Bytes.uint32 0
        ++ (Bytes.uint32 (UInt32.ofNat text.size) ++ text))))))
        (file.withStream language vendor documentType (some text)) := by
      refine .bind (Reads.guid _ content) fun _ => .bind (Reads.guid _ content) fun _ => ?_
      refine .bind (Reads.guid _ content) fun _ => .position (.size ?_)
      dsimp only
      rw [if_neg hend]
      refine .bind (Reads.guid _ content) fun _ => ?_
      refine .bind (Reads.readSize (Nat.two_pow_pos 31) content) fun _ => ?_
      refine .bind (Reads.readSize htext content) fun _ => ?_
      refine .empty_bind (Reads.bytes rfl content) ?_
      by_cases hempty : text.size = 0
      · obtain rfl : text = .empty := ByteArray.size_eq_zero_iff.mp hempty
        rw [if_pos hempty]
        exact .empty_bind (Reads.pure _ content) (Reads.pure _ content)
      · have hfound : (some text).filter (0 < ·.size) = some text := by
          simp [Option.filter, Nat.pos_of_ne_zero hempty]
        rw [if_neg hempty, withStream, hfound]
        exact .bind_empty (Reads.map some (Reads.bytes rfl) content) (Reads.pure _ content)
    rwa [hcontent] at h

/-- The stream about a file is read back. -/
theorem readStream_sourceStream (file : SourceFile) (language vendor documentType : Guid)
    {source : Option ByteArray} (hsize : ∀ text ∈ source, text.size < 2 ^ 31) :
    file.readStream.run (ImageDraft.sourceStream language vendor documentType source)
      = .ok (file.withStream language vendor documentType source) := by
  rw [Reader.run_eq_ok_iff]
  exact ⟨_, readsIn_sourceStream file language vendor documentType hsize (.self _)⟩

end SourceFile

end ManagedPdb
