import ManagedPdb.Proofs.Text.Fields

/-!
# The three forms of text are exact

Each text has one written form, and the reader gives it for that form only (`IsCodec`).  Bytes or
units that are all there but not well formed are refused at the first of them, and which these are
is said by the mistakes in them (`Utf8.Defective`, `Utf16.Unpaired`).  The main statement is
`Reader.text_exact`.
-/

namespace ManagedPdb

/-- What is read is what was written: the reader gives a text wherever its written form stands, and
stops right behind it; and what the reader moves over when it gives a text is the written form of
that text, so that no other bytes are read as the same text. -/
structure IsCodec (reader : Reader String) (Storable : String → Prop)
    (stored : String → ByteArray) : Prop where
  written : ∀ text before after, Storable text →
    reader (before ++ stored text ++ after) before.size
      = .done text (before.size + (stored text).size)
  consumed : ∀ content position text stop, reader content position = .done text stop →
    Storable text ∧ stop = position + (stored text).size ∧ stop ≤ content.size ∧
      content.extract position stop = stored text
  injective : ∀ content content' position position' text stop stop',
    reader content position = .done text stop → reader content' position' = .done text stop' →
      content.extract position stop = content'.extract position' stop'

/-- A codec by what is read and what has been read. -/
theorem IsCodec.of_done {reader : Reader String} {Storable : String → Prop}
    {stored : String → ByteArray}
    (hread : ∀ {text start}, Storable text → Reads reader start (stored text) text)
    (hdone : ∀ {content position text stop}, reader content position = .done text stop →
      Storable text ∧ StandsAt (stored text) content position) :
    IsCodec reader Storable stored := by
  have hconsumed : ∀ content position text stop, reader content position = .done text stop →
      Storable text ∧ stop = position + (stored text).size ∧ stop ≤ content.size ∧
        content.extract position stop = stored text := by
    intro content position text stop h
    obtain ⟨htext, hpiece⟩ := hdone h
    rw [hread htext content hpiece] at h
    cases h
    exact ⟨htext, rfl, hpiece.le_size, hpiece.extract_eq⟩
  constructor
  case written =>
    intro text before after htext
    exact hread htext _ ⟨before, after, rfl, rfl⟩
  case consumed => exact hconsumed
  case injective =>
    intro content content' position position' text stop stop' h h'
    rw [(hconsumed _ _ _ _ h).2.2.2, (hconsumed _ _ _ _ h').2.2.2]

namespace Reader

variable {content : ByteArray} {position stop : Nat} {text : String}

theorem of_terminatedString_eq_done (h : terminatedString content position = .done text stop) :
    ZeroFree text ∧ StandsAt (Bytes.terminated text) content position := by
  rcases terminated_or_not content position with ⟨bytes, hbytes, hpiece⟩ | hzero
  · rw [terminatedString_of_done (terminatedBytes_of_standsAt hbytes hpiece), utf8_eq_done_iff] at h
    obtain ⟨rfl, -⟩ := h
    exact ⟨zeroFree_of_zero_notMem_toUTF8 hbytes, hpiece⟩
  · rw [terminatedString_of_failed (terminatedBytes_of_zero_notMem hzero)] at h
    cases h

theorem of_countedString_eq_done (h : countedString content position = .done text stop) :
    text.toUTF8.size ≤ 65535 ∧ StandsAt (Utf8.counted text) content position := by
  rcases counted_or_short content position with
    ⟨length, bytes, hsize, hpiece⟩ | hlt | ⟨length, hlength, hlt⟩
  · rw [countedString_of_standsAt hsize hpiece, utf8_eq_done_iff] at h
    obtain ⟨rfl, -⟩ := h
    have hlength : length = UInt16.ofNat text.toUTF8.size := by
      rw [hsize, UInt16.ofNat_toNat]
    have hlt := length.toNat_lt
    refine ⟨by omega, ?_⟩
    rwa [Utf8.counted, ← hlength]
  · rw [countedString_of_length_lt hlt] at h
    cases h
  · rw [countedString_of_bytes_lt hlength hlt] at h
    cases h

theorem of_utf16String_eq_done (h : utf16String content position = .done text stop) :
    ZeroFree text ∧ StandsAt (Utf16.terminated text) content position := by
  rcases units_or_short content position with
    ⟨codes, hcodes, hpiece⟩ | ⟨codes, hcodes, hpiece, hlt⟩
  · rw [utf16String_of_done (terminatedUnits_of_standsAt hcodes hpiece), List.toList_toArray] at h
    cases hdecode : Utf16.decode codes with
    | none =>
      rw [hdecode] at h
      cases h
    | some found =>
      rw [hdecode] at h
      cases h
      rw [Utf16.decode_eq_some_iff] at hdecode
      subst hdecode
      exact ⟨Utf16.zeroFree_of_zero_notMem_encode hcodes, hpiece⟩
  · rw [utf16String_of_failed (iterate_addUnit_of_lt #[] hcodes hpiece hlt)] at h
    cases h

/-! ### Refusals -/

theorem utf8_eq_invalidString_iff {bytes : ByteArray} {offset : Nat} :
    utf8 bytes offset content position = .failed (.ofKindAt .invalidString offset) position ↔
      ¬ Utf8.WellFormed bytes.data.toList := by
  constructor
  · intro h hwellFormed
    obtain ⟨text, htext⟩ := Utf8.wellFormed_iff.mp hwellFormed
    rw [Bytes.toByteArray_toList] at htext
    rw [utf8_eq_done_iff.mpr ⟨htext.symm, rfl⟩] at h
    cases h
  · exact utf8_of_not_wellFormed offset

theorem terminatedString_eq_invalidString_iff {bytes : ByteArray} (hbytes : 0 ∉ bytes.data.toList)
    (hpiece : StandsAt (bytes ++ Bytes.uint8 0) content position) :
    terminatedString content position
        = .failed (.ofKindAt .invalidString position) (position + (bytes.size + 1)) ↔
      ¬ Utf8.WellFormed bytes.data.toList := by
  rw [terminatedString_of_done (terminatedBytes_of_standsAt hbytes hpiece),
    utf8_eq_invalidString_iff]

theorem countedString_eq_invalidString_iff {length : UInt16} {bytes : ByteArray}
    (hsize : bytes.size = length.toNat)
    (hpiece : StandsAt (Bytes.uint16 length ++ bytes) content position) :
    countedString content position
        = .failed (.ofKindAt .invalidString (position + 2)) (position + 2 + bytes.size) ↔
      ¬ Utf8.WellFormed bytes.data.toList := by
  rw [countedString_of_standsAt hsize hpiece, utf8_eq_invalidString_iff]

theorem utf16String_eq_invalidString_iff {codes : List UInt16} (hcodes : 0 ∉ codes)
    (hpiece : StandsAt (Utf16.bytes (codes ++ [0])) content position) :
    utf16String content position
        = .failed (.ofKindAt .invalidString position) (position + 2 * (codes.length + 1)) ↔
      ¬ Utf16.WellFormed codes := by
  rw [utf16String_of_done (terminatedUnits_of_standsAt hcodes hpiece), List.toList_toArray,
    ← Utf16.decode_eq_none_iff]
  cases Utf16.decode codes with
  | none => simp
  | some text => simp

/-- The three forms of text are exact: text in front of a zero byte, behind the number of its bytes,
and in front of a zero unit is read back as it was written, and only from the bytes that were
written.  Bytes and units that are all there are refused at the first of them exactly if they are
not well formed, which bytes are by a first mistake among five, and units by one that stands alone.
-/
theorem text_exact :
    IsCodec terminatedString ZeroFree Bytes.terminated ∧
    IsCodec countedString (fun text => text.toUTF8.size ≤ 65535) Utf8.counted ∧
    IsCodec utf16String ZeroFree Utf16.terminated ∧
    (∀ (content : ByteArray) (position : Nat) (bytes : ByteArray), 0 ∉ bytes.data.toList →
      StandsAt (bytes ++ Bytes.uint8 0) content position →
      (terminatedString content position
          = .failed (.ofKindAt .invalidString position) (position + (bytes.size + 1)) ↔
        ¬ Utf8.WellFormed bytes.data.toList)) ∧
    (∀ (content : ByteArray) (position : Nat) (length : UInt16) (bytes : ByteArray),
      bytes.size = length.toNat → StandsAt (Bytes.uint16 length ++ bytes) content position →
      (countedString content position
          = .failed (.ofKindAt .invalidString (position + 2)) (position + 2 + bytes.size) ↔
        ¬ Utf8.WellFormed bytes.data.toList)) ∧
    (∀ (content : ByteArray) (position : Nat) (codes : List UInt16), 0 ∉ codes →
      StandsAt (Utf16.bytes (codes ++ [0])) content position →
      (utf16String content position
          = .failed (.ofKindAt .invalidString position) (position + 2 * (codes.length + 1)) ↔
        ¬ Utf16.WellFormed codes)) ∧
    (∀ bytes, ¬ Utf8.WellFormed bytes ↔ Utf8.Defective bytes) ∧
    ∀ codes, ¬ Utf16.WellFormed codes ↔ Utf16.Unpaired codes := by
  refine ⟨.of_done .terminatedString of_terminatedString_eq_done,
    .of_done (fun htext => .countedString (Nat.lt_succ_of_le htext)) of_countedString_eq_done,
    .of_done .utf16String of_utf16String_eq_done, ?_, ?_, ?_,
    fun _ => Utf8.not_wellFormed_iff, fun _ => Utf16.not_wellFormed_iff⟩
  · intro content position bytes hbytes hpiece
    exact terminatedString_eq_invalidString_iff hbytes hpiece
  · intro content position length bytes hsize hpiece
    exact countedString_eq_invalidString_iff hsize hpiece
  · intro content position codes hcodes hpiece
    exact utf16String_eq_invalidString_iff hcodes hpiece

end Reader

end ManagedPdb
