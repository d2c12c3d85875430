import ManagedPdb.Proofs.Pieces
import ManagedPdb.Proofs.Terminated
import ManagedPdb.Proofs.Text.WellFormed

/-!
# How a text is read

A reader of text first finds the bytes or units of the text, which may be cut off by the end of the
content, and then makes text of them, which may not be well formed.  For each of the three forms
there is a lemma about what can be there (`terminated_or_not`, `counted_or_short`, `units_or_short`)
and one about the reader for each of the cases.
-/

namespace ManagedPdb

/-- Text behind the 16-bit number of its bytes. -/
def Utf8.counted (text : String) : ByteArray :=
  Bytes.uint16 (UInt16.ofNat text.toUTF8.size) ++ text.toUTF8

/-- Units one after the other. -/
def Utf16.bytes (codes : List UInt16) : ByteArray := Bytes.concat (codes.map Bytes.uint16)

variable {content : ByteArray} {position stop : Nat}

/-! ### Bytes and units -/

theorem Utf16.size_bytes (codes : List UInt16) : (bytes codes).size = 2 * codes.length := by
  have hsizes : ∀ piece ∈ codes.map Bytes.uint16, piece.size = 2 := by
    simp only [List.forall_mem_map, Bytes.size_uint16, implies_true]
  rw [bytes, Bytes.size_concat_of_size hsizes, List.length_map, Nat.mul_comm]

theorem Utf16.bytes_cons (unit : UInt16) (codes : List UInt16) :
    bytes (unit :: codes) = Bytes.uint16 unit ++ bytes codes := by
  rw [bytes, List.map_cons, Bytes.concat_cons]
  rfl

theorem mem_toList_iff {byte : UInt8} {bytes : ByteArray} :
    byte ∈ bytes.data.toList ↔ ∃ index, ∃ h : index < bytes.size, bytes[index] = byte := by
  rw [Array.mem_toList_iff, Array.mem_iff_getElem]
  rfl

theorem getElem_ne_zero {bytes : ByteArray} (hbytes : 0 ∉ bytes.data.toList) (index : Nat)
    (hindex : index < bytes.size) : bytes[index] ≠ 0 :=
  fun hzero => hbytes (mem_toList_iff.mpr ⟨index, hindex, hzero⟩)

/-- A part of the content without a zero byte. -/
theorem zero_notMem_extract {start : Nat}
    (h : ∀ index, start ≤ index → index < stop → index < content.size → byteAt content index ≠ 0) :
    0 ∉ (content.extract start stop).data.toList := by
  intro hmem
  obtain ⟨index, hindex, hzero⟩ := mem_toList_iff.mp hmem
  have hsize := hindex
  rw [ByteArray.size_extract] at hsize
  rw [ByteArray.getElem_extract] at hzero
  refine h (start + index) (Nat.le_add_right _ _) (by omega) (by omega) ?_
  rw [byteAt, dif_pos (by omega), hzero]

/-- The zero character is a zero byte. -/
theorem zeroFree_of_zero_notMem_toUTF8 {text : String} (h : 0 ∉ text.toUTF8.data.toList) :
    ZeroFree text := by
  intro hmem
  refine h ?_
  rw [toUTF8_eq, List.data_toByteArray]
  exact List.mem_flatMap.mpr ⟨'\x00', hmem, by decide⟩

theorem Utf16.zeroFree_of_zero_notMem_encode {text : String} (h : 0 ∉ encode text) :
    ZeroFree text :=
  fun hmem => h (List.mem_flatMap.mpr ⟨'\x00', hmem, by decide⟩)

/-! ### UTF-8 -/

theorem fromUTF8?_eq_some_iff {bytes : ByteArray} {text : String} :
    String.fromUTF8? bytes = some text ↔ bytes = text.toUTF8 := by
  constructor
  · intro h
    rw [String.fromUTF8?] at h
    split at h <;> cases h
    rfl
  · rintro rfl
    exact fromUTF8?_toUTF8 text

theorem fromUTF8?_eq_none_iff {bytes : ByteArray} :
    String.fromUTF8? bytes = none ↔ ¬ Utf8.WellFormed bytes.data.toList := by
  rw [Utf8.wellFormed_iff, Bytes.toByteArray_toList, ← not_iff_not, not_not, ← ne_eq,
    Option.ne_none_iff_exists']
  simp only [fromUTF8?_eq_some_iff, @eq_comm _ bytes]

namespace Reader

variable {α β : Type}

theorem bind_of_done {reader : Reader β} {next : β → Reader α} {value : β}
    (h : reader content position = .done value stop) :
    (reader >>= next) content position = next value content stop := by
  rw [bind_apply, h]

theorem bind_of_failed {reader : Reader β} {next : β → Reader α} {error : DecodeError}
    (h : reader content position = .failed error stop) :
    (reader >>= next) content position = .failed error stop := by
  rw [bind_apply, h]

theorem utf8_eq_done_iff {bytes : ByteArray} {offset : Nat} {text : String} :
    utf8 bytes offset content position = .done text stop ↔
      bytes = text.toUTF8 ∧ stop = position := by
  rw [← fromUTF8?_eq_some_iff, utf8]
  cases String.fromUTF8? bytes with
  | some found => simp [eq_comm]
  | none => simp [failAt, fail]

theorem utf8_of_not_wellFormed {bytes : ByteArray} (offset : Nat)
    (h : ¬ Utf8.WellFormed bytes.data.toList) :
    utf8 bytes offset content position = .failed (.ofKindAt .invalidString offset) position := by
  rw [utf8, fromUTF8?_eq_none_iff.mpr h]
  rfl

/-! ### Text in front of a zero byte -/

theorem byteAt_ne_zero_of_zeroFrom_eq_none (h : zeroFrom content position = none) :
    ∀ index, position ≤ index → index < content.size → byteAt content index ≠ 0 := by
  fun_induction zeroFrom content position with
  | case1 => cases h
  | case2 position hlt hnonzero ih =>
    intro index hindex hinside
    rcases Nat.eq_or_lt_of_le hindex with rfl | hlater
    · rw [byteAt, dif_pos hlt]
      exact hnonzero
    · exact ih h index hlater hinside
  | case3 => intros; omega

/-- Either there are bytes in front of a zero byte, or none of the bytes that are left is zero. -/
theorem terminated_or_not (content : ByteArray) (position : Nat) :
    (∃ bytes, 0 ∉ bytes.data.toList ∧ StandsAt (bytes ++ Bytes.uint8 0) content position) ∨
      0 ∉ (content.extract position content.size).data.toList := by
  cases hzero : zeroFrom content position with
  | none =>
    exact .inr (zero_notMem_extract fun index hindex _ =>
      byteAt_ne_zero_of_zeroFrom_eq_none hzero index hindex)
  | some last =>
    obtain ⟨hle, hinside, hbyte, hbefore⟩ := of_zeroFrom_eq_some hzero
    have hlast : StandsAt (content.extract last (last + 1)) content last :=
      .extract (Nat.le_succ last) hinside
    obtain ⟨value, hvalue⟩ := Bytes.exists_uint8
      ((size_extract_of_le hinside).trans (Nat.add_sub_cancel_left last 1))
    rw [hvalue] at hlast
    obtain rfl : value = 0 := by rw [← Bytes.byteAt_of_standsAt hlast, hbyte]
    have hfront : StandsAt (content.extract position last) content position :=
      .extract hle (Nat.le_of_lt hinside)
    have hsize : (content.extract position last).size = last - position :=
      size_extract_of_le (Nat.le_of_lt hinside)
    refine .inl ⟨content.extract position last, ?_, ?_⟩
    · exact zero_notMem_extract fun index hindex hlt _ => hbefore index hindex hlt
    · exact hfront.append (by rwa [hsize, Nat.add_sub_cancel' hle])

theorem terminatedBytes_of_standsAt {bytes : ByteArray} (hbytes : 0 ∉ bytes.data.toList)
    (hpiece : StandsAt (bytes ++ Bytes.uint8 0) content position) :
    terminatedBytes content position = .done bytes (position + (bytes.size + 1)) := by
  rw [Reads.terminatedBytes (getElem_ne_zero hbytes) content hpiece, ByteArray.size_append,
    Bytes.size_uint8]

theorem terminatedBytes_of_zero_notMem
    (h : 0 ∉ (content.extract position content.size).data.toList) :
    terminatedBytes content position = .failed (.ofKindAt .unexpectedEnd position) position := by
  rw [terminatedBytes]
  cases hzero : zeroFrom content position with
  | none => rfl
  | some last =>
    obtain ⟨hle, hinside, hbyte, -⟩ := of_zeroFrom_eq_some hzero
    rw [byteAt, dif_pos hinside] at hbyte
    refine absurd (mem_toList_iff.mpr ⟨last - position, ?_, ?_⟩) h
    · rw [size_extract_of_le (Nat.le_refl _)]
      omega
    · rw [ByteArray.getElem_extract, ← hbyte]
      congr 1
      exact Nat.add_sub_cancel' hle

/-- The text in front of the next zero byte is read by itself. -/
theorem terminatedString_of_done {bytes : ByteArray}
    (h : terminatedBytes content position = .done bytes stop) :
    terminatedString content position = utf8 bytes position content stop :=
  (bind_of_done position_apply).trans (bind_of_done h)

theorem terminatedString_of_failed {error : DecodeError}
    (h : terminatedBytes content position = .failed error stop) :
    terminatedString content position = .failed error stop :=
  (bind_of_done position_apply).trans (bind_of_failed h)

/-! ### Text behind its length -/

theorem exists_uint16_of_le (hle : position + 2 ≤ content.size) :
    ∃ value, StandsAt (Bytes.uint16 value) content position := by
  have hpiece : StandsAt (content.extract position (position + 2)) content position :=
    .extract (Nat.le_add_right _ _) hle
  obtain ⟨value, hvalue⟩ := Bytes.exists_uint16
    ((size_extract_of_le hle).trans (Nat.add_sub_cancel_left position 2))
  exact ⟨value, hvalue ▸ hpiece⟩

theorem uint16_of_lt (hlt : content.size < position + 2) :
    uint16 content position = .failed (.ofKindAt .unexpectedEnd position) position := by
  rw [uint16, bind_apply, word, if_neg (Nat.not_le.mpr hlt)]

/-- Either there are as many bytes as the number says, or the number or the bytes are cut off. -/
theorem counted_or_short (content : ByteArray) (position : Nat) :
    (∃ (length : UInt16) (bytes : ByteArray), bytes.size = length.toNat ∧
      StandsAt (Bytes.uint16 length ++ bytes) content position) ∨
    content.size < position + 2 ∨
    ∃ length : UInt16, StandsAt (Bytes.uint16 length) content position ∧
      content.size < position + 2 + length.toNat := by
  rcases Nat.lt_or_ge content.size (position + 2) with hlt | hle
  · exact .inr (.inl hlt)
  obtain ⟨length, hlength⟩ := exists_uint16_of_le hle
  rcases Nat.lt_or_ge content.size (position + 2 + length.toNat) with hlt | hle
  · exact .inr (.inr ⟨length, hlength, hlt⟩)
  · have hbytes : StandsAt (content.extract (position + 2) (position + 2 + length.toNat)) content
        (position + (Bytes.uint16 length).size) := by
      rw [Bytes.size_uint16]
      exact .extract (Nat.le_add_right _ _) hle
    have hsize := (size_extract_of_le hle).trans (Nat.add_sub_cancel_left (position + 2) _)
    exact .inl ⟨length, _, hsize, hlength.append hbytes⟩

/-- Behind the number, what is left is to read the bytes. -/
theorem countedString_of_length {length : UInt16}
    (hlength : StandsAt (Bytes.uint16 length) content position) :
    countedString content position
      = (bytes length.toNat >>= fun bytes => utf8 bytes (position + 2)) content (position + 2) :=
  bind_of_done (Reads.uint16 length content hlength)

/-- The text of as many bytes as the number says is read by itself. -/
theorem countedString_of_standsAt {length : UInt16} {bytes : ByteArray}
    (hsize : bytes.size = length.toNat)
    (hpiece : StandsAt (Bytes.uint16 length ++ bytes) content position) :
    countedString content position
      = utf8 bytes (position + 2) content (position + 2 + bytes.size) :=
  (countedString_of_length hpiece.append_left).trans
    (bind_of_done (Reads.bytes hsize.symm content hpiece.append_right))

theorem countedString_of_length_lt (hlt : content.size < position + 2) :
    countedString content position = .failed (.ofKindAt .unexpectedEnd position) position :=
  bind_of_failed (uint16_of_lt hlt)

theorem countedString_of_bytes_lt {length : UInt16}
    (hlength : StandsAt (Bytes.uint16 length) content position)
    (hlt : content.size < position + 2 + length.toNat) :
    countedString content position
      = .failed (.ofKindAt .unexpectedEnd (position + 2)) (position + 2) := by
  rw [countedString_of_length hlength]
  refine bind_of_failed ?_
  rw [bytes, skip, if_neg (Nat.not_le.mpr hlt)]

/-! ### Text in front of a zero unit -/

/-- Either there are units in front of a zero unit, or none of the units that are left is zero, and
fewer than two bytes are behind them. -/
theorem units_or_short (content : ByteArray) (position : Nat) :
    (∃ codes : List UInt16, 0 ∉ codes ∧
      StandsAt (Utf16.bytes (codes ++ [0])) content position) ∨
    ∃ codes : List UInt16, 0 ∉ codes ∧
      content.extract position (position + 2 * codes.length) = Utf16.bytes codes ∧
      content.size < position + 2 * codes.length + 2 := by
  induction hleft : content.size - position using Nat.strongRecOn generalizing position with
  | ind left ih =>
    subst hleft
    rcases Nat.lt_or_ge content.size (position + 2) with hlt | hle
    · exact .inr ⟨[], List.not_mem_nil, ByteArray.extract_eq_empty_iff.mpr (Nat.min_le_left _ _),
        hlt⟩
    obtain ⟨unit, hunit⟩ := exists_uint16_of_le hle
    by_cases hzero : unit = 0
    · -- the zero unit ends the text
      subst hzero
      refine .inl ⟨[], List.not_mem_nil, ?_⟩
      rwa [List.nil_append, Utf16.bytes_cons, Utf16.bytes, List.map_nil, Bytes.concat_nil,
        ByteArray.append_empty]
    · have hmem : ∀ {codes : List UInt16}, 0 ∉ codes → 0 ∉ unit :: codes := by
        intro codes hcodes
        rw [List.mem_cons, not_or]
        exact ⟨Ne.symm hzero, hcodes⟩
      rcases ih (content.size - (position + 2)) (by omega) (position + 2) rfl with
        ⟨codes, hcodes, hpiece⟩ | ⟨codes, hcodes, hpiece, hlt⟩
      · refine .inl ⟨unit :: codes, hmem hcodes, ?_⟩
        rw [List.cons_append, Utf16.bytes_cons]
        exact hunit.append (by rwa [Bytes.size_uint16])
      · have hstop : position + 2 * (unit :: codes).length = position + 2 + 2 * codes.length := by
          rw [List.length_cons]
          omega
        have hfirst := hunit.extract_eq
        rw [Bytes.size_uint16] at hfirst
        refine .inr ⟨unit :: codes, hmem hcodes, ?_, by omega⟩
        rw [Utf16.bytes_cons, ← hfirst, ← hpiece, ByteArray.extract_append_extract, hstop,
          Nat.min_eq_left (Nat.le_add_right _ _), Nat.max_eq_right (Nat.le_add_right _ _)]

theorem terminatedUnits_of_standsAt {codes : List UInt16} (hcodes : 0 ∉ codes)
    (hpiece : StandsAt (Utf16.bytes (codes ++ [0])) content position) :
    terminatedUnits content position
      = .done codes.toArray (position + 2 * (codes.length + 1)) := by
  have hnonzero : ∀ unit ∈ codes, unit ≠ 0 := by
    intro unit hunit hzero
    exact hcodes (hzero ▸ hunit)
  have hsize := Utf16.size_bytes (codes ++ [0])
  rw [List.length_append, List.length_singleton] at hsize
  rw [← hsize, ← @Array.empty_append _ codes.toArray]
  exact Reads.iterate_addUnit hnonzero #[] content hpiece

/-- Units without a zero unit behind them are read to the end. -/
theorem iterate_addUnit_of_lt {codes : List UInt16} (before : Array UInt16) (hcodes : 0 ∉ codes)
    (hpiece : content.extract position (position + 2 * codes.length) = Utf16.bytes codes)
    (hlt : content.size < position + 2 * codes.length + 2) :
    iterate addUnit before content position
      = .failed (.ofKindAt .unexpectedEnd (position + 2 * codes.length))
          (position + 2 * codes.length) := by
  induction codes generalizing before position with
  | nil =>
    rw [List.length_nil, Nat.mul_zero, Nat.add_zero] at hlt ⊢
    refine iterate_of_failed ?_
    rw [addUnit, bind_apply, uint16_of_lt hlt]
  | cons unit codes ih =>
    have hstop : position + 2 + 2 * codes.length = position + 2 * (codes.length + 1) := by omega
    obtain ⟨hunit, hcodes⟩ := not_or.mp (List.mem_cons.not.mp hcodes)
    have hsize := congrArg ByteArray.size hpiece
    rw [ByteArray.size_extract, Utf16.size_bytes, List.length_cons] at hsize
    have hstands : StandsAt (Utf16.bytes (unit :: codes)) content position := by
      rw [← hpiece]
      exact .extract (Nat.le_add_right _ _) (by rw [List.length_cons]; omega)
    rw [Utf16.bytes_cons] at hstands
    have hrest := hstands.append_right.extract_eq
    rw [Bytes.size_uint16, Utf16.size_bytes] at hrest
    rw [List.length_cons] at hlt ⊢
    rw [iterate_of_step (Reads.addUnit (Ne.symm hunit) before content hstands.append_left) (by simp)
      hstands.append_left.le_size, Bytes.size_uint16, ih (before.push unit) hcodes hrest (by omega),
      hstop]

/-- The text of units is made of all units that were found. -/
theorem utf16String_of_done {units : Array UInt16}
    (h : terminatedUnits content position = .done units stop) :
    utf16String content position = match Utf16.decode units.toList with
      | some text => .done text stop
      | none => .failed (.ofKindAt .invalidString position) stop := by
  refine (bind_of_done position_apply).trans ((bind_of_done h).trans ?_)
  cases Utf16.decode units.toList <;> rfl

theorem utf16String_of_failed {error : DecodeError}
    (h : terminatedUnits content position = .failed error stop) :
    utf16String content position = .failed error stop :=
  (bind_of_done position_apply).trans (bind_of_failed h)

end Reader

end ManagedPdb
