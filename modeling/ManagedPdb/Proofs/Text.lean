import ManagedPdb.Proofs.Reads

/-!
# Text that was written

The three forms of text are read back as they were written.  UTF-8 and UTF-16 in front of a zero
need that the text has no zero character: no other character has a zero byte
(`ne_zero_of_getElem_toUTF8`) or a zero unit (`Utf16.ne_zero_of_mem_encode`) in its code.
-/

namespace ManagedPdb

/-- The text has no zero character, so that a zero can end it. -/
def ZeroFree (text : String) : Prop := '\x00' ∉ text.toList

instance (text : String) : Decidable (ZeroFree text) := inferInstanceAs (Decidable (_ ∉ _))

theorem toNat_ne_zero_of_zeroFree {text : String} (htext : ZeroFree text) {char : Char}
    (hchar : char ∈ text.toList) : char.toNat ≠ 0 := by
  intro hzero
  have heq : char = '\x00' := Char.toNat_inj.mp hzero
  exact htext (heq ▸ hchar)

/-! ### UTF-8 -/

theorem uint8_ofNat_ne_zero {number : Nat} (hpos : 0 < number) (hlt : number < 256) :
    UInt8.ofNat number ≠ 0 := by
  intro hzero
  have hnumber := congrArg UInt8.toNat hzero
  rw [UInt8.toNat_ofNat', UInt8.toNat_zero] at hnumber
  omega

/-- No character but the zero character has a zero byte: a short code is the character itself, and
the bytes of a longer one have their top bit set. -/
theorem ne_zero_of_mem_utf8EncodeChar {char : Char} (hchar : char.toNat ≠ 0) :
    ∀ byte ∈ String.utf8EncodeChar char, byte ≠ 0 := by
  have hvalue : char.val.toNat ≠ 0 := hchar
  unfold String.utf8EncodeChar
  dsimp only
  -- codes of one to four bytes
  split
  · simp only [List.forall_mem_singleton]
    exact uint8_ofNat_ne_zero (by omega) (by omega)
  split
  · simp only [List.forall_mem_cons]
    refine ⟨?_, ?_, nofun⟩ <;> exact uint8_ofNat_ne_zero (by omega) (by omega)
  split
  · simp only [List.forall_mem_cons]
    refine ⟨?_, ?_, ?_, nofun⟩ <;> exact uint8_ofNat_ne_zero (by omega) (by omega)
  · simp only [List.forall_mem_cons]
    refine ⟨?_, ?_, ?_, ?_, nofun⟩ <;> exact uint8_ofNat_ne_zero (by omega) (by omega)

theorem toUTF8_eq (text : String) :
    text.toUTF8 = (text.toList.flatMap String.utf8EncodeChar).toByteArray := by
  conv_lhs => rw [← String.ofList_toList (s := text)]
  rfl

theorem ne_zero_of_getElem_toUTF8 {text : String} (htext : ZeroFree text) {index : Nat}
    (hindex : index < text.toUTF8.size) : text.toUTF8[index] ≠ 0 := by
  have hmem : text.toUTF8[index] ∈ text.toList.flatMap String.utf8EncodeChar := by
    simp only [toUTF8_eq, List.getElem_toByteArray, List.getElem_mem]
  obtain ⟨char, hchar, hbyte⟩ := List.mem_flatMap.mp hmem
  exact ne_zero_of_mem_utf8EncodeChar (toNat_ne_zero_of_zeroFree htext hchar) _ hbyte

theorem fromUTF8?_toUTF8 (text : String) : String.fromUTF8? text.toUTF8 = some text := by
  simp only [String.fromUTF8?, String.toUTF8_eq_toByteArray, dif_pos text.isValidUTF8]
  rfl

/-! ### UTF-16 -/

namespace Utf16

theorem decodeOnto_single {unit : UInt16} (hleading : isLeading unit = false)
    (htrailing : isTrailing unit = false) (before : List Char) (rest : List UInt16) :
    decodeOnto before (unit :: rest) = decodeOnto (Char.ofNat unit.toNat :: before) rest := by
  rw [decodeOnto.eq_def]
  simp only [hleading, htrailing, Bool.false_eq_true, if_false]

theorem decodeOnto_pair {leading trailing : UInt16} (hleading : isLeading leading = true)
    (htrailing : isTrailing trailing = true) (before : List Char) (rest : List UInt16) :
    decodeOnto before (leading :: trailing :: rest)
      = decodeOnto (join leading trailing :: before) rest := by
  rw [decodeOnto.eq_def]
  simp only [hleading, htrailing, if_true]

/-- The units of a character are decoded as that character, whatever follows them. -/
theorem decodeOnto_units (char : Char) (before : List Char) (rest : List UInt16) :
    decodeOnto before (units char ++ rest) = decodeOnto (char :: before) rest := by
  have hvalid : char.toNat < 0xd800 ∨ 0xdfff < char.toNat ∧ char.toNat < 0x110000 := char.valid
  unfold units
  by_cases hsmall : char.toNat < 0x10000
  · have hunit : (UInt16.ofNat char.toNat).toNat = char.toNat := by
      rw [UInt16.toNat_ofNat', Nat.mod_eq_of_lt hsmall]
    have hleading : isLeading (UInt16.ofNat char.toNat) = false := by
      simp only [isLeading, UInt16.le_iff_toNat_le, UInt16.lt_iff_toNat_lt, UInt16.reduceToNat,
        hunit, Bool.and_eq_false_imp, decide_eq_true_eq, decide_eq_false_iff_not, not_lt]
      omega
    have htrailing : isTrailing (UInt16.ofNat char.toNat) = false := by
      simp only [isTrailing, UInt16.le_iff_toNat_le, UInt16.lt_iff_toNat_lt, UInt16.reduceToNat,
        hunit, Bool.and_eq_false_imp, decide_eq_true_eq, decide_eq_false_iff_not, not_lt]
      omega
    rw [if_pos hsmall, List.singleton_append, decodeOnto_single hleading htrailing, hunit,
      Char.ofNat_toNat]
  · rw [if_neg hsmall]
    dsimp only
    -- above the first plane, ten bits of the distance go into each unit of the pair
    generalize hdistance : char.toNat - 0x10000 = distance
    have hhigh : (UInt16.ofNat (0xd800 + distance / 0x400)).toNat = 0xd800 + distance / 0x400 := by
      rw [UInt16.toNat_ofNat', Nat.mod_eq_of_lt (by omega)]
    have hlow : (UInt16.ofNat (0xdc00 + distance % 0x400)).toNat = 0xdc00 + distance % 0x400 := by
      rw [UInt16.toNat_ofNat', Nat.mod_eq_of_lt (by omega)]
    have hleading : isLeading (UInt16.ofNat (0xd800 + distance / 0x400)) = true := by
      simp only [isLeading, UInt16.le_iff_toNat_le, UInt16.lt_iff_toNat_lt, hhigh,
        Bool.and_eq_true, decide_eq_true_eq, UInt16.reduceToNat]
      omega
    have htrailing : isTrailing (UInt16.ofNat (0xdc00 + distance % 0x400)) = true := by
      simp only [isTrailing, UInt16.le_iff_toNat_le, UInt16.lt_iff_toNat_lt, hlow,
        Bool.and_eq_true, decide_eq_true_eq, UInt16.reduceToNat]
      omega
    have hnumber : 0x10000 + (0xd800 + distance / 0x400 - 0xd800) * 0x400
        + (0xdc00 + distance % 0x400 - 0xdc00) = char.toNat := by omega
    rw [List.cons_append, List.singleton_append, decodeOnto_pair hleading htrailing, join, hhigh,
      hlow, hnumber, Char.ofNat_toNat]

theorem decode_encode (text : String) : decode (encode text) = some text := by
  have hchars (before chars : List Char) :
      decodeOnto before (chars.flatMap units) = some (before.reverse ++ chars) := by
    induction chars generalizing before with
    | nil => simp [decodeOnto]
    | cons char chars ih => rw [List.flatMap_cons, decodeOnto_units, ih]; simp
  rw [decode, encode, hchars]
  simp

/-- No character but the zero character has a zero unit. -/
theorem ne_zero_of_mem_encode {text : String} (htext : ZeroFree text) :
    ∀ unit ∈ encode text, unit ≠ 0 := by
  intro unit hunit hzero
  obtain ⟨char, hchar, hunits⟩ := List.mem_flatMap.mp hunit
  have hvalid : char.toNat < 0xd800 ∨ 0xdfff < char.toNat ∧ char.toNat < 0x110000 := char.valid
  have hpos := toNat_ne_zero_of_zeroFree htext hchar
  have hvalue : ∀ {number : Nat}, unit = UInt16.ofNat number → number % 65536 = 0 := by
    intro number hnumber
    rw [hzero] at hnumber
    simpa using (congrArg UInt16.toNat hnumber).symm
  unfold units at hunits
  split at hunits
  · have := hvalue (List.mem_singleton.mp hunits)
    omega
  · simp only [List.mem_cons, List.not_mem_nil, or_false] at hunits
    rcases hunits with hunits | hunits
    · have := hvalue hunits
      omega
    · have := hvalue hunits
      omega

end Utf16

/-! ### Readers -/

namespace Reads

variable {start : Nat}

theorem utf8 (text : String) (offset : Nat) :
    Reads (Reader.utf8 text.toUTF8 offset) start .empty text := by
  rw [Reader.utf8, fromUTF8?_toUTF8]
  exact .pure text

/-- Without a zero byte in front of it, a zero byte is the next one. -/
theorem zeroFrom_eq_some {content : ByteArray} {index stop : Nat} (hle : index ≤ stop)
    (hstop : stop < content.size) (hbytes : ∀ i, index ≤ i → i < stop → byteAt content i ≠ 0)
    (hzero : byteAt content stop = 0) : Reader.zeroFrom content index = some stop := by
  induction hdistance : stop - index generalizing index with
  | zero =>
    obtain rfl : index = stop := by omega
    rw [byteAt, dif_pos hstop] at hzero
    rw [Reader.zeroFrom, dif_pos hstop, if_pos hzero]
  | succ distance ih =>
    have hindex := hbytes index (Nat.le_refl _) (by omega)
    rw [byteAt, dif_pos (by omega)] at hindex
    rw [Reader.zeroFrom, dif_pos (by omega), if_neg hindex]
    exact ih (by omega) (fun i hi => hbytes i (by omega)) (by omega)

theorem terminatedBytes {bytes : ByteArray}
    (hbytes : ∀ index, (hindex : index < bytes.size) → bytes[index] ≠ 0) :
    Reads Reader.terminatedBytes start (bytes ++ Bytes.uint8 0) bytes := by
  intro content hcontent
  have hle := hcontent.le_size
  rw [ByteArray.size_append, Bytes.size_uint8] at hle
  have hstop : byteAt content (start + bytes.size) = 0 :=
    hcontent.append_right.byteAt_eq (show 0 < (Bytes.uint8 0).size by simp)
  have hfirst : Reader.zeroFrom content start = some (start + bytes.size) := by
    refine zeroFrom_eq_some (Nat.le_add_right _ _) (by omega) ?_ hstop
    -- the bytes in front of the zero byte are those of the text
    intro index hstart hindex
    have hbyte := hcontent.append_left.byteAt_eq (show index - start < bytes.size by omega)
    rw [Nat.add_sub_cancel' hstart] at hbyte
    rw [hbyte]
    exact hbytes _ _
  rw [Reader.terminatedBytes, hfirst]
  simp only [hcontent.append_left.extract_eq, ByteArray.size_append, Bytes.size_uint8,
    Nat.add_assoc]

protected theorem terminatedString {text : String} (htext : ZeroFree text) :
    Reads Reader.terminatedString start (Bytes.terminated text) text :=
  .position (.bind_empty
    (terminatedBytes fun _ hindex => ne_zero_of_getElem_toUTF8 htext hindex)
    (utf8 text start))

/-- Text that fits into its length. -/
protected theorem countedString {text : String} (htext : text.toUTF8.size < 65536) :
    Reads Reader.countedString start
      (Bytes.uint16 (UInt16.ofNat text.toUTF8.size) ++ text.toUTF8) text := by
  have hlength : text.toUTF8.size = (UInt16.ofNat text.toUTF8.size).toNat := by
    rw [UInt16.toNat_ofNat', Nat.mod_eq_of_lt htext]
  exact .bind (.uint16 _) (.position (.bind_empty (.bytes hlength.symm) (utf8 text _)))

theorem addUnit {unit : UInt16} (hunit : unit ≠ 0) (before : Array UInt16) :
    Reads (Reader.addUnit before) start (Bytes.uint16 unit) (.inl (before.push unit)) := by
  refine .bind_empty (.uint16 unit) ?_
  rw [if_neg hunit]
  exact .pure _

theorem addUnit_zero (before : Array UInt16) :
    Reads (Reader.addUnit before) start (Bytes.uint16 0) (.inr before) := by
  refine .bind_empty (.uint16 0) ?_
  rw [if_pos rfl]
  exact .pure _

/-- The loop over units puts them behind those found before. -/
theorem iterate_addUnit {units : List UInt16} (hunits : ∀ unit ∈ units, unit ≠ 0)
    (before : Array UInt16) :
    Reads (Reader.iterate Reader.addUnit before) start
      (Bytes.concat ((units ++ [0]).map Bytes.uint16)) (before ++ units.toArray) := by
  induction units generalizing start before with
  | nil =>
    rw [List.nil_append, List.map_singleton, Bytes.concat_cons, Bytes.concat_nil,
      ByteArray.append_empty, Array.append_empty]
    exact iterate_done (addUnit_zero before)
  | cons unit rest ih =>
    obtain ⟨hunit, hrest⟩ := List.forall_mem_cons.mp hunits
    rw [List.cons_append, List.map_cons, Bytes.concat_cons,
      show before ++ (unit :: rest).toArray = before.push unit ++ rest.toArray by simp]
    exact iterate_step (addUnit hunit before) (by simp) (ih hrest _)

protected theorem utf16String {text : String} (htext : ZeroFree text) :
    Reads Reader.utf16String start (Utf16.terminated text) text := by
  refine .position (.bind_empty (iterate_addUnit (Utf16.ne_zero_of_mem_encode htext) #[]) ?_)
  simp only [Array.empty_append, Utf16.decode_encode]
  exact .pure text

end Reads

end ManagedPdb
