import ManagedPdb.Proofs.Text
import ManagedPdb.Text.Lossy

/-!
# Well-formed text needs no replacements

Reading the bytes of a text with replacements gives the text back (`Lossy.decode_toUTF8`).  The
code of a character is a first byte, which says how many bytes follow and in which range the next
one lies, and those bytes; each brings six more bits.
-/

namespace ManagedPdb.Lossy

/-! ### Bytes of an array -/

theorem loop_eq (bytes : ByteArray) (index : Nat) (before : List UInt8) :
    ByteArray.toList.loop bytes index before = before.reverse ++ bytes.data.toList.drop index := by
  fun_induction ByteArray.toList.loop bytes index before with
  | case1 index before h ih =>
    have hindex : index < bytes.data.toList.length := h
    have hget : bytes.get! index = bytes.data.toList[index] := getElem!_pos bytes.data index h
    rw [ih, List.reverse_cons, List.append_assoc, List.drop_eq_getElem_cons hindex, hget]
    rfl
  | case2 index before h =>
    rw [List.drop_eq_nil_of_le (Nat.le_of_not_lt h), List.append_nil]

theorem toList_toByteArray (bytes : List UInt8) : bytes.toByteArray.toList = bytes := by
  rw [ByteArray.toList, loop_eq, List.data_toByteArray]
  rfl

/-! ### First bytes -/

theorem lead?_one {number : Nat} (h : number < 0x80) :
    ∃ lead, lead? (UInt8.ofNat number) = some lead ∧ lead.following = 0 ∧ lead.bits = number := by
  have hall : ∀ number ∈ List.range 0x80, ∃ lead ∈ lead? (UInt8.ofNat number),
      lead.following = 0 ∧ lead.bits = number := by decide +kernel
  exact hall number (List.mem_range.mpr h)

theorem lead?_two {number : Nat} (hlow : 0xc2 ≤ number) (hhigh : number < 0xe0) :
    ∃ lead, lead? (UInt8.ofNat number) = some lead ∧ lead.following = 1 ∧
      lead.bits = number - 0xc0 ∧ lead.low.toNat ≤ 0x80 ∧ 0xbf ≤ lead.high.toNat := by
  have hall : ∀ number ∈ List.range' 0xc2 30, ∃ lead ∈ lead? (UInt8.ofNat number),
      lead.following = 1 ∧ lead.bits = number - 0xc0 ∧ lead.low.toNat ≤ 0x80 ∧
      0xbf ≤ lead.high.toNat := by decide
  exact hall number (List.mem_range'_1.mpr (by omega))

/-- The range of the second byte of three keeps out codes that are too long, and surrogates. -/
theorem lead?_three {number : Nat} (hlow : 0xe0 ≤ number) (hhigh : number < 0xf0) :
    ∃ lead, lead? (UInt8.ofNat number) = some lead ∧ lead.following = 2 ∧
      lead.bits = number - 0xe0 ∧
      lead.low.toNat ≤ (if number = 0xe0 then 0xa0 else 0x80) ∧
      (if number = 0xed then 0x9f else 0xbf) ≤ lead.high.toNat := by
  have hall : ∀ number ∈ List.range' 0xe0 16, ∃ lead ∈ lead? (UInt8.ofNat number),
      lead.following = 2 ∧ lead.bits = number - 0xe0 ∧
      lead.low.toNat ≤ (if number = 0xe0 then 0xa0 else 0x80) ∧
      (if number = 0xed then 0x9f else 0xbf) ≤ lead.high.toNat := by decide
  exact hall number (List.mem_range'_1.mpr (by omega))

/-- The range of the second byte of four keeps out codes that are too long, and numbers beyond the
last character. -/
theorem lead?_four {number : Nat} (hlow : 0xf0 ≤ number) (hhigh : number < 0xf5) :
    ∃ lead, lead? (UInt8.ofNat number) = some lead ∧ lead.following = 3 ∧
      lead.bits = number - 0xf0 ∧
      lead.low.toNat ≤ (if number = 0xf0 then 0x90 else 0x80) ∧
      (if number = 0xf4 then 0x8f else 0xbf) ≤ lead.high.toNat := by
  have hall : ∀ number ∈ List.range' 0xf0 5, ∃ lead ∈ lead? (UInt8.ofNat number),
      lead.following = 3 ∧ lead.bits = number - 0xf0 ∧
      lead.low.toNat ≤ (if number = 0xf0 then 0x90 else 0x80) ∧
      (if number = 0xf4 then 0x8f else 0xbf) ≤ lead.high.toNat := by decide
  exact hall number (List.mem_range'_1.mpr (by omega))

/-! ### Characters -/

/-- A byte that follows adds its six bits. -/
theorem complete_cons {low high : UInt8} (number : Nat) (hlow : low.toNat ≤ number % 64 + 128)
    (hhigh : number % 64 + 128 ≤ high.toNat) (bits following : Nat) (rest : List UInt8) :
    complete low high bits (following + 1) (UInt8.ofNat (number % 64 + 128) :: rest)
      = complete 0x80 0xbf (bits * 64 + number % 64) following rest := by
  have hnat : (UInt8.ofNat (number % 64 + 128)).toNat = number % 64 + 128 :=
    UInt8.toNat_ofNat_of_lt' (show number % 64 + 128 < 256 by omega)
  have hrange : (low ≤ UInt8.ofNat (number % 64 + 128)
      && UInt8.ofNat (number % 64 + 128) ≤ high) = true := by
    rw [Bool.and_eq_true, decide_eq_true_iff, decide_eq_true_iff, UInt8.le_iff_toNat_le,
      UInt8.le_iff_toNat_le, hnat]
    exact ⟨hlow, hhigh⟩
  rw [complete, if_pos hrange, hnat, Nat.add_sub_cancel]

/-- The bytes that follow the second one may be any. -/
theorem complete_cons_any (number bits following : Nat) (rest : List UInt8) :
    complete 0x80 0xbf bits (following + 1) (UInt8.ofNat (number % 64 + 128) :: rest)
      = complete 0x80 0xbf (bits * 64 + number % 64) following rest :=
  complete_cons number (show 128 ≤ _ by omega) (show _ ≤ 191 by omega) bits following rest

theorem decodeOnto_cons {byte : UInt8} {lead : Lead} (hlead : lead? byte = some lead)
    {bytes rest : List UInt8} {char : Char}
    (hcomplete : complete lead.low lead.high lead.bits lead.following bytes = (char, rest))
    (before : String) :
    decodeOnto before (byte :: bytes) = decodeOnto (before.push char) rest := by
  rw [decodeOnto]
  simp only [hlead, hcomplete]

/-- The code of a character is read as that character. -/
theorem decodeOnto_utf8EncodeChar (char : Char) (before : String) (rest : List UInt8) :
    decodeOnto before (String.utf8EncodeChar char ++ rest)
      = decodeOnto (before.push char) rest := by
  have hchar : Char.ofNat char.val.toNat = char := Char.ofNat_toNat char
  have hvalid : char.val.toNat < 0xd800 ∨ 0xdfff < char.val.toNat ∧ char.val.toNat < 0x110000 :=
    char.valid
  unfold String.utf8EncodeChar
  generalize char.val.toNat = number at *
  dsimp only
  -- codes of one to four bytes
  split
  · obtain ⟨lead, hlead, hfollowing, hbits⟩ := lead?_one (show number < 0x80 by omega)
    refine decodeOnto_cons hlead ?_ before
    rw [hfollowing, hbits, complete, hchar]
    rfl
  split
  · obtain ⟨lead, hlead, hfollowing, hbits, hlow, hhigh⟩ :=
      lead?_two (show 0xc2 ≤ number / 64 % 32 + 192 by omega) (by omega)
    rw [List.cons_append]
    refine decodeOnto_cons hlead ?_ before
    rw [hfollowing, hbits, List.cons_append]
    rw [complete_cons number (by omega) (by omega), complete]
    congr 1
    rw [← hchar]
    congr 1
    omega
  split
  · obtain ⟨lead, hlead, hfollowing, hbits, hlow, hhigh⟩ :=
      lead?_three (show 0xe0 ≤ number / 4096 % 16 + 224 by omega) (by omega)
    rw [List.cons_append]
    refine decodeOnto_cons hlead ?_ before
    rw [hfollowing, hbits, List.cons_append]
    rw [complete_cons (number / 64) (by split at hlow <;> omega) (by split at hhigh <;> omega),
      List.cons_append, complete_cons_any number, complete]
    congr 1
    rw [← hchar]
    congr 1
    omega
  · obtain ⟨lead, hlead, hfollowing, hbits, hlow, hhigh⟩ :=
      lead?_four (show 0xf0 ≤ number / 262144 % 8 + 240 by omega) (by omega)
    rw [List.cons_append]
    refine decodeOnto_cons hlead ?_ before
    rw [hfollowing, hbits, List.cons_append]
    rw [complete_cons (number / 4096) (by split at hlow <;> omega) (by split at hhigh <;> omega),
      List.cons_append, complete_cons_any (number / 64), List.cons_append,
      complete_cons_any number, complete]
    congr 1
    rw [← hchar]
    congr 1
    omega

/-! ### Texts -/

theorem decodeOnto_utf8 (before : String) (chars : List Char) :
    decodeOnto before (chars.flatMap String.utf8EncodeChar) = before ++ String.ofList chars := by
  induction chars generalizing before with
  | nil =>
    rw [List.flatMap_nil, decodeOnto]
    exact (String.append_empty ..).symm
  | cons char chars ih =>
    rw [List.flatMap_cons, decodeOnto_utf8EncodeChar, ih, String.push_eq_append,
      String.append_assoc, String.ofList_cons]

/-- The bytes of a text are read as that text. -/
theorem decode_toUTF8 (text : String) : decode text.toUTF8 = text := by
  rw [decode, toUTF8_eq, toList_toByteArray, decodeOnto_utf8, String.ofList_toList]
  exact String.empty_append

end ManagedPdb.Lossy
