import Mathlib.Data.List.Basic
import Mathlib.Data.List.TakeWhile
import ManagedPdb.Proofs.Text

/-!
# Well-formed text

Which bytes are UTF-8 and which units are UTF-16 is a matter of ranges alone.  The code of a
character is one to four bytes in the ranges of `Utf8.Code`, and units are well formed if the two
units of a pair only stand next to each other (`Utf16.WellFormed`).  Both are exactly the codes of
texts: `Utf8.wellFormed_iff` and `Utf16.wellFormed_iff`.

What the ranges leave out has names.  Bytes that are not well formed have, behind codes of
characters, a byte that starts no code, a number that is spelled in more bytes than it needs, a
surrogate, a number beyond the last character, or a code that is cut short
(`Utf8.not_wellFormed_iff`).  Units that are not well formed have a unit of a pair that stands alone
(`Utf16.not_wellFormed_iff`).
-/

namespace ManagedPdb

theorem toNat_charOfNat {number : Nat} (h : number.isValidChar) :
    (Char.ofNat number).toNat = number := by
  rw [Char.ofNat, dif_pos h]
  rfl

/-! ### UTF-8 -/

namespace Utf8

/-- A byte behind the first one of a code. -/
def Follows (byte : UInt8) : Prop := 0x80 ≤ byte.toNat ∧ byte.toNat ≤ 0xbf

instance (byte : UInt8) : Decidable (Follows byte) := inferInstanceAs (Decidable (_ ∧ _))

/-- The code of a character.  The first byte says how many bytes follow, and keeps the second one
out of the ranges in which the code would be too long, a surrogate or beyond the last character. -/
inductive Code : List UInt8 → Prop where
  | one {first : UInt8} : first.toNat ≤ 0x7f → Code [first]
  | two {first second : UInt8} : 0xc2 ≤ first.toNat → first.toNat ≤ 0xdf → Follows second →
      Code [first, second]
  | three {first second third : UInt8} : 0xe0 ≤ first.toNat → first.toNat ≤ 0xef →
      Follows second → (first.toNat = 0xe0 → 0xa0 ≤ second.toNat) →
      (first.toNat = 0xed → second.toNat ≤ 0x9f) → Follows third → Code [first, second, third]
  | four {first second third fourth : UInt8} : 0xf0 ≤ first.toNat → first.toNat ≤ 0xf4 →
      Follows second → (first.toNat = 0xf0 → 0x90 ≤ second.toNat) →
      (first.toNat = 0xf4 → second.toNat ≤ 0x8f) → Follows third → Follows fourth →
      Code [first, second, third, fourth]

/-- Codes of characters in a row. -/
inductive WellFormed : List UInt8 → Prop where
  | nil : WellFormed []
  | cons {code rest : List UInt8} : Code code → WellFormed rest → WellFormed (code ++ rest)

/-! #### Numbers in so many bytes -/

/-- How many bytes a code has that starts with this byte. -/
def width (first : UInt8) : Nat :=
  if first.toNat ≤ 0x7f then 1 else if first.toNat ≤ 0xdf then 2 else
    if first.toNat ≤ 0xef then 3 else 4

/-- A byte that promises so many bytes. -/
def Starts (byte : UInt8) : Prop :=
  byte.toNat ≤ 0x7f ∨ 0xc0 ≤ byte.toNat ∧ byte.toNat ≤ 0xf7

instance (byte : UInt8) : Decidable (Starts byte) := inferInstanceAs (Decidable (_ ∨ _))

/-- The numbers below this have room in so many bytes. -/
def limit : (count : Nat) → Nat
  | 0 => 0
  | 1 => 0x80
  | 2 => 0x800
  | 3 => 0x10000
  | _ => 0x200000

/-- A number in `count` bytes, six bits in each but the first, whether or not it needs them. -/
def spelled : (count number : Nat) → List UInt8
  | 0, _ => []
  | 1, number => [UInt8.ofNat number]
  | 2, number => [UInt8.ofNat (0xc0 + number / 64), UInt8.ofNat (0x80 + number % 64)]
  | 3, number => [UInt8.ofNat (0xe0 + number / 4096), UInt8.ofNat (0x80 + number / 64 % 64),
      UInt8.ofNat (0x80 + number % 64)]
  | _, number => [UInt8.ofNat (0xf0 + number / 262144), UInt8.ofNat (0x80 + number / 4096 % 64),
      UInt8.ofNat (0x80 + number / 64 % 64), UInt8.ofNat (0x80 + number % 64)]

theorem toNat_ofNat {number : Nat} (h : number < 256) : (UInt8.ofNat number).toNat = number :=
  UInt8.toNat_ofNat_of_lt' h

/-- A number is the code of a character if it needs all its bytes and is a character at all. -/
theorem code_spelled_iff {count number : Nat} (hpos : 0 < count) (hcount : count ≤ 4)
    (hnumber : number < limit count) :
    Code (spelled count number) ↔ limit (count - 1) ≤ number ∧ number.isValidChar := by
  have hcases : count = 1 ∨ count = 2 ∨ count = 3 ∨ count = 4 := by omega
  unfold Nat.isValidChar
  rcases hcases with rfl | rfl | rfl | rfl <;> simp only [spelled, limit] at hnumber ⊢
  · constructor
    · intro _
      omega
    · intro _
      exact .one (by rw [toNat_ofNat (by omega)]; omega)
  · constructor
    · rintro (_ | ⟨hlow, -, -⟩)
      rw [toNat_ofNat (by omega)] at hlow
      omega
    · intro _
      refine .two ?_ ?_ ?_ <;> simp only [Follows, UInt8.toNat_ofNat'] <;> omega
  · constructor
    · rintro (_ | _ | ⟨-, -, -, hlong, hsurrogate, -⟩)
      rw [toNat_ofNat (by omega), toNat_ofNat (by omega)] at hlong hsurrogate
      omega
    · intro _
      refine .three ?_ ?_ ?_ ?_ ?_ ?_ <;> simp only [Follows, UInt8.toNat_ofNat'] <;> omega
  · constructor
    · rintro (_ | _ | _ | ⟨-, hhigh, -, hlong, hlast, -, -⟩)
      rw [toNat_ofNat (by omega)] at hhigh hlong hlast
      rw [toNat_ofNat (by omega)] at hlong hlast
      omega
    · intro _
      refine .four ?_ ?_ ?_ ?_ ?_ ?_ ?_ <;> simp only [Follows, UInt8.toNat_ofNat'] <;> omega

theorem width_cases (first : UInt8) :
    width first = 1 ∧ first.toNat ≤ 0x7f ∨
      width first = 2 ∧ 0x7f < first.toNat ∧ first.toNat ≤ 0xdf ∨
      width first = 3 ∧ 0xdf < first.toNat ∧ first.toNat ≤ 0xef ∨
      width first = 4 ∧ 0xef < first.toNat := by
  unfold width
  split_ifs <;> omega

/-- A first byte and the bytes behind it, as many as it promises, spell a number. -/
theorem exists_spelled {first : UInt8} {tail : List UInt8} (hfirst : Starts first)
    (htail : ∀ byte ∈ tail, Follows byte) (hlength : (first :: tail).length = width first) :
    ∃ number, number < limit (width first) ∧ first :: tail = spelled (width first) number := by
  unfold Starts at hfirst
  rcases width_cases first with
    ⟨hwidth, hrange⟩ | ⟨hwidth, hrange⟩ | ⟨hwidth, hrange⟩ | ⟨hwidth, hrange⟩ <;>
    rw [hwidth] at hlength ⊢
  · obtain rfl : tail = [] := List.length_eq_zero_iff.mp (Nat.succ.inj hlength)
    refine ⟨first.toNat, by simp only [limit]; omega, ?_⟩
    simp only [spelled, UInt8.ofNat_toNat]
  · obtain ⟨second, rfl⟩ := List.length_eq_one_iff.mp (Nat.succ.inj hlength)
    obtain ⟨hsecond, hsecond'⟩ := htail second (by simp)
    refine ⟨(first.toNat - 0xc0) * 64 + (second.toNat - 0x80), by simp only [limit]; omega, ?_⟩
    simp only [spelled, List.cons.injEq, ← UInt8.toNat_inj, UInt8.toNat_ofNat', and_true]
    omega
  · obtain ⟨second, third, rfl⟩ := List.length_eq_two.mp (Nat.succ.inj hlength)
    obtain ⟨hsecond, hsecond'⟩ := htail second (by simp)
    obtain ⟨hthird, hthird'⟩ := htail third (by simp)
    refine ⟨(first.toNat - 0xe0) * 4096 + (second.toNat - 0x80) * 64 + (third.toNat - 0x80),
      by simp only [limit]; omega, ?_⟩
    simp only [spelled, List.cons.injEq, ← UInt8.toNat_inj, UInt8.toNat_ofNat', and_true]
    omega
  · obtain ⟨second, third, fourth, rfl⟩ := List.length_eq_three.mp (Nat.succ.inj hlength)
    obtain ⟨hsecond, hsecond'⟩ := htail second (by simp)
    obtain ⟨hthird, hthird'⟩ := htail third (by simp)
    obtain ⟨hfourth, hfourth'⟩ := htail fourth (by simp)
    refine ⟨(first.toNat - 0xf0) * 262144 + (second.toNat - 0x80) * 4096
        + (third.toNat - 0x80) * 64 + (fourth.toNat - 0x80), by simp only [limit]; omega, ?_⟩
    simp only [spelled, List.cons.injEq, ← UInt8.toNat_inj, UInt8.toNat_ofNat', and_true]
    omega

theorem Code.starts {first : UInt8} {tail : List UInt8} (h : Code (first :: tail)) :
    Starts first := by
  unfold Starts
  cases h with
  | one hfirst => omega
  | two hlow hhigh _ => omega
  | three hlow hhigh _ _ _ _ => omega
  | four hlow hhigh _ _ _ _ _ => omega

theorem Code.follows {first : UInt8} {tail : List UInt8} (h : Code (first :: tail)) :
    ∀ byte ∈ tail, Follows byte := by
  cases h with
  | one => simp
  | two _ _ hsecond => simpa using hsecond
  | three _ _ hsecond _ _ hthird => simpa using ⟨hsecond, hthird⟩
  | four _ _ hsecond _ _ hthird hfourth => simpa using ⟨hsecond, hthird, hfourth⟩

theorem Code.length_eq {first : UInt8} {rest : List UInt8} (h : Code (first :: rest)) :
    (first :: rest).length = width first := by
  unfold width
  cases h with
  | one hfirst => rw [if_pos hfirst]; rfl
  | two hlow hhigh _ => rw [if_neg (by omega), if_pos hhigh]; rfl
  | three hlow hhigh _ _ _ _ => rw [if_neg (by omega), if_neg (by omega), if_pos hhigh]; rfl
  | four hlow hhigh _ _ _ _ _ => rw [if_neg (by omega), if_neg (by omega), if_neg (by omega)]; rfl

theorem Code.ne_nil {code : List UInt8} (h : Code code) : code ≠ [] := by
  rintro rfl
  cases h

theorem width_pos (first : UInt8) : 0 < width first := by
  have hcases := width_cases first
  omega

theorem width_le (first : UInt8) : width first ≤ 4 := by
  have hcases := width_cases first
  omega

/-- Every code spells a number. -/
theorem Code.exists_spelled {code : List UInt8} (h : Code code) :
    ∃ count number, 0 < count ∧ count ≤ 4 ∧ number < limit count ∧ code = spelled count number := by
  obtain ⟨first, tail, rfl⟩ := List.exists_cons_of_ne_nil h.ne_nil
  obtain ⟨number, hnumber, hspelled⟩ := Utf8.exists_spelled h.starts h.follows h.length_eq
  exact ⟨width first, number, width_pos first, width_le first, hnumber, hspelled⟩

/-- The code of a character spells its number in as many bytes as it needs. -/
theorem utf8EncodeChar_eq_spelled (char : Char) : ∃ count, 0 < count ∧ count ≤ 4 ∧
    limit (count - 1) ≤ char.toNat ∧ char.toNat < limit count ∧
    String.utf8EncodeChar char = spelled count char.toNat := by
  have hvalid : char.toNat < 0xd800 ∨ 0xdfff < char.toNat ∧ char.toNat < 0x110000 := char.valid
  rw [show char.toNat = char.val.toNat from rfl] at *
  unfold String.utf8EncodeChar
  generalize char.val.toNat = number at *
  dsimp only
  -- codes of one to four bytes
  split
  · exact ⟨1, by decide, by decide, by simp only [limit]; omega, by simp only [limit]; omega, rfl⟩
  split
  · refine ⟨2, by decide, by decide, by simp only [limit]; omega, by simp only [limit]; omega, ?_⟩
    simp only [spelled, List.cons.injEq, ← UInt8.toNat_inj, UInt8.toNat_ofNat', and_true]
    omega
  split
  · refine ⟨3, by decide, by decide, by simp only [limit]; omega, by simp only [limit]; omega, ?_⟩
    simp only [spelled, List.cons.injEq, ← UInt8.toNat_inj, UInt8.toNat_ofNat', and_true]
    omega
  · refine ⟨4, by decide, by decide, by simp only [limit]; omega, by simp only [limit]; omega, ?_⟩
    simp only [spelled, List.cons.injEq, ← UInt8.toNat_inj, UInt8.toNat_ofNat', and_true]
    omega

/-- A number needs one number of bytes only. -/
theorem count_unique {count count' number : Nat} (hpos : 0 < count) (hcount : count ≤ 4)
    (hlow : limit (count - 1) ≤ number) (hhigh : number < limit count) (hpos' : 0 < count')
    (hcount' : count' ≤ 4) (hlow' : limit (count' - 1) ≤ number) (hhigh' : number < limit count') :
    count = count' := by
  have hcases : count = 1 ∨ count = 2 ∨ count = 3 ∨ count = 4 := by omega
  have hcases' : count' = 1 ∨ count' = 2 ∨ count' = 3 ∨ count' = 4 := by omega
  rcases hcases with rfl | rfl | rfl | rfl <;> rcases hcases' with rfl | rfl | rfl | rfl <;>
    first | rfl | (simp only [limit] at *; omega)

/-- The ranges are those of the codes of characters. -/
theorem code_iff {code : List UInt8} :
    Code code ↔ ∃ char, code = String.utf8EncodeChar char := by
  constructor
  · intro h
    obtain ⟨count, number, hpos, hcount, hhigh, rfl⟩ := h.exists_spelled
    obtain ⟨hlow, hvalid⟩ := (code_spelled_iff hpos hcount hhigh).mp h
    have hchar := toNat_charOfNat hvalid
    obtain ⟨count', hpos', hcount', hlow', hhigh', hcode⟩ :=
      utf8EncodeChar_eq_spelled (Char.ofNat number)
    rw [hchar] at hlow' hhigh' hcode
    rw [← count_unique hpos hcount hlow hhigh hpos' hcount' hlow' hhigh'] at hcode
    exact ⟨Char.ofNat number, hcode.symm⟩
  · rintro ⟨char, rfl⟩
    obtain ⟨count, hpos, hcount, hlow, hhigh, hcode⟩ := utf8EncodeChar_eq_spelled char
    rw [hcode]
    exact (code_spelled_iff hpos hcount hhigh).mpr ⟨hlow, char.valid⟩

/-! #### Codes in a row -/

/-- The first byte says where a code ends. -/
theorem Code.append_inj {code code' rest rest' : List UInt8} (h : Code code) (h' : Code code')
    (heq : code ++ rest = code' ++ rest') : code = code' ∧ rest = rest' := by
  obtain ⟨first, tail, rfl⟩ := List.exists_cons_of_ne_nil h.ne_nil
  obtain ⟨first', tail', rfl⟩ := List.exists_cons_of_ne_nil h'.ne_nil
  obtain rfl : first = first' := (List.cons.inj heq).1
  exact List.append_inj heq (h.length_eq.trans h'.length_eq.symm)

/-- Bytes that are not empty start with a code. -/
theorem WellFormed.exists_code {bytes : List UInt8} (h : WellFormed bytes) (hbytes : bytes ≠ []) :
    ∃ code rest, bytes = code ++ rest ∧ Code code ∧ WellFormed rest := by
  cases h with
  | nil => exact absurd rfl hbytes
  | cons hcode hrest => exact ⟨_, _, rfl, hcode, hrest⟩

theorem wellFormed_code_append_iff {code rest : List UInt8} (hcode : Code code) :
    WellFormed (code ++ rest) ↔ WellFormed rest := by
  constructor
  · intro h
    obtain ⟨code', rest', heq, hcode', hrest'⟩ :=
      h.exists_code (by simp only [ne_eq, List.append_eq_nil_iff, hcode.ne_nil, false_and,
        not_false_eq_true])
    obtain ⟨-, rfl⟩ := hcode.append_inj hcode' heq
    exact hrest'
  · exact .cons hcode

/-- Well-formed bytes are those of texts. -/
theorem wellFormed_iff {bytes : List UInt8} :
    WellFormed bytes ↔ ∃ text : String, text.toUTF8 = bytes.toByteArray := by
  constructor
  · intro h
    induction h with
    | nil => exact ⟨"", rfl⟩
    | cons hcode _ ih =>
      obtain ⟨char, rfl⟩ := code_iff.mp hcode
      obtain ⟨text, htext⟩ := ih
      refine ⟨String.ofList (char :: text.toList), ?_⟩
      rw [toUTF8_eq] at htext ⊢
      rw [String.toList_ofList, List.flatMap_cons, List.toByteArray_append, htext,
        ← List.toByteArray_append]
  · rintro ⟨text, htext⟩
    rw [toUTF8_eq, List.toByteArray_inj] at htext
    rw [← htext]
    induction text.toList with
    | nil => exact .nil
    | cons char chars ih =>
      rw [List.flatMap_cons]
      exact .cons (code_iff.mpr ⟨char, rfl⟩) ih

/-! #### What is not well formed -/

/-- Bytes with a first mistake, behind codes of characters. -/
inductive Defective : List UInt8 → Prop where
  /-- A byte that starts no code. -/
  | stray {byte : UInt8} {rest : List UInt8} : ¬ Starts byte → Defective (byte :: rest)
  /-- A number that does not need all its bytes. -/
  | overlong {count number : Nat} {rest : List UInt8} : count ≤ 4 → number < limit (count - 1) →
      Defective (spelled count number ++ rest)
  | surrogate {number : Nat} {rest : List UInt8} : 0xd800 ≤ number → number ≤ 0xdfff →
      Defective (spelled 3 number ++ rest)
  /-- A number behind that of the last character. -/
  | beyond {number : Nat} {rest : List UInt8} : 0x110000 ≤ number → number < limit 4 →
      Defective (spelled 4 number ++ rest)
  /-- A number of which some bytes are missing, at the end or in front of a byte that does not
  follow. -/
  | cut {count number kept : Nat} {rest : List UInt8} : count ≤ 4 → number < limit count →
      0 < kept → kept < count → (∀ byte ∈ rest.head?, ¬ Follows byte) →
      Defective ((spelled count number).take kept ++ rest)
  | behind {code rest : List UInt8} : Code code → Defective rest → Defective (code ++ rest)

/-- The first byte of a number in so many bytes promises as many, even if the number does not need
them. -/
theorem exists_spelled_eq_cons {count number : Nat} (hpos : 0 < count) (hcount : count ≤ 4)
    (hnumber : number < limit count) :
    ∃ first tail, spelled count number = first :: tail ∧ width first = count ∧
      (first :: tail).length = count := by
  have hcases : count = 1 ∨ count = 2 ∨ count = 3 ∨ count = 4 := by omega
  rcases hcases with rfl | rfl | rfl | rfl <;> simp only [limit] at hnumber <;>
    refine ⟨_, _, rfl, ?_, rfl⟩ <;> simp only [width, UInt8.toNat_ofNat']
  · rw [if_pos (by omega)]
  · rw [if_neg (by omega), if_pos (by omega)]
  · rw [if_neg (by omega), if_neg (by omega), if_pos (by omega)]
  · rw [if_neg (by omega), if_neg (by omega), if_neg (by omega)]

/-- A number in so many bytes, in front of any others, is only well formed if it needs all its
bytes, is no surrogate, and is not beyond the last character. -/
theorem wellFormed_spelled_append_iff {rest : List UInt8} {count number : Nat} (hpos : 0 < count)
    (hcount : count ≤ 4) (hnumber : number < limit count) :
    WellFormed (spelled count number ++ rest) ↔
      (limit (count - 1) ≤ number ∧ number.isValidChar) ∧ WellFormed rest := by
  obtain ⟨first, tail, hspelled, hwidth, hlength⟩ := exists_spelled_eq_cons hpos hcount hnumber
  rw [← code_spelled_iff hpos hcount hnumber, hspelled]
  constructor
  · intro h
    obtain ⟨code, rest', heq, hcode, hrest⟩ := h.exists_code (List.cons_ne_nil _ _)
    obtain ⟨first', tail', rfl⟩ := List.exists_cons_of_ne_nil hcode.ne_nil
    obtain rfl : first = first' := (List.cons.inj heq).1
    obtain ⟨hsame, rfl⟩ := List.append_inj heq
      (hlength.trans (hwidth.symm.trans hcode.length_eq.symm))
    rw [hsame]
    exact ⟨hcode, hrest⟩
  · rintro ⟨hcode, hrest⟩
    exact .cons hcode hrest

theorem not_wellFormed_of_not_starts {byte : UInt8} {rest : List UInt8} (h : ¬ Starts byte) :
    ¬ WellFormed (byte :: rest) := by
  intro hwellFormed
  obtain ⟨code, after, heq, hcode, -⟩ := hwellFormed.exists_code (List.cons_ne_nil _ _)
  obtain ⟨first, tail, rfl⟩ := List.exists_cons_of_ne_nil hcode.ne_nil
  obtain rfl : byte = first := (List.cons.inj heq).1
  exact h hcode.starts

/-- A code that is cut short, by the end or by the start of another one, is not well formed. -/
theorem not_wellFormed_take_append {rest : List UInt8} {count number kept : Nat}
    (hcount : count ≤ 4) (hnumber : number < limit count) (hpos : 0 < kept) (hkept : kept < count)
    (hrest : ∀ byte ∈ rest.head?, ¬ Follows byte) :
    ¬ WellFormed ((spelled count number).take kept ++ rest) := by
  obtain ⟨first, tail, hspelled, hwidth, hlength⟩ :=
    exists_spelled_eq_cons (by omega) hcount hnumber
  rw [hspelled]
  obtain ⟨kept, rfl⟩ := Nat.exists_eq_succ_of_ne_zero (Nat.ne_of_gt hpos)
  rw [List.take_succ_cons]
  intro h
  obtain ⟨code, after, heq, hcode, -⟩ := h.exists_code (List.cons_ne_nil _ _)
  obtain ⟨first', tail', rfl⟩ := List.exists_cons_of_ne_nil hcode.ne_nil
  rw [List.cons_append, List.cons_append] at heq
  obtain ⟨rfl, hbehind⟩ := List.cons.inj heq
  have htail := hcode.length_eq
  rw [hwidth, List.length_cons] at htail
  rw [List.length_cons] at hlength
  -- the code goes on behind the cut, with a byte of what follows
  rcases List.append_eq_append_iff.mp hbehind with ⟨more, hmore, hafter⟩ | ⟨more, hmore, -⟩
  · cases more with
    | nil =>
      have hsizes := congrArg List.length hmore
      rw [List.append_nil, List.length_take] at hsizes
      omega
    | cons byte more =>
      refine hrest byte (by rw [hafter]; rfl) (hcode.follows byte ?_)
      rw [hmore]
      exact List.mem_append_right _ List.mem_cons_self
  · have hsizes := congrArg List.length hmore
    rw [List.length_append, List.length_take] at hsizes
    omega

theorem Defective.not_wellFormed {bytes : List UInt8} (h : Defective bytes) :
    ¬ WellFormed bytes := by
  induction h with
  | stray hbyte => exact not_wellFormed_of_not_starts hbyte
  | @overlong count number rest hcount hnumber =>
    have hpos : 0 < count := by
      refine Nat.pos_of_ne_zero ?_
      rintro rfl
      exact Nat.not_lt_zero _ hnumber
    have hlimit : limit (count - 1) ≤ limit count := by
      have hcases : count = 1 ∨ count = 2 ∨ count = 3 ∨ count = 4 := by omega
      rcases hcases with rfl | rfl | rfl | rfl <;> decide
    rw [wellFormed_spelled_append_iff hpos hcount (by omega)]
    omega
  | surrogate hlow hhigh =>
    rw [wellFormed_spelled_append_iff (by decide) (by decide) (by simp only [limit]; omega)]
    unfold Nat.isValidChar
    omega
  | beyond hlow hhigh =>
    rw [wellFormed_spelled_append_iff (by decide) (by decide) hhigh]
    unfold Nat.isValidChar
    omega
  | cut hcount hnumber hpos hkept hrest =>
    exact not_wellFormed_take_append hcount hnumber hpos hkept hrest
  | behind hcode _ ih =>
    rw [wellFormed_code_append_iff hcode]
    exact ih

/-- A number in so many bytes that is no code of a character has one of three mistakes. -/
theorem defective_spelled_append {count number : Nat} {rest : List UInt8} (hpos : 0 < count)
    (hcount : count ≤ 4) (hnumber : number < limit count) (h : ¬ Code (spelled count number)) :
    Defective (spelled count number ++ rest) := by
  rw [code_spelled_iff hpos hcount hnumber, not_and_or, Nat.not_le] at h
  rcases h with hlong | hvalid
  · exact .overlong hcount hlong
  by_cases hlong : number < limit (count - 1)
  · exact .overlong hcount hlong
  unfold Nat.isValidChar at hvalid
  have hcases : count = 1 ∨ count = 2 ∨ count = 3 ∨ count = 4 := by omega
  rcases hcases with rfl | rfl | rfl | rfl <;> simp only [limit] at hnumber hlong
  · omega
  · omega
  · exact .surrogate (by omega) (by omega)
  · exact .beyond (by omega) hnumber

/-- Bytes behind a first one either have all the bytes that it promises in front, or are cut
short. -/
theorem code_or_cut (first : UInt8) (tail : List UInt8) :
    (∃ code rest, tail = code ++ rest ∧ (first :: code).length = width first ∧
      ∀ byte ∈ code, Follows byte) ∨
    ∃ kept rest, tail = kept ++ rest ∧ (first :: kept).length < width first ∧
      (∀ byte ∈ kept, Follows byte) ∧ ∀ byte ∈ rest.head?, ¬ Follows byte := by
  let follows (byte : UInt8) : Bool := decide (Follows byte)
  have hsplit : tail.takeWhile follows ++ tail.dropWhile follows = tail :=
    List.takeWhile_append_dropWhile
  have hkept : ∀ byte ∈ tail.takeWhile follows, Follows byte :=
    fun byte member => of_decide_eq_true (List.mem_takeWhile_imp (p := follows) member)
  have hrest : ∀ byte ∈ (tail.dropWhile follows).head?, ¬ Follows byte := by
    intro byte member
    have hhead := List.head?_dropWhile_not follows tail
    rw [Option.mem_def.mp member] at hhead
    exact of_decide_eq_false hhead
  generalize tail.takeWhile follows = kept at hsplit hkept
  generalize tail.dropWhile follows = rest at hsplit hrest
  have hpos := width_pos first
  by_cases hlength : (first :: kept).length < width first
  · exact .inr ⟨kept, rest, hsplit.symm, hlength, hkept, hrest⟩
  · rw [List.length_cons, Nat.not_lt] at hlength
    refine .inl ⟨kept.take (width first - 1), kept.drop (width first - 1) ++ rest, ?_, ?_, ?_⟩
    · rw [← List.append_assoc, List.take_append_drop, hsplit]
    · rw [List.length_cons, List.length_take]
      omega
    · exact fun byte member => hkept byte (List.mem_of_mem_take member)

/-- Bytes that are cut short are the first bytes of a number. -/
theorem exists_take_spelled {first : UInt8} {kept : List UInt8} (hfirst : Starts first)
    (hkept : ∀ byte ∈ kept, Follows byte) (hlength : (first :: kept).length < width first) :
    ∃ number, number < limit (width first) ∧
      first :: kept = (spelled (width first) number).take (first :: kept).length := by
  rw [List.length_cons] at hlength
  let more := List.replicate (width first - 1 - kept.length) (0x80 : UInt8)
  have hfollows : ∀ byte ∈ kept ++ more, Follows byte := by
    intro byte member
    rcases List.mem_append.mp member with member | member
    · exact hkept byte member
    · rw [List.eq_of_mem_replicate member]
      decide
  have hfull : (first :: (kept ++ more)).length = width first := by
    rw [List.length_cons, List.length_append, List.length_replicate]
    omega
  obtain ⟨number, hnumber, hspelled⟩ := exists_spelled hfirst hfollows hfull
  refine ⟨number, hnumber, ?_⟩
  rw [← hspelled, ← List.cons_append, List.take_left]

/-- Bytes are not well formed if there is a mistake in them. -/
theorem not_wellFormed_iff {bytes : List UInt8} : ¬ WellFormed bytes ↔ Defective bytes := by
  refine ⟨fun h => ?_, Defective.not_wellFormed⟩
  induction hlength : bytes.length using Nat.strongRecOn generalizing bytes with
  | ind length ih =>
    subst hlength
    cases bytes with
    | nil => exact absurd .nil h
    | cons first tail =>
      by_cases hfirst : Starts first
      case neg => exact .stray hfirst
      rcases code_or_cut first tail with
        ⟨code, rest, rfl, hlength, hcode⟩ | ⟨kept, rest, rfl, hlength, hkept, hrest⟩
      · obtain ⟨number, hnumber, hspelled⟩ := exists_spelled hfirst hcode hlength
        rw [← List.cons_append] at h ih ⊢
        by_cases hvalid : Code (first :: code)
        · rw [wellFormed_code_append_iff hvalid] at h
          refine .behind hvalid (ih rest.length ?_ h rfl)
          rw [List.length_append, List.length_cons]
          omega
        · rw [hspelled] at hvalid ⊢
          exact defective_spelled_append (width_pos first) (width_le first) hnumber hvalid
      · obtain ⟨number, hnumber, hspelled⟩ := exists_take_spelled hfirst hkept hlength
        rw [← List.cons_append, hspelled]
        exact .cut (width_le first) hnumber (Nat.succ_pos _) hlength hrest

end Utf8

/-! ### UTF-16 -/

namespace Utf16

/-- Units of which each leading one stands in front of a trailing one, and each trailing one behind
a leading one. -/
inductive WellFormed : List UInt16 → Prop where
  | nil : WellFormed []
  | single {unit : UInt16} {rest : List UInt16} : isLeading unit = false → isTrailing unit = false →
      WellFormed rest → WellFormed (unit :: rest)
  | pair {leading trailing : UInt16} {rest : List UInt16} : isLeading leading = true →
      isTrailing trailing = true → WellFormed rest → WellFormed (leading :: trailing :: rest)

theorem isLeading_iff {unit : UInt16} :
    isLeading unit = true ↔ 0xd800 ≤ unit.toNat ∧ unit.toNat < 0xdc00 := by
  simp only [isLeading, UInt16.le_iff_toNat_le, UInt16.lt_iff_toNat_lt, UInt16.reduceToNat,
    Bool.and_eq_true, decide_eq_true_eq]

theorem isTrailing_iff {unit : UInt16} :
    isTrailing unit = true ↔ 0xdc00 ≤ unit.toNat ∧ unit.toNat < 0xe000 := by
  simp only [isTrailing, UInt16.le_iff_toNat_le, UInt16.lt_iff_toNat_lt, UInt16.reduceToNat,
    Bool.and_eq_true, decide_eq_true_eq]

/-- A unit that is not one of a pair is the code of the character with its number. -/
theorem units_ofNat {unit : UInt16} (hleading : isLeading unit = false)
    (htrailing : isTrailing unit = false) : units (Char.ofNat unit.toNat) = [unit] := by
  have hunit := unit.toNat_lt
  rw [← Bool.not_eq_true, isLeading_iff] at hleading
  rw [← Bool.not_eq_true, isTrailing_iff] at htrailing
  have hchar := @toNat_charOfNat unit.toNat (by unfold Nat.isValidChar; omega)
  rw [units, hchar, if_pos (by omega), UInt16.ofNat_toNat]

/-- The units of a pair are the code of the character that they are joined to. -/
theorem units_join {leading trailing : UInt16} (hleading : isLeading leading = true)
    (htrailing : isTrailing trailing = true) :
    units (join leading trailing) = [leading, trailing] := by
  rw [isLeading_iff] at hleading
  rw [isTrailing_iff] at htrailing
  have hchar := @toNat_charOfNat
    (0x10000 + (leading.toNat - 0xd800) * 0x400 + (trailing.toNat - 0xdc00))
    (by unfold Nat.isValidChar; omega)
  rw [units, join, hchar, if_neg (by omega)]
  simp only [List.cons.injEq, ← UInt16.toNat_inj, UInt16.toNat_ofNat', and_true]
  omega

theorem isLeading_eq_false_of_isTrailing {unit : UInt16} (h : isTrailing unit = true) :
    isLeading unit = false := by
  rw [isTrailing_iff] at h
  rw [← Bool.not_eq_true, isLeading_iff]
  omega

theorem isTrailing_eq_false_of_isLeading {unit : UInt16} (h : isLeading unit = true) :
    isTrailing unit = false := by
  rw [isLeading_iff] at h
  rw [← Bool.not_eq_true, isTrailing_iff]
  omega

/-- The code of a character is a unit outside the pairs, or a pair. -/
theorem wellFormed_units_append (char : Char) {rest : List UInt16} (hrest : WellFormed rest) :
    WellFormed (units char ++ rest) := by
  have hvalid : char.toNat < 0xd800 ∨ 0xdfff < char.toNat ∧ char.toNat < 0x110000 := char.valid
  unfold units
  split
  · refine .single ?_ ?_ hrest
    · rw [← Bool.not_eq_true, isLeading_iff, UInt16.toNat_ofNat']
      omega
    · rw [← Bool.not_eq_true, isTrailing_iff, UInt16.toNat_ofNat']
      omega
  · refine .pair ?_ ?_ hrest
    · rw [isLeading_iff, UInt16.toNat_ofNat']
      omega
    · rw [isTrailing_iff, UInt16.toNat_ofNat']
      omega

theorem wellFormed_of_decodeOnto {before : List Char} {codes : List UInt16}
    (h : (decodeOnto before codes).isSome) : WellFormed codes := by
  fun_induction decodeOnto before codes with
  | case1 => exact .nil
  | case2 => cases h
  | case3 before unit hleading next rest htrailing ih => exact .pair hleading htrailing (ih h)
  | case4 => cases h
  | case5 => cases h
  | case6 before unit rest hleading htrailing ih =>
    exact .single (Bool.not_eq_true _ ▸ hleading) (Bool.not_eq_true _ ▸ htrailing) (ih h)

/-- Well-formed units are the codes of characters. -/
theorem wellFormed_iff {codes : List UInt16} :
    WellFormed codes ↔ ∃ text, codes = encode text := by
  constructor
  · intro h
    have hchars : ∃ chars : List Char, codes = chars.flatMap units := by
      induction h with
      | nil => exact ⟨[], rfl⟩
      | single hleading htrailing _ ih =>
        obtain ⟨chars, rfl⟩ := ih
        exact ⟨_ :: chars, by rw [List.flatMap_cons, units_ofNat hleading htrailing]; rfl⟩
      | pair hleading htrailing _ ih =>
        obtain ⟨chars, rfl⟩ := ih
        exact ⟨_ :: chars, by rw [List.flatMap_cons, units_join hleading htrailing]; rfl⟩
    obtain ⟨chars, rfl⟩ := hchars
    exact ⟨String.ofList chars, by rw [encode, String.toList_ofList]⟩
  · rintro ⟨text, rfl⟩
    unfold encode
    induction text.toList with
    | nil => exact .nil
    | cons char chars ih =>
      rw [List.flatMap_cons]
      exact wellFormed_units_append char ih

/-- The text of units, if there is one, is the text that they are the code of. -/
theorem decode_eq_some_iff {codes : List UInt16} {text : String} :
    decode codes = some text ↔ codes = encode text := by
  constructor
  · intro h
    have hsome : (decodeOnto [] codes).isSome := by
      rw [decode] at h
      rw [← Option.isSome_map, h]
      rfl
    obtain ⟨text', rfl⟩ := wellFormed_iff.mp (wellFormed_of_decodeOnto hsome)
    rw [decode_encode] at h
    cases h
    rfl
  · rintro rfl
    exact decode_encode text

theorem decode_eq_none_iff {codes : List UInt16} : decode codes = none ↔ ¬ WellFormed codes := by
  rw [wellFormed_iff, ← not_iff_not, not_not, ← ne_eq, Option.ne_none_iff_exists']
  simp only [decode_eq_some_iff]

/-! #### What is not well formed -/

def leadingAt (codes : List UInt16) (index : Nat) : Bool := codes[index]?.any isLeading

def trailingAt (codes : List UInt16) (index : Nat) : Bool := codes[index]?.any isTrailing

/-- The leading units are those in front of trailing units. -/
def Paired (codes : List UInt16) : Prop :=
  ∀ index, leadingAt codes index = trailingAt codes (index + 1)

theorem paired_cons_iff {unit : UInt16} {rest : List UInt16} :
    Paired (unit :: rest) ↔ isLeading unit = trailingAt rest 0 ∧ Paired rest := by
  constructor
  · intro h
    exact ⟨h 0, fun index => h (index + 1)⟩
  · rintro ⟨hfirst, hrest⟩ (_ | index)
    · exact hfirst
    · exact hrest index

theorem WellFormed.paired {codes : List UInt16} (h : WellFormed codes) :
    trailingAt codes 0 = false ∧ Paired codes := by
  induction h with
  | nil => exact ⟨rfl, fun _ => rfl⟩
  | single hleading htrailing _ ih =>
    exact ⟨htrailing, paired_cons_iff.mpr ⟨hleading.trans ih.1.symm, ih.2⟩⟩
  | pair hleading htrailing _ ih =>
    have hfirst := isTrailing_eq_false_of_isLeading hleading
    have hsecond := isLeading_eq_false_of_isTrailing htrailing
    exact ⟨hfirst, paired_cons_iff.mpr ⟨hleading.trans htrailing.symm,
      paired_cons_iff.mpr ⟨hsecond.trans ih.1.symm, ih.2⟩⟩⟩

/-- The cases are those of the decoder, which stops at a unit that stands alone. -/
theorem wellFormed_of_paired (before : List Char) {codes : List UInt16}
    (hfirst : trailingAt codes 0 = false) (h : Paired codes) : WellFormed codes := by
  fun_induction decodeOnto before codes with
  | case1 => exact .nil
  | case2 before unit hleading =>
    rw [(paired_cons_iff.mp h).1] at hleading
    cases hleading
  | case3 before unit hleading next rest htrailing ih =>
    obtain ⟨-, h⟩ := paired_cons_iff.mp h
    obtain ⟨hnext, h⟩ := paired_cons_iff.mp h
    rw [isLeading_eq_false_of_isTrailing htrailing] at hnext
    exact .pair hleading htrailing (ih hnext.symm h)
  | case4 before unit hleading next rest htrailing =>
    rw [(paired_cons_iff.mp h).1] at hleading
    exact absurd hleading htrailing
  | case5 before unit rest hleading htrailing =>
    rw [show isTrailing unit = false from hfirst] at htrailing
    cases htrailing
  | case6 before unit rest hleading htrailing ih =>
    obtain ⟨hunit, h⟩ := paired_cons_iff.mp h
    rw [Bool.not_eq_true] at hleading htrailing
    exact .single hleading htrailing (ih (hunit.symm.trans hleading) h)

/-- A unit of a pair stands alone: the first one is a trailing unit, or a leading unit has no
trailing one behind it, or a trailing unit no leading one in front of it. -/
def Unpaired (codes : List UInt16) : Prop :=
  trailingAt codes 0 = true ∨ ∃ index, leadingAt codes index ≠ trailingAt codes (index + 1)

theorem not_wellFormed_iff {codes : List UInt16} : ¬ WellFormed codes ↔ Unpaired codes := by
  have h : WellFormed codes ↔ trailingAt codes 0 = false ∧ Paired codes :=
    ⟨WellFormed.paired, fun h => wellFormed_of_paired [] h.1 h.2⟩
  rw [h, not_and_or, Bool.not_eq_false, Paired, not_forall, Unpaired]

end Utf16

end ManagedPdb
