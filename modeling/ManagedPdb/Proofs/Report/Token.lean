import ManagedPdb.Report
import Mathlib.Tactic.IntervalCases
import Mathlib.Data.List.Basic

/-!
# Tokens that are read back

A token that was printed is the same token again when it is read, and so is any other spelling of
it: with more marks or none, with a plus sign, in upper case, with less leading zeros
(`Report.parseToken_text`).  Reading goes over the digits from the front, so the value of a row of
digits (`Report.valueOnto?`) is built up behind the value so far.
-/

namespace ManagedPdb

namespace Hex

theorem digits_of_lt {value : Nat} (h : value < 16) : digits value = [digit value] := by
  rw [digits, if_pos h]

theorem digits_of_le {value : Nat} (h : 16 ≤ value) :
    digits value = digits (value / 16) ++ [digit (value % 16)] := by
  rw [digits, if_neg (Nat.not_lt.mpr h)]

theorem padded_ne_nil (width value : Nat) : padded width value ≠ [] := by
  rcases Nat.lt_or_ge value 16 with h | h
  · simp [padded, digits_of_lt h]
  · simp [padded, digits_of_le h]

theorem toLower_digit {value : Nat} (h : value < 16) : (digit value).toLower = digit value := by
  interval_cases value <;> decide

theorem map_toLower_digits (value : Nat) : (digits value).map Char.toLower = digits value := by
  induction value using digits.induct with
  | case1 value h => rw [digits_of_lt h, List.map_singleton, toLower_digit h]
  | case2 value h ih =>
    rw [digits_of_le (Nat.not_lt.mp h), List.map_append, ih, List.map_singleton,
      toLower_digit (Nat.mod_lt _ (by decide))]

theorem map_toLower_padded (width value : Nat) :
    (padded width value).map Char.toLower = padded width value := by
  rw [padded, List.map_append, map_toLower_digits, List.map_replicate]
  rfl

end Hex

namespace Report

/-! ### Digits -/

theorem digitValue?_digit {value : Nat} (h : value < 16) :
    digitValue? (Hex.digit value) = some value := by
  interval_cases value <;> decide

/-- The case of a digit does not matter. -/
theorem digitValue?_toLower (char : Char) : digitValue? char.toLower = digitValue? char := by
  by_cases hupper : 'A'.val ≤ char.val ∧ char.val ≤ 'Z'.val
  · have hletters : ∀ place < 26, digitValue? (Char.ofNat (65 + place)).toLower
        = digitValue? (Char.ofNat (65 + place)) := by decide
    have hlow : 65 ≤ char.toNat := UInt32.le_iff_toNat_le.mp hupper.1
    have hhigh : char.toNat ≤ 90 := UInt32.le_iff_toNat_le.mp hupper.2
    have hchar := hletters (char.toNat - 65) (by omega)
    rwa [Nat.add_sub_cancel' hlow, Char.ofNat_toNat] at hchar
  · have hsame : char.toLower = char := dif_neg hupper
    rw [hsame]

/-- The number whose digits are those of `value` and the given ones, if all of them are digits. -/
def valueOnto? (value : Nat) (chars : List Char) : Option Nat :=
  chars.foldlM (fun value char => (digitValue? char).map (16 * value + ·)) value

variable {value number : Nat} {char : Char} {chars : List Char}

theorem valueOnto?_append (value : Nat) (chars others : List Char) :
    valueOnto? value (chars ++ others)
      = (valueOnto? value chars).bind (valueOnto? · others) :=
  List.foldlM_append

theorem valueOnto?_cons_eq_some (h : valueOnto? value (char :: chars) = some number) :
    ∃ digit, digitValue? char = some digit ∧
      valueOnto? (16 * value + digit) chars = some number := by
  rw [valueOnto?, List.foldlM_cons] at h
  obtain ⟨next, hnext, hrest⟩ := Option.bind_eq_some_iff.mp h
  obtain ⟨digit, hdigit, rfl⟩ := Option.map_eq_some_iff.mp hnext
  exact ⟨digit, hdigit, hrest⟩

theorem le_of_valueOnto? (h : valueOnto? value chars = some number) : value ≤ number := by
  induction chars generalizing value with
  | nil => exact (Option.some.inj h).le
  | cons char chars ih =>
    obtain ⟨digit, -, hrest⟩ := valueOnto?_cons_eq_some h
    have hle := ih hrest
    omega

/-- A number of 32 bits is read from its digits. -/
theorem digitsOnto_of_valueOnto? (h : valueOnto? value chars = some number)
    (hlt : number < 2 ^ 32) : digitsOnto value chars = .ok (UInt32.ofNat number) := by
  induction chars generalizing value with
  | nil => rw [digitsOnto, Option.some.inj h]
  | cons char chars ih =>
    obtain ⟨digit, hdigit, hrest⟩ := valueOnto?_cons_eq_some h
    have hfits : 16 * value + digit < UInt32.size := (le_of_valueOnto? hrest).trans_lt hlt
    rw [digitsOnto, hdigit]
    show (if 16 * value + digit < UInt32.size then _ else _) = _
    rw [if_pos hfits, ih hrest]

theorem valueOnto?_map_toLower (value : Nat) (chars : List Char) :
    valueOnto? value (chars.map Char.toLower) = valueOnto? value chars := by
  simp only [valueOnto?, List.foldlM_map, digitValue?_toLower]

theorem valueOnto?_zeros (count : Nat) : valueOnto? 0 (List.replicate count '0') = some 0 := by
  induction count with
  | zero => rfl
  | succ count ih => exact ih

theorem valueOnto?_digits (value : Nat) : valueOnto? 0 (Hex.digits value) = some value := by
  have hsingle : ∀ front digit, digit < 16 →
      valueOnto? front [Hex.digit digit] = some (16 * front + digit) := by
    intro front digit h
    simp [valueOnto?, digitValue?_digit h]
  induction value using Hex.digits.induct with
  | case1 value h => rw [Hex.digits_of_lt h, hsingle 0 value h, Nat.mul_zero, Nat.zero_add]
  | case2 value h ih =>
    rw [Hex.digits_of_le (Nat.not_lt.mp h), valueOnto?_append, ih, Option.bind_some,
      hsingle _ _ (Nat.mod_lt _ (by decide)), Nat.div_add_mod]

theorem valueOnto?_padded (width value : Nat) :
    valueOnto? 0 (Hex.padded width value) = some value := by
  rw [Hex.padded, valueOnto?_append, valueOnto?_zeros]
  exact valueOnto?_digits value

/-- Numbers that are written alike are equal. -/
theorem marked_inj {width value value' : Nat} :
    Hex.marked width value = Hex.marked width value' ↔ value = value' := by
  refine ⟨fun h => ?_, fun h => h ▸ rfl⟩
  have hchars : Hex.padded width value = Hex.padded width value' := by
    simpa [Hex.marked] using congrArg String.toList h
  have hvalue := valueOnto?_padded width value
  rw [hchars, valueOnto?_padded] at hvalue
  exact (Option.some.inj hvalue).symm

/-! ### Marks and signs -/

theorem dropMarks_marks (marks : Nat) (chars : List Char) :
    dropMarks ((List.replicate marks ['0', 'x']).flatten ++ chars) = dropMarks chars := by
  induction marks with
  | zero => rfl
  | succ marks ih => exact ih

theorem dropMarks_sign (chars : List Char) : dropMarks ('+' :: chars) = '+' :: chars := rfl

/-- Digits have no mark in front, as `x` is no digit. -/
theorem dropMarks_digits (h : valueOnto? value chars = some number) : dropMarks chars = chars := by
  refine dropMarks.eq_2 chars fun rest hmark => ?_
  subst hmark
  obtain ⟨_, -, hrest⟩ := valueOnto?_cons_eq_some h
  obtain ⟨digit, hx, -⟩ := valueOnto?_cons_eq_some hrest
  have hnone : digitValue? 'x' = none := by decide
  rw [hnone] at hx
  cases hx

theorem unmarkedToken_signed (hne : chars ≠ []) :
    unmarkedToken ('+' :: chars) = digitsOnto 0 chars := by
  cases chars with
  | nil => exact absurd rfl hne
  | cons char chars => rfl

/-- Digits have no sign in front, as `+` is no digit. -/
theorem unmarkedToken_digits (hne : chars ≠ []) (h : valueOnto? value chars = some number) :
    unmarkedToken chars = digitsOnto 0 chars := by
  cases chars with
  | nil => exact absurd rfl hne
  | cons char chars =>
    obtain ⟨digit, hdigit, -⟩ := valueOnto?_cons_eq_some h
    have hsign : char ≠ '+' := by
      rintro rfl
      have hnone : digitValue? '+' = none := by decide
      rw [hnone] at hdigit
      cases hdigit
    rw [unmarkedToken] <;> simp [hsign]

/-! ### Spellings -/

/-- A way to write a token: some marks, a plus sign or none, and its eight digits in either case,
of which so many leading zeros are left out, but never all digits. -/
structure Spelling (token : UInt32) where
  marks : Nat
  signed : Bool
  zeros : Nat
  digits : List Char
  digits_ne_nil : digits ≠ []
  digits_eq : List.replicate zeros '0' ++ digits.map Char.toLower = Hex.padded 8 token.toNat

namespace Spelling

variable {token : UInt32}

def text (spelling : Spelling token) : String :=
  String.ofList ((List.replicate spelling.marks ['0', 'x']).flatten
    ++ ((if spelling.signed then ['+'] else []) ++ spelling.digits))

/-- The way in which reports write tokens. -/
def printed (token : UInt32) : Spelling token where
  marks := 1
  signed := false
  zeros := 0
  digits := Hex.padded 8 token.toNat
  digits_ne_nil := Hex.padded_ne_nil 8 token.toNat
  digits_eq := Hex.map_toLower_padded 8 token.toNat

theorem text_printed (token : UInt32) : (printed token).text = Report.token token := by
  apply String.toList_inj.mp
  simp [text, printed, Report.token, Hex.marked]

theorem valueOnto?_spelling (spelling : Spelling token) :
    valueOnto? 0 spelling.digits = some token.toNat := by
  have hpadded := valueOnto?_padded 8 token.toNat
  rw [← spelling.digits_eq, valueOnto?_append, valueOnto?_zeros, Option.bind_some,
    valueOnto?_map_toLower] at hpadded
  exact hpadded

end Spelling

/-- Every spelling of a token is read as that token. -/
theorem parseToken_text {token : UInt32} (spelling : Spelling token) :
    parseToken spelling.text = .ok token := by
  have hvalue := spelling.valueOnto?_spelling
  have hdigits : digitsOnto 0 spelling.digits = .ok token := by
    rw [digitsOnto_of_valueOnto? hvalue token.toNat_lt, UInt32.ofNat_toNat]
  rw [parseToken, Spelling.text, String.toList_ofList, dropMarks_marks]
  cases spelling.signed with
  | true =>
    show unmarkedToken (dropMarks ('+' :: spelling.digits)) = _
    rw [dropMarks_sign, unmarkedToken_signed spelling.digits_ne_nil, hdigits]
  | false =>
    show unmarkedToken (dropMarks spelling.digits) = _
    rw [dropMarks_digits hvalue, unmarkedToken_digits spelling.digits_ne_nil hvalue, hdigits]

end Report

end ManagedPdb
