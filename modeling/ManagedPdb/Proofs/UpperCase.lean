import ManagedPdb.Text.Upper
import Mathlib.Algebra.Ring.Nat
import Mathlib.Tactic.Common

/-!
# Upper case of upper case

The upper-case form of a text is its own upper-case form (`Upper.ofString_ofString`).  That is a
fact about the tables: no image of a run or an expansion lies in a run, starts an expansion or is
a small ASCII letter.  Runs are compared as ranges (`Upper.apart`), so that the check does not
visit the characters one by one.
-/

namespace ManagedPdb.Upper

/-! ### Runs and their images -/

/-- The small ASCII letters as a run. -/
def asciiRun : Nat × Nat × Nat × Int := (0x61, 0x7a, 1, -32)

/-- A single code point as a run that sends it to itself. -/
def point (code : Nat) : Nat × Nat × Nat × Int := (code, code, 1, 0)

/-- All that some mapping changes. -/
def changed : List (Nat × Nat × Nat × Int) :=
  asciiRun :: (runs ++ expansions.map fun expansion => point expansion.1)

/-- All that some mapping gives, as the images of runs. -/
def given : List (Nat × Nat × Nat × Int) :=
  asciiRun :: (runs ++ (expansions.flatMap (·.2)).eraseDups.map point)

def lowImage (run : Nat × Nat × Nat × Int) : Nat := (run.1 + run.2.2.2).toNat

def highImage (run : Nat × Nat × Nat × Int) : Nat := (run.2.1 + run.2.2.2).toNat

/-- The images of a run are characters. -/
def hasCharImages (run : Nat × Nat × Nat × Int) : Bool :=
  decide ((0 : Int) ≤ run.1 + run.2.2.2)
    && (Nat.blt (highImage run) 0xd800
      || Nat.blt 0xdfff (lowImage run) && Nat.blt (highImage run) 0x110000)

/-- No image of the run is covered by the other: the ranges do not meet, or the other one covers
every second code point and the images are those in between. -/
def apart (run other : Nat × Nat × Nat × Int) : Bool :=
  Nat.blt other.2.1 (lowImage run) || Nat.blt (highImage run) other.1
    || other.2.2.1 == 2 && (run.2.2.1 == 2 || run.1 == run.2.1)
      && (lowImage run + other.1) % 2 == 1

theorem given_apart_changed :
    given.all (fun run => hasCharImages run && changed.all (apart run)) = true := by
  decide +kernel

theorem changed_of_ascii :
    changed.all (fun run => run == asciiRun || Nat.ble 0x80 run.1) = true := by
  decide +kernel

theorem covers_iff {run : Nat × Nat × Nat × Int} {code : Nat} :
    covers run code = true ↔
      run.1 ≤ code ∧ code ≤ run.2.1 ∧ (code - run.1) % run.2.2.1 = 0 := by
  simp [covers, and_assoc]

/-- What `apart` checks. -/
theorem not_covers_of_apart {run other : Nat × Nat × Nat × Int} {code : Nat}
    (hchars : hasCharImages run = true) (hapart : apart run other = true)
    (h : covers run code = true) : covers other (code + run.2.2.2).toNat = false := by
  obtain ⟨first, last, stride, shift⟩ := run
  obtain ⟨first', last', stride', shift'⟩ := other
  obtain ⟨hlow, hhigh, hstride⟩ := covers_iff.mp h
  rw [hasCharImages, Bool.and_eq_true, decide_eq_true_iff] at hchars
  have hpositive := hchars.1
  rw [Bool.eq_false_iff, Ne, covers_iff]
  rintro ⟨hlow', hhigh', hstride'⟩
  simp only [apart, lowImage, highImage, Bool.or_eq_true, Bool.and_eq_true, Nat.blt_eq,
    beq_iff_eq] at hapart
  dsimp only at *
  rcases hapart with (hbehind | hbefore) | ⟨⟨htwo, hown⟩, hodd⟩
  · omega
  · omega
  · subst htwo
    rcases hown with rfl | hsingle
    · omega
    · omega

/-! ### Code points without a mapping -/

/-- The code point is a character that no mapping changes. -/
structure IsFixed (code : Nat) : Prop where
  valid : code.isValidChar
  free : ∀ run ∈ changed, covers run code = false

theorem toNat_ofNat {code : Nat} (valid : code.isValidChar) : (Char.ofNat code).toNat = code := by
  rw [Char.ofNat, dif_pos valid]
  rfl

theorem isFixed_image {run : Nat × Nat × Nat × Int} (member : run ∈ given) {code : Nat}
    (h : covers run code = true) : IsFixed (code + run.2.2.2).toNat := by
  have hrun := List.all_eq_true.mp given_apart_changed run member
  rw [Bool.and_eq_true] at hrun
  obtain ⟨hchars, hapart⟩ := hrun
  refine ⟨?_, fun other hother =>
    not_covers_of_apart hchars (List.all_eq_true.mp hapart other hother) h⟩
  obtain ⟨first, last, stride, shift⟩ := run
  obtain ⟨hlow, hhigh, -⟩ := covers_iff.mp h
  simp only [hasCharImages, lowImage, highImage, Bool.and_eq_true, Bool.or_eq_true,
    decide_eq_true_iff, Nat.blt_eq] at hchars
  dsimp only at *
  unfold Nat.isValidChar
  omega

theorem mem_changed_of_run {run : Nat × Nat × Nat × Int} (member : run ∈ runs) :
    run ∈ changed := by
  simp [changed, member]

theorem mem_changed_of_expansion {expansion : Nat × List Nat} (member : expansion ∈ expansions) :
    point expansion.1 ∈ changed := by
  refine List.mem_cons_of_mem _ (List.mem_append_right _ ?_)
  exact List.mem_map.mpr ⟨expansion, member, rfl⟩

theorem covers_asciiRun_iff {code : Nat} :
    covers asciiRun code = true ↔ 0x61 ≤ code ∧ code ≤ 0x7a := by
  simp [covers_iff, asciiRun, Nat.mod_one]

theorem asciiUpper_eq (char : Char) :
    asciiUpper char
      = if covers asciiRun char.toNat then Char.ofNat (char.toNat - 32) else char := by
  have hiff : ('a' ≤ char && char ≤ 'z') = covers asciiRun char.toNat := by
    rw [Bool.eq_iff_iff, covers_asciiRun_iff, Bool.and_eq_true, decide_eq_true_iff,
      decide_eq_true_iff, Char.le_def, Char.le_def]
    exact and_congr UInt32.le_iff_toNat_le UInt32.le_iff_toNat_le
  rw [asciiUpper, hiff]

/-! ### Characters -/

theorem ofChar_of_isFixed {char : Char} (fixed : IsFixed char.toNat) : ofChar char = [char] := by
  have hruns : runs.find? (covers · char.toNat) = none := by
    rw [List.find?_eq_none]
    exact fun run member => by simp [fixed.free run (mem_changed_of_run member)]
  have hexpansions : expansions.find? (·.1 == char.toNat) = none := by
    rw [List.find?_eq_none]
    intro expansion member heq
    have hfree := fixed.free _ (mem_changed_of_expansion member)
    rw [Bool.eq_false_iff, Ne, covers_iff, beq_iff_eq.mp heq] at hfree
    exact hfree (by simp [point])
  have hascii : asciiUpper char = char := by
    rw [asciiUpper_eq, fixed.free asciiRun (by simp [changed])]
    rfl
  unfold ofChar
  simp only [hruns, hexpansions, hascii]
  split <;> rfl

/-- An ASCII character that is no small letter is not changed. -/
theorem isFixed_of_ascii {char : Char} (hascii : char.toNat < 0x80)
    (hlower : covers asciiRun char.toNat = false) : IsFixed char.toNat := by
  refine ⟨char.valid, ?_⟩
  intro run member
  have hrun := List.all_eq_true.mp changed_of_ascii run member
  rw [Bool.or_eq_true, beq_iff_eq, Nat.ble_eq] at hrun
  rcases hrun with rfl | hrun
  · exact hlower
  · rw [Bool.eq_false_iff, Ne, covers_iff]
    omega

theorem isFixed_ofNat_image {run : Nat × Nat × Nat × Int} (member : run ∈ given) {code image : Nat}
    (h : covers run code = true) (himage : image = (code + run.2.2.2).toNat) :
    IsFixed (Char.ofNat image).toNat := by
  have hfixed := isFixed_image member h
  rw [← himage] at hfixed
  rwa [toNat_ofNat hfixed.valid]

/-- What a mapping gives is not changed again. -/
theorem isFixed_of_mem_ofChar {char image : Char} (member : image ∈ ofChar char) :
    IsFixed image.toNat := by
  unfold ofChar at member
  dsimp only at member
  by_cases hascii : char.toNat < 0x80
  · rw [if_pos hascii, List.mem_singleton, asciiUpper_eq] at member
    subst member
    cases hlower : covers asciiRun char.toNat with
    | true =>
      refine isFixed_ofNat_image (List.mem_cons_self : asciiRun ∈ given) hlower ?_
      show char.toNat - 32 = ((char.toNat : Int) + -32).toNat
      omega
    | false => exact isFixed_of_ascii hascii hlower
  rw [if_neg hascii] at member
  cases hrun : runs.find? (covers · char.toNat) with
  | some run =>
    rw [hrun, List.mem_singleton] at member
    subst member
    have hgiven : run ∈ given := by simp [given, List.mem_of_find?_eq_some hrun]
    have hcovers : covers run char.toNat = true := by simpa using List.find?_some hrun
    exact isFixed_ofNat_image hgiven hcovers rfl
  | none =>
    rw [hrun] at member
    cases hexpansion : expansions.find? (·.1 == char.toNat) with
    | some expansion =>
      rw [hexpansion] at member
      obtain ⟨code, hcode, rfl⟩ := List.mem_map.mp member
      have hgiven : point code ∈ given := by
        refine List.mem_cons_of_mem _ (List.mem_append_right _ (List.mem_map_of_mem ?_))
        exact List.mem_eraseDups.mpr
          (List.mem_flatMap_of_mem (List.mem_of_find?_eq_some hexpansion) hcode)
      have hcovers : covers (point code) code = true := by simp [covers_iff, point]
      exact isFixed_ofNat_image hgiven hcovers (by simp [point])
    | none =>
      rw [hexpansion, List.mem_singleton] at member
      subst member
      refine ⟨image.valid, ?_⟩
      intro run hchanged
      rcases List.mem_cons.mp hchanged with rfl | hchanged
      · rw [Bool.eq_false_iff, Ne, covers_asciiRun_iff]
        omega
      rcases List.mem_append.mp hchanged with hruns | hexpansions
      · simpa using List.find?_eq_none.mp hrun run hruns
      · obtain ⟨expansion, hmember, rfl⟩ := List.mem_map.mp hexpansions
        have hne := List.find?_eq_none.mp hexpansion expansion hmember
        rw [beq_iff_eq] at hne
        rw [Bool.eq_false_iff, Ne, covers_iff]
        simp only [point]
        omega

theorem flatMap_ofChar_of_isFixed {chars : List Char}
    (fixed : ∀ char ∈ chars, IsFixed char.toNat) : chars.flatMap ofChar = chars := by
  induction chars with
  | nil => rfl
  | cons char chars ih =>
    rw [List.flatMap_cons, ofChar_of_isFixed (fixed char (by simp)),
      ih fun char member => fixed char (List.mem_cons_of_mem _ member)]
    rfl

/-! ### Texts -/

theorem ofString_append (left right : String) :
    ofString (left ++ right) = ofString left ++ ofString right := by
  simp [ofString, String.ofList_append]

/-- Upper case is taken once. -/
theorem ofString_ofString (text : String) : ofString (ofString text) = ofString text := by
  unfold ofString
  rw [String.toList_ofList, List.flatMap_assoc]
  congr 2
  funext char
  exact flatMap_ofChar_of_isFixed fun _ member => isFixed_of_mem_ofChar member

end ManagedPdb.Upper
