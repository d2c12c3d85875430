import ManagedPdb.Proofs.Cursor.Runs
import ManagedPdb.Proofs.Machine.Field

/-!
# Aligning a cursor

The place that a cursor is aligned to comes from a sum of words of which the low bits are cleared.
For a power of two it is the least multiple that is not in front of the position
(`LeastMultiple.alignUp`), as long as the sum fits into a word.  It always does: the position is in
a buffer, no buffer takes half of all addresses, and the greatest power of two in a word is half of
what a word can count.  The main statement is `align_exact`.
-/

namespace ManagedPdb

/-! ### Least multiples -/

/-- The first multiple of `alignment` from `position` on. -/
structure LeastMultiple (alignment position target : Nat) : Prop where
  dvd : alignment ∣ target
  le : position ≤ target
  least : ∀ place, alignment ∣ place → position ≤ place → target ≤ place

namespace LeastMultiple

variable {alignment position left right : Nat}

theorem unique (hleft : LeastMultiple alignment position left)
    (hright : LeastMultiple alignment position right) : left = right :=
  Nat.le_antisymm (hleft.least right hright.dvd hright.le) (hright.least left hleft.dvd hleft.le)

/-- A multiple is the first one from itself on. -/
theorem self (h : alignment ∣ position) : LeastMultiple alignment position position :=
  ⟨h, Nat.le_refl _, fun _ _ hle => hle⟩

/-- The first multiple is behind as many whole steps as fit, rounded up. -/
theorem mul_div (hpos : 0 < alignment) (position : Nat) :
    LeastMultiple alignment position
      (alignment * ((position + alignment - 1) / alignment)) where
  dvd := Nat.dvd_mul_right _ _
  le := by
    have hparts := Nat.div_add_mod (position + alignment - 1) alignment
    have hrest := Nat.mod_lt (position + alignment - 1) hpos
    omega
  least := by
    rintro _ ⟨steps, rfl⟩ hle
    refine Nat.mul_le_mul_left alignment (Nat.le_of_lt_succ ?_)
    rw [Nat.div_lt_iff_lt_mul hpos, Nat.succ_mul, Nat.mul_comm steps]
    omega

/-- The bit trick gives the first multiple of a power of two, if the sum fits into a word. -/
theorem alignUp {bits : Nat} (hbits : bits < 64) (hsum : position + 2 ^ bits ≤ 2 ^ 64) :
    LeastMultiple (2 ^ bits) position
      (Reader.alignUp (UInt64.ofNat position) (UInt64.ofNat (2 ^ bits))).toNat := by
  rw [Reader.toNat_alignUp hbits hsum]
  exact mul_div (Nat.two_pow_pos bits) position

end LeastMultiple

/-- A power of two that fits into a word is at most half of what a word can count. -/
theorem exists_bits_of_isPowerOfTwo {alignment : Nat} (power : alignment.isPowerOfTwo)
    (fits : alignment < 2 ^ 64) :
    ∃ bits < 64, alignment = 2 ^ bits ∧ alignment ≤ 2 ^ 63 := by
  obtain ⟨bits, rfl⟩ := power
  have hbits : bits < 64 := (Nat.pow_lt_pow_iff_right (by decide)).mp fits
  exact ⟨bits, hbits, rfl, Nat.pow_le_pow_right (by decide) (by omega)⟩

/-! ### Cursors -/

namespace Cursor

variable {cursor : Cursor} {alignment : Nat}

/-- The sum of a position and an alignment fits into a word. -/
theorem position_add_lt (valid : Valid cursor) (addressable : cursor.buffer.size < 2 ^ 63)
    (half : alignment ≤ 2 ^ 63) : cursor.position + alignment < 2 ^ 64 := by
  have hposition := valid.position_le
  have hlength := valid.length_le
  omega

/-- The cursor moves to the place, or stays if that is behind the end. -/
theorem run_align (valid : Valid cursor) {target : Nat}
    (htarget : (Reader.alignUp (UInt64.ofNat cursor.position) (UInt64.ofNat alignment)).toNat
      = target) :
    cursor.run (Reader.align alignment) = if target ≤ cursor.length then
      (.ok (), { cursor with position := target })
    else (.error (.ofKindAt .unexpectedEnd target), cursor) := by
  rw [run, Reader.align, htarget, Reader.seek, valid.size_content]
  by_cases hinside : target ≤ cursor.length
  · rw [if_pos hinside, if_pos hinside]
  · rw [if_neg hinside, if_neg hinside]

/-- The operations of a machine go to the place of the bit trick, if none of them overflows. -/
theorem machine_align {bits : Nat} (hsum : cursor.position + 2 ^ bits < 2 ^ 64) :
    Machine.align (2 ^ bits) cursor
      = Machine.seek (Reader.alignUp (UInt64.ofNat cursor.position)
          (UInt64.ofNat (2 ^ bits))).toNat cursor := by
  have hpos : 0 < 2 ^ bits := Nat.two_pow_pos bits
  have hpower : 2 ^ bits ≠ 0 ∧ 2 ^ bits &&& (2 ^ bits - 1) = 0 :=
    ⟨Nat.ne_of_gt hpos, by rw [Nat.and_two_pow_sub_one_eq_mod, Nat.mod_self]⟩
  have hmask : UInt64.ofNat (cursor.position + 2 ^ bits - 1) &&& ~~~ UInt64.ofNat (2 ^ bits - 1)
      = Reader.alignUp (UInt64.ofNat cursor.position) (UInt64.ofNat (2 ^ bits)) := by
    rw [Reader.alignUp, UInt64.ofNat_sub (by omega), UInt64.ofNat_sub hpos, UInt64.ofNat_add]
    rfl
  rw [Machine.align, Machine.lift_bind (Checked.require_eq hpower), Machine.bind_of_ok rfl,
    Machine.lift_bind (Checked.add_eq hsum), Machine.lift_bind (Checked.sub_eq (by omega)),
    Machine.lift_bind (Checked.sub_eq hpos), hmask]

/-- A cursor is aligned to the least multiple of a power of two that is not in front of its
position.  If that is behind the end, this fails and the cursor stays.  The sum on the way fits into
a word, so that no operation of a machine faults, and aligning again changes nothing. -/
theorem align_exact (valid : Valid cursor) (addressable : cursor.buffer.size < 2 ^ 63)
    (power : alignment.isPowerOfTwo) (fits : alignment < 2 ^ 64) :
    (∃ target, LeastMultiple alignment cursor.position target ∧
      cursor.run (Reader.align alignment) = if target ≤ cursor.length then
        (.ok (), { cursor with position := target })
      else (.error (.ofKindAt .unexpectedEnd target), cursor)) ∧
    cursor.position + alignment < 2 ^ 64 ∧
    Machine.align alignment cursor = some (cursor.run (Reader.align alignment)) ∧
    (cursor.run (Reader.align alignment)).2.run (Reader.align alignment)
      = cursor.run (Reader.align alignment) := by
  obtain ⟨bits, hbits, rfl, half⟩ := exists_bits_of_isPowerOfTwo power fits
  have hsum := position_add_lt valid addressable half
  generalize htarget :
    (Reader.alignUp (UInt64.ofNat cursor.position) (UInt64.ofNat (2 ^ bits))).toNat = target
  have hleast : LeastMultiple (2 ^ bits) cursor.position target :=
    htarget ▸ .alignUp hbits (Nat.le_of_lt hsum)
  have hrun := run_align valid htarget
  refine ⟨⟨target, hleast, hrun⟩, hsum, ?machine, ?again⟩
  case machine =>
    rw [machine_align hsum, htarget, hrun, Machine.seek]
    by_cases hinside : target ≤ cursor.length
    · rw [if_pos hinside, if_pos hinside]
    · rw [if_neg hinside, if_neg hinside]
  case again =>
    by_cases hinside : target ≤ cursor.length
    · -- the cursor stands at a multiple, which is the first one from there on
      rw [hrun, if_pos hinside]
      have hmoved : Valid { cursor with position := target } := ⟨hinside, valid.length_le⟩
      have hmovedSum : target + 2 ^ bits < 2 ^ 64 := position_add_lt hmoved addressable half
      have hsame := (LeastMultiple.alignUp hbits (Nat.le_of_lt hmovedSum)).unique
        (.self hleast.dvd)
      rw [run_align hmoved hsame, if_pos hinside]
    · rw [hrun, if_neg hinside, hrun, if_neg hinside]

/-- Nine bytes into sixteen, the next multiple of eight is the end.  The greatest power of two in a
word is behind it, and the sum just fits. -/
theorem align_exact_sixteenBytes :
    let cursor : Cursor := ⟨Bytes.zeros 16, 16, 9⟩
    Valid cursor ∧ cursor.buffer.size < 2 ^ 63 ∧
      ((2 ^ 3).isPowerOfTwo ∧ 2 ^ 3 < 2 ^ 64 ∧
        cursor.run (Reader.align (2 ^ 3)) = (.ok (), { cursor with position := 16 })) ∧
      ((2 ^ 63).isPowerOfTwo ∧ 2 ^ 63 < 2 ^ 64 ∧ cursor.position + 2 ^ 63 < 2 ^ 64 ∧
        cursor.run (Reader.align (2 ^ 63))
          = (.error (.ofKindAt .unexpectedEnd (2 ^ 63)), cursor)) := by
  intro cursor
  have valid : Valid cursor := ⟨by decide, by decide⟩
  have addressable : cursor.buffer.size < 2 ^ 63 := by decide
  refine ⟨valid, addressable, ⟨⟨3, rfl⟩, by decide, ?_⟩, ⟨63, rfl⟩, by decide, ?_⟩
  · obtain ⟨⟨target, htarget, hrun⟩, -⟩ := align_exact valid addressable ⟨3, rfl⟩ (by decide)
    have hsixteen : LeastMultiple (2 ^ 3) 9 16 :=
      ⟨by decide, by decide, fun place hdvd hle => by omega⟩
    rw [hrun, htarget.unique hsixteen]
    rfl
  · obtain ⟨⟨target, htarget, hrun⟩, hsum, -⟩ :=
      align_exact valid addressable ⟨63, rfl⟩ (by decide)
    have hhalf : LeastMultiple (2 ^ 63) 9 (2 ^ 63) :=
      ⟨Nat.dvd_refl _, by decide, fun place hdvd hle => Nat.le_of_dvd (by omega) hdvd⟩
    refine ⟨hsum, ?_⟩
    rw [hrun, htarget.unique hhalf]
    rfl

end Cursor

end ManagedPdb
