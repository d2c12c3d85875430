import ManagedPdb.Bytes
import Mathlib.Algebra.Ring.Nat
import Mathlib.Tactic.Common

/-!
# Laws of bytes

Sizes and parts of the byte arrays that the writers put together.  Everything is reduced to `++`
and `extract`, for which the library has lemmas: a concatenation is a fold of `++`, and resized
bytes are an extract with zeros behind it.
-/

namespace ManagedPdb.Bytes

/-! ### Sizes -/

@[simp] theorem size_zeros (count : Nat) : (zeros count).size = count := by
  simp [zeros, ByteArray.size]

@[simp] theorem size_resize (bytes : ByteArray) (size : Nat) : (resize bytes size).size = size := by
  simp only [resize, ByteArray.size_append, ByteArray.size_extract, size_zeros]
  omega

@[simp] theorem size_padded (bytes : ByteArray) :
    (padded bytes).size = bytes.size + (4 - bytes.size % 4) % 4 := by
  rw [padded, ByteArray.size_append, size_zeros]

/-! ### Bytes at an index -/

theorem byteAt_append {left right : ByteArray} {index : Nat} :
    byteAt (left ++ right) index
      = if index < left.size then byteAt left index else byteAt right (index - left.size) := by
  unfold byteAt
  by_cases hinside : index < (left ++ right).size
  · have hsum := hinside
    rw [ByteArray.size_append] at hsum
    rw [dif_pos hinside]
    split
    · next hleft => exact ByteArray.getElem_append_left hleft
    · next hright =>
      rw [dif_pos (by omega)]
      exact ByteArray.getElem_append_right (by omega)
  · rw [ByteArray.size_append] at hinside
    rw [dif_neg (by rw [ByteArray.size_append]; exact hinside), if_neg (by omega),
      dif_neg (by omega)]

theorem byteAt_extract {content : ByteArray} {start stop index : Nat} :
    byteAt (content.extract start stop) index
      = if start + index < stop then byteAt content (start + index) else 0 := by
  have hsize : (content.extract start stop).size = min stop content.size - start :=
    ByteArray.size_extract
  unfold byteAt
  by_cases hinside : index < (content.extract start stop).size
  · rw [dif_pos hinside, if_pos (by omega), dif_pos (by omega), ByteArray.getElem_extract]
  · rw [dif_neg hinside]
    split
    · rw [dif_neg (by omega)]
    · rfl

theorem ext_byteAt {left right : ByteArray} (hsize : left.size = right.size)
    (hbytes : ∀ index < left.size, byteAt left index = byteAt right index) : left = right := by
  refine ByteArray.ext_getElem hsize fun index hleft hright => ?_
  have hbyte := hbytes index hleft
  rwa [byteAt, byteAt, dif_pos hleft, dif_pos hright] at hbyte

/-! ### Concatenation -/

/-- A part of the left bytes is the same part of the whole. -/
theorem extract_append_left {left right : ByteArray} {low high : Nat} (inside : high ≤ left.size) :
    (left ++ right).extract low high = left.extract low high := by
  have hempty : right.extract (low - left.size) (high - left.size) = .empty :=
    ByteArray.extract_eq_empty_iff.mpr (by omega)
  rw [ByteArray.extract_append, hempty, ByteArray.append_empty]

/-- Starting the fold with `before` puts `before` in front. -/
theorem foldl_append (before : ByteArray) (pieces : List ByteArray) :
    pieces.foldl (· ++ ·) before = before ++ concat pieces := by
  induction pieces generalizing before with
  | nil => simp [concat]
  | cons piece rest ih =>
    show rest.foldl (· ++ ·) (before ++ piece) = before ++ rest.foldl (· ++ ·) (.empty ++ piece)
    rw [ih (before ++ piece), ih (.empty ++ piece), ByteArray.empty_append, ByteArray.append_assoc]

@[simp] theorem concat_nil : concat [] = ByteArray.empty := rfl

@[simp] theorem concat_cons (piece : ByteArray) (pieces : List ByteArray) :
    concat (piece :: pieces) = piece ++ concat pieces := by
  show pieces.foldl (· ++ ·) (.empty ++ piece) = _
  rw [foldl_append, ByteArray.empty_append]

theorem concat_append (left right : List ByteArray) :
    concat (left ++ right) = concat left ++ concat right := by
  rw [concat, List.foldl_append, foldl_append]
  rfl

/-- Among pieces of one size, the piece at an index starts at that multiple of the size. -/
theorem extract_concat {size : Nat} {pieces : List ByteArray}
    (sizes : ∀ piece ∈ pieces, piece.size = size) {index : Nat} {piece : ByteArray}
    (at_index : pieces[index]? = some piece) {low high : Nat} (inside : high ≤ size) :
    (concat pieces).extract (index * size + low) (index * size + high)
      = piece.extract low high := by
  induction pieces generalizing index with
  | nil => simp at at_index
  | cons first rest ih =>
    have hfirst : first.size = size := sizes first (by simp)
    rw [concat_cons]
    cases index with
    | zero =>
      simp only [List.getElem?_cons_zero, Option.some.injEq] at at_index
      subst at_index
      rw [Nat.zero_mul, Nat.zero_add, Nat.zero_add, extract_append_left (by omega)]
    | succ index =>
      rw [List.getElem?_cons_succ] at at_index
      rw [show (index + 1) * size + low = first.size + (index * size + low) by
            rw [hfirst, Nat.succ_mul]; omega,
          show (index + 1) * size + high = first.size + (index * size + high) by
            rw [hfirst, Nat.succ_mul]; omega,
          ByteArray.extract_append_size_add]
      exact ih (fun piece member => sizes piece (List.mem_cons_of_mem _ member)) at_index

/-- The concatenation of pieces of one size. -/
theorem size_concat_of_size {size : Nat} {pieces : List ByteArray}
    (sizes : ∀ piece ∈ pieces, piece.size = size) :
    (concat pieces).size = pieces.length * size := by
  induction pieces with
  | nil => simp
  | cons first rest ih =>
    rw [concat_cons, ByteArray.size_append, sizes first (by simp),
      ih fun piece member => sizes piece (List.mem_cons_of_mem _ member), List.length_cons,
      Nat.succ_mul, Nat.add_comm]

/-! ### Resizing -/

/-- A part that lies in the old bytes and in the new size is not changed by resizing. -/
theorem extract_resize (bytes : ByteArray) {size low high : Nat} (in_size : high ≤ size)
    (in_bytes : high ≤ bytes.size) :
    (resize bytes size).extract low high = bytes.extract low high := by
  rw [resize, extract_append_left (by rw [ByteArray.size_extract]; omega),
    ByteArray.extract_extract, Nat.zero_add, Nat.zero_add, Nat.min_eq_left in_size]

/-- Bytes that are not too many are filled up with zeros. -/
theorem resize_of_le {bytes : ByteArray} {size : Nat} (h : bytes.size ≤ size) :
    resize bytes size = bytes ++ zeros (size - bytes.size) := by
  have hwhole := @ByteArray.extract_zero_max_size bytes size
  rw [Nat.max_eq_left h] at hwhole
  rw [resize, hwhole]

/-- Resized bytes are a first part and the part behind it, resized to what is missing. -/
theorem resize_append_resize {bytes : ByteArray} {start : Nat} (size : Nat)
    (inside : start ≤ bytes.size) :
    resize bytes start ++ resize (bytes.extract start (start + size)) size
      = resize bytes (start + size) := by
  have hfirst : resize bytes start = bytes.extract 0 start := by
    rw [resize, Nat.sub_eq_zero_of_le inside]
    exact ByteArray.append_empty
  have hpiece : (bytes.extract start (start + size)).size ≤ size := by
    rw [ByteArray.size_extract]
    omega
  rw [hfirst, resize_of_le hpiece, ← ByteArray.append_assoc, ByteArray.extract_append_extract,
    ByteArray.size_extract, resize]
  congr 2 <;> omega

/-! ### Overwriting -/

/-- A piece of the same size takes the place of an old one. -/
theorem overwrite_append {before old after new : ByteArray} (hsize : new.size = old.size) :
    overwrite (before ++ old ++ after) before.size new = before ++ new ++ after := by
  have hbefore : (before ++ old ++ after).extract 0 before.size = before := by
    rw [ByteArray.append_assoc, ByteArray.extract_append_size_left, ByteArray.extract_zero_size]
  have hafter : (before ++ old ++ after).extract (before.size + new.size)
      (before ++ old ++ after).size = after := by
    rw [hsize, ← ByteArray.size_append, ByteArray.size_append (a := before ++ old)]
    exact ByteArray.extract_append_eq_right rfl rfl
  rw [overwrite, hbefore, hafter]

theorem size_overwrite {bytes piece : ByteArray} {start : Nat}
    (room : start + piece.size ≤ bytes.size) :
    (overwrite bytes start piece).size = bytes.size := by
  simp only [overwrite, ByteArray.size_append, ByteArray.size_extract]
  omega

/-- What is in front of a piece stays. -/
theorem extract_overwrite {bytes piece : ByteArray} {start : Nat}
    (room : start + piece.size ≤ bytes.size) :
    (overwrite bytes start piece).extract 0 (start + piece.size)
      = bytes.extract 0 start ++ piece := by
  have hsize : (bytes.extract 0 start ++ piece).size = start + piece.size := by
    rw [ByteArray.size_append, ByteArray.size_extract]
    omega
  rw [overwrite, ← hsize, extract_append_left (Nat.le_refl _), ByteArray.extract_zero_size]

theorem byteAt_overwrite {bytes piece : ByteArray} {start index : Nat}
    (room : start + piece.size ≤ bytes.size) :
    byteAt (overwrite bytes start piece) index
      = if start ≤ index ∧ index < start + piece.size then byteAt piece (index - start)
        else byteAt bytes index := by
  have hfront : (bytes.extract 0 start).size = start := by
    rw [ByteArray.size_extract]
    omega
  rw [overwrite, byteAt_append, byteAt_append, ByteArray.size_append, hfront]
  rcases Nat.lt_or_ge index start with hlt | hge
  · rw [if_pos (by omega), if_pos hlt, if_neg (by omega), byteAt_extract, Nat.zero_add, if_pos hlt]
  · rcases Nat.lt_or_ge index (start + piece.size) with hinside | hbehind
    · rw [if_pos hinside, if_neg (by omega), if_pos ⟨hge, hinside⟩]
    · rw [if_neg (by omega), if_neg (by omega), byteAt_extract, Nat.add_sub_cancel' hbehind]
      split
      · rfl
      · rw [byteAt, dif_neg (by omega)]

end ManagedPdb.Bytes

namespace ManagedPdb

/-! ### Pieces at a place -/

/-- The piece is a part of the content, from `start` on. -/
def StandsAt (piece content : ByteArray) (start : Nat) : Prop :=
  ∃ before after, content = before ++ piece ++ after ∧ before.size = start

namespace StandsAt

variable {piece left right content : ByteArray} {start : Nat}

theorem self (content : ByteArray) : StandsAt content content 0 :=
  ⟨.empty, .empty, by simp, rfl⟩

theorem append_left (h : StandsAt (left ++ right) content start) :
    StandsAt left content start := by
  obtain ⟨before, after, rfl, hbefore⟩ := h
  exact ⟨before, right ++ after, by simp only [ByteArray.append_assoc], hbefore⟩

theorem append_right (h : StandsAt (left ++ right) content start) :
    StandsAt right content (start + left.size) := by
  obtain ⟨before, after, rfl, hbefore⟩ := h
  exact ⟨before ++ left, after, by simp only [ByteArray.append_assoc],
    by rw [ByteArray.size_append, hbefore]⟩

theorem le_size (h : StandsAt piece content start) : start + piece.size ≤ content.size := by
  obtain ⟨before, after, rfl, hbefore⟩ := h
  simp only [ByteArray.size_append, hbefore]
  omega

theorem extract_eq (h : StandsAt piece content start) :
    content.extract start (start + piece.size) = piece := by
  obtain ⟨before, after, rfl, rfl⟩ := h
  have hparts := @ByteArray.extract_append_size_add before (piece ++ after) 0 piece.size
  rw [Nat.add_zero] at hparts
  rw [ByteArray.append_assoc, hparts, Bytes.extract_append_left (Nat.le_refl _),
    ByteArray.extract_zero_size]

/-- A part of the piece is a part of the content. -/
theorem extract_part (h : StandsAt piece content start) (low : Nat) {high : Nat}
    (inside : high ≤ piece.size) :
    content.extract (start + low) (start + high) = piece.extract low high := by
  rw [← h.extract_eq, ByteArray.extract_extract, Nat.min_eq_left (by omega)]

theorem byteAt_eq (h : StandsAt piece content start) {index : Nat} (inside : index < piece.size) :
    byteAt content (start + index) = piece[index] := by
  obtain ⟨before, after, rfl, rfl⟩ := h
  have hindex : before.size + index < (before ++ piece ++ after).size := by
    simp only [ByteArray.size_append]
    omega
  rw [byteAt, dif_pos hindex, ByteArray.getElem_append_left (by
      rw [ByteArray.size_append]
      omega),
    ByteArray.getElem_append_right (by omega)]
  simp

end StandsAt

/-! ### Numbers -/

namespace LittleEndian

@[simp] theorem length_digits (width number : Nat) : (digits width number).length = width := by
  induction width generalizing number with
  | zero => rfl
  | succ width ih => rw [digits, List.length_cons, ih]

theorem read_lt (content : ByteArray) (start width : Nat) :
    LittleEndian.read content start width < 256 ^ width := by
  induction width generalizing start with
  | zero => simp [LittleEndian.read]
  | succ width ih =>
    have hbyte := (byteAt content start).toNat_lt
    have hrest := ih (start + 1)
    rw [LittleEndian.read, Nat.pow_succ]
    omega

/-- A number of four bytes is a word. -/
theorem toNat_ofNat_read (content : ByteArray) (start : Nat) :
    (UInt32.ofNat (LittleEndian.read content start 4)).toNat = LittleEndian.read content start 4 :=
  UInt32.toNat_ofNat_of_lt' (read_lt content start 4)

/-- A number that stands in the content is read from there, as far as its width goes. -/
theorem read_of_standsAt {width number start : Nat} {content : ByteArray}
    (h : StandsAt (Bytes.number width number) content start) :
    LittleEndian.read content start width = number % 256 ^ width := by
  induction width generalizing number start with
  | zero => rw [LittleEndian.read, Nat.pow_zero, Nat.mod_one]
  | succ width ih =>
    have hsplit : Bytes.number (width + 1) number
        = [UInt8.ofNat number].toByteArray ++ Bytes.number width (number / 256) := by
      rw [Bytes.number, digits, ← List.singleton_append, List.toByteArray_append]
      rfl
    rw [hsplit] at h
    have hfirst : byteAt content (start + 0) = _ := h.append_left.byteAt_eq (by simp)
    have hrest := ih h.append_right
    rw [Nat.add_zero] at hfirst
    rw [List.size_toByteArray, List.length_singleton] at hrest
    rw [LittleEndian.read, hfirst, hrest, Nat.pow_succ', Nat.mod_mul]
    simp

end LittleEndian

namespace Bytes

@[simp] theorem size_number (width value : Nat) : (number width value).size = width := by
  rw [number, List.size_toByteArray, LittleEndian.length_digits]

@[simp] theorem size_uint8 (value : UInt8) : (uint8 value).size = 1 := size_number ..

@[simp] theorem size_uint16 (value : UInt16) : (uint16 value).size = 2 := size_number ..

@[simp] theorem size_uint32 (value : UInt32) : (uint32 value).size = 4 := size_number ..

@[simp] theorem size_uint64 (value : UInt64) : (uint64 value).size = 8 := size_number ..

@[simp] theorem uint32s_nil : uint32s [] = ByteArray.empty := rfl

@[simp] theorem uint32s_cons (value : UInt32) (values : List UInt32) :
    uint32s (value :: values) = uint32 value ++ uint32s values := by
  rw [uint32s, List.map_cons, concat_cons]
  rfl

@[simp] theorem size_uint32s (values : List UInt32) :
    (uint32s values).size = 4 * values.length := by
  induction values with
  | nil => rfl
  | cons value rest ih =>
    rw [uint32s_cons, ByteArray.size_append, ih, size_uint32, List.length_cons]
    omega

theorem uint32s_append (left right : List UInt32) :
    uint32s (left ++ right) = uint32s left ++ uint32s right := by
  induction left with
  | nil => simp
  | cons value rest ih => simp [ih, ByteArray.append_assoc]

/-- The words of groups are the words of one group after the other. -/
theorem uint32s_flatMap {α : Type} (words : α → List UInt32) (groups : List α) :
    uint32s (groups.flatMap words) = concat (groups.map fun group => uint32s (words group)) := by
  induction groups with
  | nil => rfl
  | cons group rest ih => rw [List.flatMap_cons, uint32s_append, ih, List.map_cons, concat_cons]

end Bytes

end ManagedPdb
