import ManagedPdb.Proofs.Guid

/-!
# Bytes as values

Writing a number never fails, and neither does reading one: whatever bytes there are, they are the
written form of a value, if only there are enough of them.  So what a field of a known size reads is
what is written there (`Reader.eq_done_of_pieces`).
-/

namespace ManagedPdb

variable {content : ByteArray} {start stop : Nat}

/-! ### Parts of a content -/

/-- A part of the content stands where it was taken from. -/
theorem StandsAt.extract (hle : start ≤ stop) (hstop : stop ≤ content.size) :
    StandsAt (content.extract start stop) content start := by
  refine ⟨content.extract 0 start, content.extract stop content.size, ?_, ?_⟩
  · rw [ByteArray.extract_append_extract, Nat.zero_min, Nat.max_eq_right hle,
      ByteArray.extract_append_extract, Nat.zero_min, Nat.max_eq_right hstop,
      ByteArray.extract_zero_size]
  · rw [ByteArray.size_extract]
    omega

theorem size_extract_of_le (hstop : stop ≤ content.size) :
    (content.extract start stop).size = stop - start := by
  rw [ByteArray.size_extract, Nat.min_eq_left hstop]

/-- Pieces that stand one behind the other. -/
protected theorem StandsAt.append {left right : ByteArray} (hleft : StandsAt left content start)
    (hright : StandsAt right content (start + left.size)) :
    StandsAt (left ++ right) content start := by
  have hinside := hright.le_size
  have hparts : left ++ right = content.extract start (start + left.size + right.size) := by
    conv_lhs => rw [← hleft.extract_eq, ← hright.extract_eq]
    rw [ByteArray.extract_append_extract, Nat.min_eq_left (Nat.le_add_right _ _),
      Nat.max_eq_right (Nat.le_add_right _ _)]
  rw [hparts]
  exact .extract (by omega) hinside

/-! ### Numbers -/

namespace LittleEndian

theorem value_lt (bytes : List UInt8) : value bytes < 256 ^ bytes.length := by
  induction bytes with
  | nil => simp [value]
  | cons byte rest ih =>
    have hbyte := byte.toNat_lt
    rw [value, List.length_cons, Nat.pow_succ]
    omega

/-- Bytes are the digits of the number that they stand for. -/
theorem digits_value (bytes : List UInt8) : digits bytes.length (value bytes) = bytes := by
  induction bytes with
  | nil => rfl
  | cons byte rest ih =>
    have hbyte := byte.toNat_lt
    have hrest : (byte.toNat + 256 * value rest) / 256 = value rest := by omega
    rw [value, List.length_cons, digits, hrest, ih]
    congr 1
    rw [← UInt8.toNat_inj, UInt8.toNat_ofNat']
    omega

end LittleEndian

namespace Bytes

variable {piece : ByteArray}

theorem toByteArray_toList (piece : ByteArray) : piece.data.toList.toByteArray = piece := by
  apply ByteArray.ext
  rw [List.data_toByteArray]

/-- Bytes are the written form of a number. -/
theorem exists_number {width : Nat} (hsize : piece.size = width) :
    ∃ value, value < 256 ^ width ∧ piece = number width value := by
  have hlength : piece.data.toList.length = width := hsize
  refine ⟨LittleEndian.value piece.data.toList, ?_, ?_⟩
  · rw [← hlength]
    exact LittleEndian.value_lt _
  · rw [number, ← hlength, LittleEndian.digits_value, toByteArray_toList]

theorem exists_uint8 (hsize : piece.size = 1) : ∃ value, piece = uint8 value := by
  obtain ⟨value, hlt, rfl⟩ := exists_number hsize
  exact ⟨UInt8.ofNat value, by rw [uint8, UInt8.toNat_ofNat_of_lt' hlt]⟩

theorem exists_uint16 (hsize : piece.size = 2) : ∃ value, piece = uint16 value := by
  obtain ⟨value, hlt, rfl⟩ := exists_number hsize
  exact ⟨UInt16.ofNat value, by rw [uint16, UInt16.toNat_ofNat_of_lt' hlt]⟩

theorem exists_uint32 (hsize : piece.size = 4) : ∃ value, piece = uint32 value := by
  obtain ⟨value, hlt, rfl⟩ := exists_number hsize
  exact ⟨UInt32.ofNat value, by rw [uint32, UInt32.toNat_ofNat_of_lt' hlt]⟩

theorem exists_uint64 (hsize : piece.size = 8) : ∃ value, piece = uint64 value := by
  obtain ⟨value, hlt, rfl⟩ := exists_number hsize
  exact ⟨UInt64.ofNat value, by rw [uint64, UInt64.toNat_ofNat_of_lt' hlt]⟩

/-- The byte that stands somewhere is the one that is found there. -/
theorem byteAt_of_standsAt {value : UInt8} (h : StandsAt (uint8 value) content start) :
    byteAt content start = value := by
  have hread := LittleEndian.read_of_standsAt h
  have hvalue := value.toNat_lt
  rw [LittleEndian.read, LittleEndian.read] at hread
  rw [← UInt8.toNat_inj]
  omega

/-- Bytes are a first part of some size and the rest. -/
theorem exists_append {size : Nat} (hle : size ≤ piece.size) :
    ∃ left right, piece = left ++ right ∧ left.size = size ∧ right.size = piece.size - size := by
  refine ⟨piece.extract 0 size, piece.extract size piece.size, ?_, ?_, ?_⟩
  · rw [ByteArray.extract_append_extract, Nat.zero_min, Nat.max_eq_right hle,
      ByteArray.extract_zero_size]
  · rw [size_extract_of_le hle, Nat.sub_zero]
  · rw [size_extract_of_le (Nat.le_refl _)]

theorem exists_uint32s {count : Nat} (hsize : piece.size = count * 4) :
    ∃ values, values.length = count ∧ piece = uint32s values := by
  induction count generalizing piece with
  | zero =>
    rw [Nat.zero_mul] at hsize
    exact ⟨[], rfl, ByteArray.size_eq_zero_iff.mp hsize⟩
  | succ count ih =>
    obtain ⟨left, right, rfl, hleft, hright⟩ := @exists_append piece 4 (by omega)
    obtain ⟨value, rfl⟩ := exists_uint32 hleft
    obtain ⟨values, hlength, rfl⟩ := @ih right (by omega)
    exact ⟨value :: values, by rw [List.length_cons, hlength], (uint32s_cons value values).symm⟩

/-- Sixteen bytes are the written form of an identifier. -/
theorem exists_guid (hsize : piece.size = 16) : ∃ guid : Guid, piece = guid.bytes := by
  obtain ⟨rest, node, rfl, hrest, hnode⟩ := @exists_append piece 8 (by omega)
  obtain ⟨rest, third, rfl, hrest', hthird⟩ := @exists_append rest 6 (by omega)
  obtain ⟨first, second, rfl, hfirst, hsecond⟩ := @exists_append rest 4 (by omega)
  obtain ⟨first, rfl⟩ := exists_uint32 hfirst
  obtain ⟨second, rfl⟩ := @exists_uint16 second (by omega)
  obtain ⟨third, rfl⟩ := @exists_uint16 third (by omega)
  -- the last group has the most significant byte first
  have hlength : node.data.toList.reverse.length = 8 := by
    rw [List.length_reverse]
    exact hnode.trans (by omega)
  have hlt := LittleEndian.value_lt node.data.toList.reverse
  have hdigits := LittleEndian.digits_value node.data.toList.reverse
  rw [hlength] at hlt hdigits
  refine ⟨⟨first, second, third, UInt64.ofNat (LittleEndian.value node.data.toList.reverse)⟩, ?_⟩
  rw [Guid.bytes]
  dsimp only
  rw [UInt64.toNat_ofNat_of_lt' hlt, hdigits, List.reverse_reverse, toByteArray_toList]

end Bytes

/-! ### Fields of a known size -/

/-- A field of a known size gives what is written there, if every piece of that size is the written
form of a value. -/
theorem Reader.eq_done_of_pieces {α : Type} {reader : Reader α} {Encodes : ByteArray → α → Prop}
    {width position : Nat} {value : α}
    (hread : ∀ {piece value}, Encodes piece value → Reads reader position piece value)
    (hpieces : ∀ {piece : ByteArray}, piece.size = width → ∃ value, Encodes piece value)
    (hinside : position + width ≤ content.size)
    (h : reader content position = .done value stop) :
    ∃ piece, StandsAt piece content position ∧ Encodes piece value ∧
      stop = position + piece.size := by
  have hpiece : StandsAt (content.extract position (position + width)) content position :=
    .extract (Nat.le_add_right _ _) hinside
  obtain ⟨value', hvalue⟩ := hpieces
    ((size_extract_of_le hinside).trans (Nat.add_sub_cancel_left position width))
  have hdone := hread hvalue content hpiece
  rw [h] at hdone
  cases hdone
  exact ⟨_, hpiece, hvalue, rfl⟩

end ManagedPdb
