import ManagedPdb.Cursor
import ManagedPdb.Proofs.Text.Codec
import Mathlib.Data.Nat.Bitwise

/-!
# What a field reads

A field has a written form, `Field.Encodes`: the bytes that stand for a value.  Its reader gives a
value exactly if the written form of that value stands at the position, and then moves right behind
it (`Field.reader_eq_done_iff`).
-/

namespace ManagedPdb

/-! ### Decimal numbers -/

namespace Decimal

/-- The written form of a decimal number is four words.  The first, its flags, has the sign in the
top bit and the scale in the third byte; the other bits mean nothing. -/
structure Encodes (flags : UInt32) (piece : ByteArray) (value : Decimal) : Prop where
  words : piece = Bytes.uint32s [flags, value.high, value.low, value.middle]
  negative : value.negative = true ↔ 2 ^ 31 ≤ flags.toNat
  scale : value.scale.toNat = flags.toNat / 2 ^ 16 % 2 ^ 8

variable {flags high low middle : UInt32}

theorem negative_ofWords :
    (ofWords flags high low middle).negative = true ↔ 2 ^ 31 ≤ flags.toNat := by
  have hlt := flags.toNat_lt
  have hbit : (flags &&& 0x80000000).toNat = (flags.toNat.testBit 31).toNat * 2 ^ 31 := by
    rw [UInt32.toNat_and, ← Nat.and_two_pow]
    rfl
  rw [ofWords]
  dsimp only
  rw [bne_iff_ne, ne_eq, ← UInt32.toNat_inj, hbit, Nat.testBit_eq_decide_div_mod_eq]
  by_cases hset : flags.toNat / 2 ^ 31 % 2 = 1
  · simp only [hset, decide_true, Bool.toNat_true, UInt32.toNat_zero]
    omega
  · simp only [hset, decide_false, Bool.toNat_false, UInt32.toNat_zero]
    omega

theorem scale_ofWords :
    (ofWords flags high low middle).scale.toNat = flags.toNat / 2 ^ 16 % 2 ^ 8 := by
  rw [ofWords]
  dsimp only
  rw [UInt32.toNat_toUInt8, UInt32.toNat_shiftRight, UInt32.toNat_and]
  show (flags.toNat &&& (2 ^ 8 - 1) <<< 16) >>> 16 % 2 ^ 8 = _
  rw [Nat.shiftRight_and_distrib, Nat.shiftLeft_shiftRight, Nat.and_two_pow_sub_one_eq_mod,
    Nat.mod_mod, Nat.shiftRight_eq_div_pow]

theorem encodes_ofWords : Encodes flags (Bytes.uint32s [flags, high, low, middle])
    (ofWords flags high low middle) :=
  ⟨rfl, negative_ofWords, scale_ofWords⟩

theorem Encodes.eq_ofWords {piece : ByteArray} {value : Decimal} (h : Encodes flags piece value) :
    value = ofWords flags value.high value.low value.middle := by
  have hnegative : value.negative = (ofWords flags value.high value.low value.middle).negative := by
    rw [Bool.eq_iff_iff, h.negative, negative_ofWords]
  have hscale : value.scale = (ofWords flags value.high value.low value.middle).scale := by
    rw [← UInt8.toNat_inj, h.scale, scale_ofWords]
  rw [Decimal.mk.injEq]
  exact ⟨hnegative, hscale, rfl, rfl, rfl⟩

end Decimal

/-! ### Fields -/

namespace Cursor

/-- The single values that can be read, with floating-point numbers as their bits. -/
inductive Field : Type → Type where
  | uint8 : Field UInt8
  | int8 : Field Int8
  | uint16 : Field UInt16
  | int16 : Field Int16
  | uint32 : Field UInt32
  | int32 : Field Int32
  | uint64 : Field UInt64
  | int64 : Field Int64
  | float32 : Field UInt32
  | float64 : Field UInt64
  | guid : Field Guid
  | decimal : Field Decimal
  | bytes (count : Nat) : Field ByteArray
  | uint32s (count : Nat) : Field (List UInt32)
  | countedString : Field String
  | terminatedString : Field String
  | utf16String : Field String
  | skipTerminated : Field Unit

namespace Field

def reader : {α : Type} → Field α → Reader α
  | _, uint8 => Reader.uint8
  | _, int8 => Reader.int8
  | _, uint16 => Reader.uint16
  | _, int16 => Reader.int16
  | _, uint32 => Reader.uint32
  | _, int32 => Reader.int32
  | _, uint64 => Reader.uint64
  | _, int64 => Reader.int64
  | _, float32 => Reader.uint32
  | _, float64 => Reader.uint64
  | _, guid => Reader.guid
  | _, decimal => Reader.decimal
  | _, bytes count => Reader.bytes count
  | _, uint32s count => Reader.uint32s count
  | _, countedString => Reader.countedString
  | _, terminatedString => Reader.terminatedString
  | _, utf16String => Reader.utf16String
  | _, skipTerminated => Reader.skipTerminated

/-- The bytes that stand for a value. -/
def Encodes : {α : Type} → Field α → ByteArray → α → Prop
  | _, uint8, piece, value => piece = Bytes.uint8 value
  | _, int8, piece, value => piece = Bytes.uint8 value.toUInt8
  | _, uint16, piece, value => piece = Bytes.uint16 value
  | _, int16, piece, value => piece = Bytes.uint16 value.toUInt16
  | _, uint32, piece, value => piece = Bytes.uint32 value
  | _, int32, piece, value => piece = Bytes.uint32 value.toUInt32
  | _, uint64, piece, value => piece = Bytes.uint64 value
  | _, int64, piece, value => piece = Bytes.uint64 value.toUInt64
  | _, float32, piece, value => piece = Bytes.uint32 value
  | _, float64, piece, value => piece = Bytes.uint64 value
  | _, guid, piece, value => piece = value.bytes
  | _, decimal, piece, value => ∃ flags, Decimal.Encodes flags piece value
  | _, bytes count, piece, value => piece.size = count ∧ piece = value
  | _, uint32s count, piece, values => values.length = count ∧ piece = Bytes.uint32s values
  | _, countedString, piece, text => text.toUTF8.size ≤ 65535 ∧ piece = Utf8.counted text
  | _, terminatedString, piece, text => ZeroFree text ∧ piece = Bytes.terminated text
  | _, utf16String, piece, text => ZeroFree text ∧ piece = Utf16.terminated text
  | _, skipTerminated, piece, _ =>
    ∃ front : ByteArray, 0 ∉ front.data.toList ∧ piece = front ++ Bytes.uint8 0

/-- The number of bytes of a field whose size does not depend on its value. -/
def width? : {α : Type} → Field α → Option Nat
  | _, uint8 | _, int8 => some 1
  | _, uint16 | _, int16 => some 2
  | _, uint32 | _, int32 | _, float32 => some 4
  | _, uint64 | _, int64 | _, float64 => some 8
  | _, guid | _, decimal => some 16
  | _, bytes count => some count
  | _, uint32s count => some (count * 4)
  | _, countedString | _, terminatedString | _, utf16String | _, skipTerminated => none

variable {α : Type} {content piece : ByteArray} {position stop : Nat}

/-! ### Reading what is written -/

theorem size_of_encodes {field : Field α} {value : α} {width : Nat}
    (h : field.Encodes piece value) (hwidth : field.width? = some width) : piece.size = width := by
  cases field <;> cases hwidth <;> simp only [Encodes] at h
  case guid => rw [h]; simp [Guid.bytes]
  case decimal => obtain ⟨flags, hwords, -, -⟩ := h; rw [hwords, Bytes.size_uint32s]; rfl
  case bytes => exact h.1
  case uint32s => obtain ⟨rfl, rfl⟩ := h; rw [Bytes.size_uint32s, Nat.mul_comm]
  all_goals rw [h]; simp

/-- A field gives the value whose written form stands at the position. -/
theorem reads {field : Field α} {value : α} (h : field.Encodes piece value) :
    Reads field.reader position piece value := by
  cases field <;> simp only [Encodes] at h
  case uint8 => exact h ▸ .uint8 value
  case int8 => exact h ▸ .int8 value
  case uint16 => exact h ▸ .uint16 value
  case int16 => exact h ▸ .int16 value
  case uint32 => exact h ▸ .uint32 value
  case int32 => exact h ▸ .int32 value
  case uint64 => exact h ▸ .uint64 value
  case int64 => exact h ▸ .int64 value
  case float32 => exact h ▸ .uint32 value
  case float64 => exact h ▸ .uint64 value
  case guid => exact h ▸ .guid value
  case decimal =>
    obtain ⟨flags, hpiece⟩ := h
    rw [hpiece.words, hpiece.eq_ofWords]
    exact .decimal flags value.high value.low value.middle
  case bytes count =>
    obtain ⟨hsize, rfl⟩ := h
    exact .bytes hsize.symm
  case uint32s count =>
    obtain ⟨rfl, rfl⟩ := h
    exact .uint32s value
  case countedString =>
    obtain ⟨hsize, rfl⟩ := h
    exact .countedString (Nat.lt_succ_of_le hsize)
  case terminatedString =>
    obtain ⟨htext, rfl⟩ := h
    exact .terminatedString htext
  case utf16String =>
    obtain ⟨htext, rfl⟩ := h
    exact .utf16String htext
  case skipTerminated =>
    obtain ⟨front, hfront, rfl⟩ := h
    exact .bind_empty (.terminatedBytes (getElem_ne_zero hfront)) (.pure ())

/-! ### Bytes that stand for a value -/

/-- Whatever bytes there are, if there are as many as the field has, they stand for a value. -/
theorem exists_encodes {field : Field α} {width : Nat} (hwidth : field.width? = some width)
    (hsize : piece.size = width) : ∃ value, field.Encodes piece value := by
  cases field <;> cases hwidth <;> simp only [Encodes]
  case uint8 => exact Bytes.exists_uint8 hsize
  case int8 =>
    obtain ⟨value, rfl⟩ := Bytes.exists_uint8 hsize
    exact ⟨value.toInt8, by rw [UInt8.toUInt8_toInt8]⟩
  case uint16 => exact Bytes.exists_uint16 hsize
  case int16 =>
    obtain ⟨value, rfl⟩ := Bytes.exists_uint16 hsize
    exact ⟨value.toInt16, by rw [UInt16.toUInt16_toInt16]⟩
  case uint32 => exact Bytes.exists_uint32 hsize
  case int32 =>
    obtain ⟨value, rfl⟩ := Bytes.exists_uint32 hsize
    exact ⟨value.toInt32, by rw [UInt32.toUInt32_toInt32]⟩
  case uint64 => exact Bytes.exists_uint64 hsize
  case int64 =>
    obtain ⟨value, rfl⟩ := Bytes.exists_uint64 hsize
    exact ⟨value.toInt64, by rw [UInt64.toUInt64_toInt64]⟩
  case float32 => exact Bytes.exists_uint32 hsize
  case float64 => exact Bytes.exists_uint64 hsize
  case guid => exact Bytes.exists_guid hsize
  case decimal =>
    obtain ⟨words, hlength, rfl⟩ := @Bytes.exists_uint32s piece 4 hsize
    rcases words with _ | ⟨flags, _ | ⟨high, _ | ⟨low, _ | ⟨middle, _ | _⟩⟩⟩⟩ <;>
      simp only [List.length_cons, List.length_nil] at hlength <;> try omega
    exact ⟨_, flags, Decimal.encodes_ofWords⟩
  case bytes => exact ⟨piece, hsize, rfl⟩
  case uint32s count => exact Bytes.exists_uint32s hsize

theorem le_of_bind_eq_done {β : Type} {reader : Reader β} {next : β → Reader α} {value : α}
    {width : Nat} (hreader : ∀ {first middle}, reader content position = .done first middle →
      position + width ≤ content.size)
    (h : (reader >>= next) content position = .done value stop) :
    position + width ≤ content.size := by
  obtain ⟨first, middle, hfirst, -⟩ := Reader.bind_eq_done_iff.mp h
  exact hreader hfirst

/-- A field of a known size is only read if all of it is there. -/
theorem le_of_reader_eq_done {field : Field α} {value : α} {width : Nat}
    (hwidth : field.width? = some width)
    (h : field.reader content position = .done value stop) :
    position + width ≤ content.size := by
  have hword : ∀ {width number middle}, Reader.word width content position = .done number middle →
      position + width ≤ content.size := fun h => (Reader.word_eq_done_iff.mp h).1
  cases field <;> cases hwidth <;> simp only [reader] at h
  case uint8 | uint16 | uint32 | uint64 | float32 | float64 => exact le_of_bind_eq_done hword h
  case int8 | int16 | int32 | int64 => exact le_of_bind_eq_done (le_of_bind_eq_done hword) h
  case guid => exact (Reader.guid_eq_done_iff.mp h).1
  case decimal =>
    -- the last of the four words ends where the field ends
    obtain ⟨_, _, hfirst, h⟩ := Reader.bind_eq_done_iff.mp h
    obtain ⟨_, _, hsecond, h⟩ := Reader.bind_eq_done_iff.mp h
    obtain ⟨_, _, hthird, h⟩ := Reader.bind_eq_done_iff.mp h
    obtain ⟨_, _, hfourth, -⟩ := Reader.bind_eq_done_iff.mp h
    obtain ⟨-, -, rfl⟩ := Reader.uint32_eq_done hfirst
    obtain ⟨-, -, rfl⟩ := Reader.uint32_eq_done hsecond
    obtain ⟨-, -, rfl⟩ := Reader.uint32_eq_done hthird
    exact (Reader.uint32_eq_done hfourth).1
  case bytes =>
    rw [Reader.bytes, Reader.skip] at h
    by_contra hlt
    rw [if_neg hlt] at h
    cases h
  case uint32s count => exact (Reader.uint32s_eq_done_iff.mp h).1

/-- A field gives a value exactly if the bytes that stand for the value are at the position, and
moves over these bytes and no others. -/
theorem reader_eq_done_iff {field : Field α} {value : α} :
    field.reader content position = .done value stop ↔
      ∃ piece, StandsAt piece content position ∧ field.Encodes piece value ∧
        stop = position + piece.size := by
  constructor
  · intro h
    cases hwidth : field.width? with
    | some width =>
      exact Reader.eq_done_of_pieces reads (exists_encodes hwidth) (le_of_reader_eq_done hwidth h) h
    | none =>
      -- what text there is can be found from the bytes alone
      have hpiece : ∃ piece, StandsAt piece content position ∧ field.Encodes piece value := by
        cases field <;> cases hwidth
        case countedString =>
          obtain ⟨hsize, hpiece⟩ := Reader.of_countedString_eq_done h
          exact ⟨_, hpiece, hsize, rfl⟩
        case terminatedString =>
          obtain ⟨htext, hpiece⟩ := Reader.of_terminatedString_eq_done h
          exact ⟨_, hpiece, htext, rfl⟩
        case utf16String =>
          obtain ⟨htext, hpiece⟩ := Reader.of_utf16String_eq_done h
          exact ⟨_, hpiece, htext, rfl⟩
        case skipTerminated =>
          rcases Reader.terminated_or_not content position with ⟨front, hfront, hpiece⟩ | hzero
          · exact ⟨_, hpiece, front, hfront, rfl⟩
          · rw [reader, Reader.skipTerminated,
              Reader.bind_of_failed (Reader.terminatedBytes_of_zero_notMem hzero)] at h
            cases h
      obtain ⟨piece, hpiece, hvalue⟩ := hpiece
      rw [reads hvalue content hpiece] at h
      cases h
      exact ⟨piece, hpiece, hvalue, rfl⟩
  · rintro ⟨piece, hpiece, hvalue, rfl⟩
    exact reads hvalue content hpiece

end Field

end Cursor

end ManagedPdb
