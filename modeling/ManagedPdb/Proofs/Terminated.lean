import ManagedPdb.Proofs.Ahead
import ManagedPdb.Proofs.Sequential
import ManagedPdb.Proofs.Symbol.Frames
import ManagedPdb.Proofs.Text

/-!
# Texts that end with a zero byte

How long such a text is has to be found out: it ends with the first zero byte, wherever that is
(`TextAt`).  On content that is cut off, a text is the same if its zero byte is still there
(`TextAt.extract_iff`), and it has no end otherwise (`Reader.within_terminatedStringAt_of_le`).
-/

namespace ManagedPdb

variable {content : ByteArray} {start stop : Nat} {text : String}

/-- A text at an offset, and where its zero byte is. -/
structure TextAt (content : ByteArray) (start stop : Nat) (text : String) : Prop where
  le : start ≤ stop
  inside : stop < content.size
  zero : byteAt content stop = 0
  nonzero : ∀ index, start ≤ index → index < stop → byteAt content index ≠ 0
  bytes : content.extract start stop = text.toUTF8

/-! ### Zero bytes -/

namespace Reader

theorem of_zeroFrom_eq_some (h : zeroFrom content start = some stop) :
    start ≤ stop ∧ stop < content.size ∧ byteAt content stop = 0 ∧
      ∀ index, start ≤ index → index < stop → byteAt content index ≠ 0 := by
  fun_induction zeroFrom content start with
  | case1 start hlt hzero =>
    cases h
    exact ⟨Nat.le_refl _, hlt, by rwa [byteAt, dif_pos hlt], by omega⟩
  | case2 start hlt hnonzero ih =>
    obtain ⟨hle, hinside, hzero, hall⟩ := ih h
    refine ⟨by omega, hinside, hzero, fun index hindex => ?_⟩
    rcases Nat.eq_or_lt_of_le hindex with rfl | hlater
    · rw [byteAt, dif_pos hlt]
      exact fun _ => hnonzero
    · exact hall index hlater
  | case3 => cases h

theorem zeroFrom_eq_some_iff : zeroFrom content start = some stop ↔
    start ≤ stop ∧ stop < content.size ∧ byteAt content stop = 0 ∧
      ∀ index, start ≤ index → index < stop → byteAt content index ≠ 0 :=
  ⟨of_zeroFrom_eq_some, fun ⟨hle, hinside, hzero, hall⟩ =>
    Reads.zeroFrom_eq_some hle hinside hall hzero⟩

theorem byteAt_cut {limit index : Nat} (h : index < limit) :
    byteAt (content.extract 0 limit) index = byteAt content index := by
  rw [Bytes.byteAt_extract, Nat.zero_add, if_pos h]

/-- The first zero byte, if what is cut off is behind it. -/
theorem zeroFrom_cut_iff {limit : Nat} : zeroFrom (content.extract 0 limit) start = some stop ↔
    stop < limit ∧ zeroFrom content start = some stop := by
  have hsize : (content.extract 0 limit).size = min limit content.size :=
    ByteArray.size_extract
  rw [zeroFrom_eq_some_iff, zeroFrom_eq_some_iff, hsize]
  constructor
  · rintro ⟨hle, hinside, hzero, hall⟩
    rw [byteAt_cut (by omega)] at hzero
    refine ⟨by omega, hle, by omega, hzero, fun index hindex hlt => ?_⟩
    rw [← byteAt_cut (show index < limit by omega)]
    exact hall index hindex hlt
  · rintro ⟨hlimit, hle, hinside, hzero, hall⟩
    refine ⟨hle, by omega, by rwa [byteAt_cut hlimit], fun index hindex hlt => ?_⟩
    rw [byteAt_cut (by omega)]
    exact hall index hindex hlt

theorem zeroFrom_cut_of_le {limit : Nat} (h : zeroFrom content start = some stop)
    (hlimit : limit ≤ stop) : zeroFrom (content.extract 0 limit) start = none := by
  cases hcut : zeroFrom (content.extract 0 limit) start with
  | none => rfl
  | some stop' =>
    obtain ⟨hlt, hstop⟩ := zeroFrom_cut_iff.mp hcut
    rw [h] at hstop
    cases hstop
    omega

end Reader

namespace TextAt

theorem zeroFrom_eq (h : TextAt content start stop text) :
    Reader.zeroFrom content start = some stop :=
  Reader.zeroFrom_eq_some_iff.mpr ⟨h.le, h.inside, h.zero, h.nonzero⟩

/-- There is one text at an offset at most. -/
theorem unique {stop' : Nat} {text' : String} (h : TextAt content start stop text)
    (h' : TextAt content start stop' text') : stop = stop' ∧ text = text' := by
  have hstop := h.zeroFrom_eq.symm.trans h'.zeroFrom_eq
  cases hstop
  have hbytes := h.bytes.symm.trans h'.bytes
  refine ⟨rfl, Option.some.inj ?_⟩
  rw [← fromUTF8?_toUTF8 text, ← fromUTF8?_toUTF8 text', hbytes]

/-- A text ends at the next zero byte, or in front of it. -/
theorem stop_le (h : TextAt content start stop text) {last : Nat} (hle : start ≤ last)
    (hzero : byteAt content last = 0) : stop ≤ last := by
  apply Nat.le_of_not_lt
  exact fun hlt => h.nonzero last hle hlt hzero

/-- The text of bytes that are well formed. -/
theorem of_utf8 (hzero : Reader.zeroFrom content start = some stop) {position next : Nat}
    (h : Reader.utf8 (content.extract start stop) start content position = .done text next) :
    TextAt content start stop text ∧ next = position := by
  obtain ⟨hle, hinside, hbyte, hall⟩ := Reader.of_zeroFrom_eq_some hzero
  have hwellFormed : ∀ bytes : ByteArray, String.fromUTF8? bytes = some text →
      bytes = text.toUTF8 := by
    intro bytes hbytes
    rw [String.fromUTF8?] at hbytes
    split at hbytes <;> cases hbytes
    rfl
  cases hfound : String.fromUTF8? (content.extract start stop) with
  | none =>
    rw [Reader.utf8, hfound] at h
    cases h
  | some found =>
    rw [Reader.utf8, hfound] at h
    cases h
    exact ⟨⟨hle, hinside, hbyte, hall, hwellFormed _ hfound⟩, rfl⟩

/-- On content that is cut off behind its zero byte, a text is the same. -/
theorem extract_iff {limit : Nat} :
    TextAt (content.extract 0 limit) start stop text ↔
      stop < limit ∧ TextAt content start stop text := by
  have hbytes : stop ≤ limit →
      (content.extract 0 limit).extract start stop = content.extract start stop := by
    intro hle
    rw [ByteArray.extract_extract, Nat.zero_add, Nat.zero_add, Nat.min_eq_left hle]
  constructor
  · intro h
    obtain ⟨hlimit, hzero⟩ := Reader.zeroFrom_cut_iff.mp h.zeroFrom_eq
    obtain ⟨hle, hinside, hbyte, hall⟩ := Reader.of_zeroFrom_eq_some hzero
    exact ⟨hlimit, hle, hinside, hbyte, hall, by rw [← hbytes (Nat.le_of_lt hlimit), h.bytes]⟩
  · rintro ⟨hlimit, h⟩
    obtain ⟨hle, hinside, hbyte, hall⟩ :=
      Reader.of_zeroFrom_eq_some (Reader.zeroFrom_cut_iff.mpr ⟨hlimit, h.zeroFrom_eq⟩)
    exact ⟨hle, hinside, hbyte, hall, by rw [hbytes (Nat.le_of_lt hlimit), h.bytes]⟩

end TextAt

/-! ### Reading a text -/

namespace Reader

variable {position next : Nat}

theorem terminatedString_eq_done_iff :
    terminatedString content start = .done text next ↔
      ∃ stop, TextAt content start stop text ∧ next = stop + 1 := by
  constructor
  · intro h
    obtain ⟨_, _, hstart, h⟩ := bind_eq_done_iff.mp h
    cases hstart
    obtain ⟨bytes, _, hbytes, h⟩ := bind_eq_done_iff.mp h
    rw [terminatedBytes] at hbytes
    split at hbytes
    · next stop hzero =>
      cases hbytes
      obtain ⟨htext, rfl⟩ := TextAt.of_utf8 hzero h
      exact ⟨stop, htext, rfl⟩
    · cases hbytes
  · rintro ⟨stop, htext, rfl⟩
    rw [terminatedString, bind_apply, position_apply]
    dsimp only
    rw [bind_apply, terminatedBytes, htext.zeroFrom_eq]
    dsimp only
    rw [htext.bytes, utf8, fromUTF8?_toUTF8]
    rfl

/-- Reading a text elsewhere leaves the position where it is. -/
theorem terminatedStringAt_eq_done_iff :
    terminatedStringAt start content position = .done text next ↔
      next = position ∧ ∃ stop, TextAt content start stop text := by
  rw [terminatedStringAt]
  constructor
  · intro h
    split at h
    · cases h
    · next target hseek =>
      obtain ⟨-, rfl⟩ := seek_eq_done_iff.mp hseek
      split at h
      · next found _ hfound =>
        cases h
        obtain ⟨stop, htext, -⟩ := terminatedString_eq_done_iff.mp hfound
        exact ⟨rfl, stop, htext⟩
      · cases h
  · rintro ⟨rfl, stop, htext⟩
    have hinside := htext.inside
    have hle := htext.le
    rw [seek_of_le (by omega)]
    simp only [terminatedString_eq_done_iff.mpr ⟨stop, htext, rfl⟩]

/-- Held to a part of the content, the zero byte has to be in that part. -/
theorem within_terminatedStringAt_eq_done_iff {limit : Nat} :
    (terminatedStringAt start).within limit content position = .done text next ↔
      next = position ∧ ∃ stop, stop < limit ∧ TextAt content start stop text := by
  rw [within, terminatedStringAt_eq_done_iff]
  simp only [TextAt.extract_iff]

/-- A text without a zero byte in the part of the content that it is held to. -/
theorem within_terminatedStringAt_of_le {limit : Nat} (h : TextAt content start stop text)
    (hstart : start ≤ limit) (hstop : limit ≤ stop) :
    (terminatedStringAt start).within limit content position
      = .failed (.ofKindAt .unexpectedEnd start) position := by
  have hinside := h.inside
  have hle : start ≤ (content.extract 0 limit).size := by
    rw [ByteArray.size_extract]
    omega
  rw [within, terminatedStringAt, seek_of_le hle]
  simp only [terminatedString, bind_apply, position_apply, terminatedBytes,
    zeroFrom_cut_of_le h.zeroFrom_eq hstop]

namespace Sequential

/-- The bytes of a text are read in order, up to its zero byte. -/
protected theorem terminatedBytes : Sequential terminatedBytes := by
  -- the zero byte is the last byte that is looked at
  have hdone : ∀ {content : ByteArray} {start next : Nat} {bytes : ByteArray},
      terminatedBytes content start = .done bytes next → ∃ stop,
        zeroFrom content start = some stop ∧ bytes = content.extract start stop ∧
          next = stop + 1 := by
    intro content start next bytes h
    rw [terminatedBytes] at h
    split at h
    · next stop hzero =>
      cases h
      exact ⟨stop, hzero, rfl, rfl⟩
    · cases h
  constructor
  case advances =>
    intro content position next bytes h
    obtain ⟨stop, hzero, -, rfl⟩ := hdone h
    exact Nat.le_succ_of_le (of_zeroFrom_eq_some hzero).1
  case whole =>
    intro content position next limit bytes h hle
    obtain ⟨stop, hzero, rfl, rfl⟩ := hdone h
    rw [terminatedBytes, zeroFrom_cut_iff.mpr ⟨hle, hzero⟩]
    dsimp only
    rw [ByteArray.extract_extract, Nat.zero_add, Nat.zero_add, Nat.min_eq_left (by omega)]
  case short =>
    intro content position next limit bytes h hposition hlt
    obtain ⟨stop, hzero, -, rfl⟩ := hdone h
    refine ⟨.ofKindAt .unexpectedEnd position, position, ?_, rfl⟩
    rw [terminatedBytes, zeroFrom_cut_of_le hzero (by omega)]

protected theorem utf8 (bytes : ByteArray) (offset : Nat) :
    Sequential (Reader.utf8 bytes offset) := by
  unfold Reader.utf8
  cases String.fromUTF8? bytes with
  | some text => exact .pure text
  | none => exact .failAt ..

protected theorem terminatedString : Sequential terminatedString :=
  Sequential.position.bind fun _ => Sequential.terminatedBytes.bind fun _ => .utf8 ..

protected theorem skipTerminated : Sequential skipTerminated :=
  Sequential.terminatedBytes.bind fun _ => .pure _

end Sequential

end Reader

end ManagedPdb
