import ManagedPdb.Proofs.Bytes
import ManagedPdb.Proofs.Reader
import Mathlib.Data.List.Basic

/-!
# Readers that look only at what they read

More bytes behind the content do not change what such a reader gives (`Reader.Stable`).  The
readers of fields are of this kind, and whatever is made of them is.  So a reader that is done
with a part of the content is done with the whole in the same way.
-/

namespace ManagedPdb

/-- What the reader gives on a content, it gives on every longer one. -/
structure Reader.Stable {α : Type} (reader : Reader α) : Prop where
  append {content : ByteArray} {position : Nat} {value : α} {stop : Nat} :
    reader content position = .done value stop →
      ∀ more, reader (content ++ more) position = .done value stop

variable {α β σ : Type} {content : ByteArray}

/-! ### Bytes in front of others -/

theorem byteAt_append_left {index : Nat} (h : index < content.size) (more : ByteArray) :
    byteAt (content ++ more) index = byteAt content index := by
  rw [Bytes.byteAt_append, if_pos h]

theorem LittleEndian.read_append_left {start width : Nat} (h : start + width ≤ content.size)
    (more : ByteArray) :
    LittleEndian.read (content ++ more) start width = LittleEndian.read content start width := by
  induction width generalizing start with
  | zero => rfl
  | succ width ih =>
    rw [LittleEndian.read, LittleEndian.read, ih (by omega), byteAt_append_left (by omega)]

theorem Guid.ofBytes_append_left {start : Nat} (h : start + 16 ≤ content.size) (more : ByteArray) :
    Guid.ofBytes (content ++ more) start = Guid.ofBytes content start := by
  have hbytes : ∀ index < 8, byteAt (content ++ more) (start + 8 + index)
      = byteAt content (start + 8 + index) :=
    fun index hindex => byteAt_append_left (by omega) more
  rw [Guid.ofBytes, Guid.ofBytes, LittleEndian.read_append_left (by omega),
    LittleEndian.read_append_left (by omega), LittleEndian.read_append_left (by omega)]
  refine congrArg (Guid.mk _ _ _) (List.foldl_ext _ _ _ fun node index member => ?_)
  rw [hbytes index (List.mem_range.mp member)]

/-- The first zero byte stays the first. -/
theorem Reader.zeroFrom_append_left {index stop : Nat} (h : zeroFrom content index = some stop)
    (more : ByteArray) : stop < content.size ∧ zeroFrom (content ++ more) index = some stop := by
  fun_induction zeroFrom content index with
  | case1 index hindex hzero =>
    cases h
    refine ⟨hindex, ?_⟩
    rw [zeroFrom, dif_pos (by rw [ByteArray.size_append]; omega),
      ByteArray.getElem_append_left hindex, if_pos hzero]
  | case2 index hindex hzero ih =>
    refine ⟨(ih h).1, ?_⟩
    rw [zeroFrom, dif_pos (by rw [ByteArray.size_append]; omega),
      ByteArray.getElem_append_left hindex, if_neg hzero]
    exact (ih h).2
  | case3 => cases h

namespace Reader.Stable

/-! ### Steps in a row -/

protected theorem pure (value : α) : Stable (Pure.pure value) := ⟨fun h _ => h⟩

protected theorem failAt (kind : ErrorKind) (offset : Nat) :
    Stable (Reader.failAt kind offset : Reader α) := ⟨nofun⟩

protected theorem position : Stable Reader.position := ⟨fun h _ => h⟩

protected theorem bind {reader : Reader α} {next : α → Reader β} (h : Stable reader)
    (hnext : ∀ value, Stable (next value)) : Stable (reader >>= next) := by
  constructor
  intro content position value stop hdone more
  obtain ⟨first, middle, hfirst, hsecond⟩ := Reader.bind_eq_done_iff.mp hdone
  exact Reader.bind_eq_done_iff.mpr
    ⟨first, middle, h.append hfirst more, (hnext first).append hsecond more⟩

protected theorem map {reader : Reader α} (f : α → β) (h : Stable reader) :
    Stable (f <$> reader) :=
  h.bind fun value => .pure (f value)

theorem ite {condition : Prop} [Decidable condition] {left right : Reader α}
    (htrue : Stable left) (hfalse : Stable right) :
    Stable (if condition then left else right) := by
  by_cases h : condition
  · rwa [if_pos h]
  · rwa [if_neg h]

/-! ### Moves -/

protected theorem seek (target : Nat) : Stable (Reader.seek target) := by
  constructor
  intro content position value stop h more
  rw [Reader.seek_eq_done_iff] at h ⊢
  rw [ByteArray.size_append]
  omega

protected theorem align (alignment : Nat) : Stable (Reader.align alignment) :=
  ⟨fun h more => (Stable.seek _).append h more⟩

theorem skip_eq_done_iff {count position start stop : Nat} :
    Reader.skip count content position = .done start stop ↔
      position + count ≤ content.size ∧ start = position ∧ stop = position + count := by
  rw [Reader.skip]
  by_cases h : position + count ≤ content.size
  · simp [h, eq_comm]
  · simp [h]

protected theorem skip (count : Nat) : Stable (Reader.skip count) := by
  constructor
  intro content position value stop h more
  rw [skip_eq_done_iff] at h ⊢
  rw [ByteArray.size_append]
  omega

/-- A field of a known size whose value does not depend on what follows it. -/
theorem of_skip {count : Nat} (take : ByteArray → Nat → α)
    (htake : ∀ content start more, start + count ≤ content.size →
      take (content ++ more) start = take content start)
    {reader : Reader α}
    (hreader : ∀ content position, reader content position =
      match Reader.skip count content position with
      | .done start stop => .done (take content start) stop
      | .failed error position => .failed error position) : Stable reader := by
  constructor
  intro content position value stop h more
  rw [hreader] at h ⊢
  cases hskip : Reader.skip count content position with
  | failed error stopped => rw [hskip] at h; cases h
  | done start middle =>
    obtain ⟨hle, rfl, rfl⟩ := skip_eq_done_iff.mp hskip
    have hmore : Reader.skip count (content ++ more) start = .done start (start + count) :=
      skip_eq_done_iff.mpr ⟨by rw [ByteArray.size_append]; omega, rfl, rfl⟩
    rw [hskip] at h
    simp only [hmore, htake content start more hle]
    exact h

protected theorem bytes (count : Nat) : Stable (Reader.bytes count) := by
  constructor
  intro content position value stop h more
  unfold Reader.bytes at h ⊢
  cases hskip : Reader.skip count content position with
  | failed error stopped => rw [hskip] at h; cases h
  | done start middle =>
    obtain ⟨hle, rfl, rfl⟩ := skip_eq_done_iff.mp hskip
    rw [hskip] at h
    rw [skip_eq_done_iff.mpr ⟨by rw [ByteArray.size_append]; omega, rfl, rfl⟩]
    simpa only [Bytes.extract_append_left hle] using h

/-! ### Fields -/

protected theorem word (width : Nat) : Stable (Reader.word width) := by
  constructor
  intro content position value stop h more
  rw [Reader.word_eq_done_iff] at h ⊢
  obtain ⟨hle, hvalue, hstop⟩ := h
  exact ⟨by rw [ByteArray.size_append]; omega,
    by rw [LittleEndian.read_append_left hle, hvalue], hstop⟩

protected theorem uint8 : Stable Reader.uint8 := (Stable.word 1).bind fun _ => .pure _

protected theorem uint16 : Stable Reader.uint16 := (Stable.word 2).bind fun _ => .pure _

protected theorem uint32 : Stable Reader.uint32 := (Stable.word 4).bind fun _ => .pure _

protected theorem uint64 : Stable Reader.uint64 := (Stable.word 8).bind fun _ => .pure _

protected theorem int32 : Stable Reader.int32 := Stable.uint32.bind fun _ => .pure _

protected theorem guid : Stable Reader.guid :=
  of_skip Guid.ofBytes (fun _ _ more hle => Guid.ofBytes_append_left hle more) fun _ _ => rfl

protected theorem decimal : Stable Reader.decimal :=
  Stable.uint32.bind fun _ => Stable.uint32.bind fun _ => Stable.uint32.bind fun _ =>
    Stable.uint32.bind fun _ => .pure _

protected theorem utf8 (bytes : ByteArray) (offset : Nat) : Stable (Reader.utf8 bytes offset) := by
  unfold Reader.utf8
  cases String.fromUTF8? bytes with
  | some text => exact .pure text
  | none => exact .failAt ..

protected theorem countedString : Stable Reader.countedString :=
  Stable.uint16.bind fun _ => Stable.position.bind fun _ => (Stable.bytes _).bind fun _ =>
    .utf8 ..

protected theorem terminatedBytes : Stable Reader.terminatedBytes := by
  constructor
  intro content position value stop h more
  unfold Reader.terminatedBytes at h ⊢
  cases hzero : Reader.zeroFrom content position with
  | none => rw [hzero] at h; cases h
  | some found =>
    obtain ⟨hlt, hmore⟩ := Reader.zeroFrom_append_left hzero more
    rw [hzero] at h
    rw [hmore]
    simpa only [Bytes.extract_append_left (Nat.le_of_lt hlt)] using h

protected theorem terminatedString : Stable Reader.terminatedString :=
  Stable.position.bind fun _ => Stable.terminatedBytes.bind fun _ => .utf8 ..

protected theorem skipTerminated : Stable Reader.skipTerminated :=
  Stable.terminatedBytes.bind fun _ => .pure _

/-! ### Loops -/

protected theorem times (count : Nat) {item : Reader α} (hitem : Stable item) :
    Stable (Reader.times count item) := by
  have honto : ∀ before : Array α, Stable (Reader.timesOnto item before count) := by
    induction count with
    | zero => exact fun before => .pure before.toList
    | succ count ih =>
      intro before
      constructor
      intro content position value stop h more
      unfold Reader.timesOnto at h ⊢
      cases hfirst : item content position with
      | failed error stopped => rw [hfirst] at h; cases h
      | done first middle =>
        rw [hfirst] at h
        rw [hitem.append hfirst more]
        exact (ih (before.push first)).append h more
  exact honto #[]

protected theorem iterate {step : σ → Reader (σ ⊕ α)} (hstep : ∀ state, Stable (step state))
    (state : σ) : Stable (Reader.iterate step state) := by
  constructor
  intro content position value stop h more
  induction hlength : content.size - position using Nat.strongRecOn
    generalizing position state with
  | ind _ ih =>
    subst hlength
    rw [Reader.iterate] at h
    cases hfirst : step state content position with
    | failed error stopped => rw [hfirst] at h; cases h
    | done found next =>
      have hmore := (hstep state).append hfirst more
      rw [hfirst] at h
      cases found with
      | inr last =>
        cases h
        exact Reader.iterate_of_done hmore
      | inl state' =>
        simp only [] at h
        by_cases hnext : position < next ∧ next ≤ content.size
        · rw [if_pos hnext] at h
          rw [Reader.iterate_of_step hmore hnext.1 (by rw [ByteArray.size_append]; omega)]
          exact ih _ (by omega) state' h rfl
        · rw [if_neg hnext] at h
          cases h

protected theorem utf16String : Stable Reader.utf16String := by
  refine Stable.position.bind fun start => ?_
  refine .bind (.iterate (fun units => ?_) _) fun units => ?_
  · exact Stable.uint16.bind fun unit => .ite (.pure _) (.pure _)
  · cases Utf16.decode units.toList with
    | some text => exact .pure text
    | none => exact .failAt ..

end Reader.Stable

end ManagedPdb
