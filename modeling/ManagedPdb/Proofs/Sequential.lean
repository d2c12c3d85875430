import ManagedPdb.Proofs.Stable

/-!
# Readers and content that is cut off

A sequential reader moves forward and looks at nothing behind the place where it stops.  So it does
the same on content that is cut off at that place or later, and on content that is cut off before,
it fails because the content ends too early (`Reader.Sequential`).  Whether a field fits into its
frame can thus be told from where its reader stops.
-/

namespace ManagedPdb

variable {α β σ : Type}

namespace Reader

/-- The reader moves forward, and where it stops decides how it ends on content that is cut off. -/
structure Sequential (reader : Reader α) : Prop where
  advances {content : ByteArray} {position next : Nat} {value : α} :
    reader content position = .done value next → position ≤ next
  whole {content : ByteArray} {position next limit : Nat} {value : α} :
    reader content position = .done value next → next ≤ limit →
      reader (content.extract 0 limit) position = .done value next
  short {content : ByteArray} {position next limit : Nat} {value : α} :
    reader content position = .done value next → position ≤ limit → limit < next →
      ∃ error stopped, reader (content.extract 0 limit) position = .failed error stopped ∧
        error.kind = .unexpectedEnd

/-- A loop that is done ends with its next step, or goes on behind it. -/
theorem iterate_eq_done {step : σ → Reader (σ ⊕ α)} {state : σ} {content : ByteArray}
    {position stop : Nat} {value : α}
    (h : iterate step state content position = .done value stop) :
    step state content position = .done (.inr value) stop ∨
      ∃ state' next, step state content position = .done (.inl state') next ∧ position < next ∧
        next ≤ content.size ∧ iterate step state' content next = .done value stop := by
  rw [iterate] at h
  cases hstep : step state content position with
  | failed error stopped =>
    rw [hstep] at h
    cases h
  | done found next =>
    rw [hstep] at h
    cases found with
    | inr last =>
      cases h
      exact .inl rfl
    | inl state' =>
      dsimp only at h
      split at h
      · next hadvances => exact .inr ⟨state', next, rfl, hadvances.1, hadvances.2, h⟩
      · cases h

namespace Sequential

/-! ### Steps in a row -/

protected theorem pure (value : α) : Sequential (Pure.pure value : Reader α) where
  advances h := by
    cases h
    exact Nat.le_refl _
  whole h _ := by
    cases h
    rfl
  short h hposition hshort := by
    cases h
    omega

protected theorem failAt (kind : ErrorKind) (offset : Nat) :
    Sequential (Reader.failAt kind offset : Reader α) := ⟨nofun, nofun, nofun⟩

protected theorem position : Sequential Reader.position where
  advances h := by
    cases h
    exact Nat.le_refl _
  whole h _ := by
    cases h
    rfl
  short h hposition hshort := by
    cases h
    omega

protected theorem bind {reader : Reader α} {step : α → Reader β} (h : Sequential reader)
    (hstep : ∀ value, Sequential (step value)) : Sequential (reader >>= step) where
  advances hdone := by
    obtain ⟨first, middle, hfirst, hrest⟩ := bind_eq_done_iff.mp hdone
    exact Nat.le_trans (h.advances hfirst) ((hstep first).advances hrest)
  whole hdone hnext := by
    obtain ⟨first, middle, hfirst, hrest⟩ := bind_eq_done_iff.mp hdone
    have hmiddle := (hstep first).advances hrest
    exact bind_eq_done_iff.mpr
      ⟨first, middle, h.whole hfirst (by omega), (hstep first).whole hrest hnext⟩
  short hdone hposition hshort := by
    obtain ⟨first, middle, hfirst, hrest⟩ := bind_eq_done_iff.mp hdone
    rw [bind_apply]
    rcases Nat.lt_or_ge _ middle with hcut | hcut
    · obtain ⟨error, stopped, hfailed, hkind⟩ := h.short hfirst hposition hcut
      exact ⟨error, stopped, by rw [hfailed], hkind⟩
    · rw [h.whole hfirst hcut]
      exact (hstep first).short hrest hcut hshort

theorem ite {condition : Prop} [Decidable condition] {left right : Reader α}
    (htrue : Sequential left) (hfalse : Sequential right) :
    Sequential (if condition then left else right) := by
  by_cases h : condition
  · rwa [if_pos h]
  · rwa [if_neg h]

/-! ### Numbers -/

protected theorem word (width : Nat) : Sequential (Reader.word width) where
  advances h := by
    obtain ⟨-, -, rfl⟩ := word_eq_done_iff.mp h
    exact Nat.le_add_right _ _
  whole {content position next limit value} h hnext := by
    obtain ⟨hle, rfl, rfl⟩ := word_eq_done_iff.mp h
    have hcut : position + width ≤ (content.extract 0 limit).size := by
      rw [ByteArray.size_extract]
      omega
    have hread := LittleEndian.read_append_left hcut (content.extract limit content.size)
    rw [ByteArray.extract_append_extract, Nat.zero_min, ByteArray.extract_zero_max_size] at hread
    exact word_eq_done_iff.mpr ⟨hcut, hread, rfl⟩
  short {content position next limit value} h hposition hshort := by
    obtain ⟨-, -, rfl⟩ := word_eq_done_iff.mp h
    refine ⟨.ofKindAt .unexpectedEnd position, position, ?_, rfl⟩
    rw [Reader.word, if_neg]
    rw [ByteArray.size_extract]
    omega

protected theorem uint16 : Sequential Reader.uint16 := (Sequential.word 2).bind fun _ => .pure _

protected theorem uint32 : Sequential Reader.uint32 := (Sequential.word 4).bind fun _ => .pure _

protected theorem int32 : Sequential Reader.int32 := Sequential.uint32.bind fun _ => .pure _

protected theorem skip (count : Nat) : Sequential (Reader.skip count) where
  advances h := by
    obtain ⟨-, -, rfl⟩ := Stable.skip_eq_done_iff.mp h
    exact Nat.le_add_right _ _
  whole {content position next limit start} h hnext := by
    obtain ⟨hle, rfl, rfl⟩ := Stable.skip_eq_done_iff.mp h
    refine Stable.skip_eq_done_iff.mpr ⟨?_, rfl, rfl⟩
    rw [ByteArray.size_extract]
    omega
  short {content position next limit start} h hposition hshort := by
    obtain ⟨-, -, rfl⟩ := Stable.skip_eq_done_iff.mp h
    refine ⟨.ofKindAt .unexpectedEnd position, position, ?_, rfl⟩
    rw [Reader.skip, if_neg]
    rw [ByteArray.size_extract]
    omega

/-! ### Loops -/

protected theorem times (count : Nat) {item : Reader α} (hitem : Sequential item) :
    Sequential (Reader.times count item) := by
  have honto : ∀ before : Array α, Sequential (Reader.timesOnto item before count) := by
    induction count with
    | zero => exact fun before => .pure before.toList
    | succ count ih => exact fun before => hitem.bind fun value => ih (before.push value)
  exact honto #[]

theorem iterate_advances {step : σ → Reader (σ ⊕ α)} (hstep : ∀ state, Sequential (step state))
    {state : σ} {content : ByteArray} {position next : Nat} {value : α}
    (h : Reader.iterate step state content position = .done value next) : position ≤ next :=
  @iterate_backward _ _ content position step (· ≤ next) (· ≤ next)
    (fun hfirst hle => Nat.le_trans ((hstep _).advances hfirst) hle)
    (fun hlast hle => Nat.le_trans ((hstep _).advances hlast) hle) _ _ _ h (Nat.le_refl _)

protected theorem iterate {step : σ → Reader (σ ⊕ α)} (hstep : ∀ state, Sequential (step state))
    (state : σ) : Sequential (Reader.iterate step state) where
  advances := iterate_advances hstep
  whole {content position next limit value} h hnext := by
    induction hlength : content.size - position using Nat.strongRecOn
      generalizing position state with
    | ind _ ih =>
      subst hlength
      rcases iterate_eq_done h with hlast | ⟨state', middle, hfirst, hlt, hle, hrest⟩
      · exact iterate_of_done ((hstep state).whole hlast hnext)
      · have hcut := Nat.le_trans (iterate_advances hstep hrest) hnext
        have hsize : middle ≤ (content.extract 0 limit).size := by
          rw [ByteArray.size_extract]
          omega
        rw [iterate_of_step ((hstep state).whole hfirst hcut) hlt hsize]
        exact ih _ (by omega) state' hrest rfl
  short {content position next limit value} h hposition hshort := by
    induction hlength : content.size - position using Nat.strongRecOn
      generalizing position state with
    | ind _ ih =>
      subst hlength
      rcases iterate_eq_done h with hlast | ⟨state', middle, hfirst, hlt, hle, hrest⟩
      · obtain ⟨error, stopped, hfailed, hkind⟩ := (hstep state).short hlast hposition hshort
        exact ⟨error, stopped, iterate_of_failed hfailed, hkind⟩
      rcases Nat.lt_or_ge limit middle with hcut | hcut
      · obtain ⟨error, stopped, hfailed, hkind⟩ := (hstep state).short hfirst hposition hcut
        exact ⟨error, stopped, iterate_of_failed hfailed, hkind⟩
      · have hsize : middle ≤ (content.extract 0 limit).size := by
          rw [ByteArray.size_extract]
          omega
        rw [iterate_of_step ((hstep state).whole hfirst hcut) hlt hsize]
        exact ih _ (by omega) state' hrest hcut rfl

protected theorem utf16String : Sequential Reader.utf16String := by
  refine Sequential.position.bind fun start => .bind (.iterate (fun units => ?_) _) fun units => ?_
  · exact Sequential.uint16.bind fun unit => .ite (.pure _) (.pure _)
  · cases Utf16.decode units.toList with
    | some text => exact .pure text
    | none => exact .failAt ..

end Sequential

end Reader

end ManagedPdb
