import ManagedPdb.Proofs.Draft.SourceStream

/-!
# What readers ensure

A property of the values of a reader (`Reader.Ensures`) is carried through its steps and its loops.
A reader that begins by going to a place of its own reads the same from everywhere
(`Reader.Restarts`).
-/

namespace ManagedPdb.Reader

variable {α β σ : Type}

namespace Ensures

variable {P : α → Prop} {Q : β → Prop} {R : σ → Prop}

/-- A step that goes on with a value that has a property. -/
theorem bind_of {reader : Reader α} {next : α → Reader β} (h : Ensures P reader)
    (hnext : ∀ value, P value → Ensures Q (next value)) : Ensures Q (reader >>= next) := by
  intro content position value stop hdone
  obtain ⟨first, middle, hfirst, hnext'⟩ := bind_eq_done_iff.mp hdone
  exact hnext first (h content position first middle hfirst) content middle value stop hnext'

theorem ite {condition : Prop} [Decidable condition] {left right : Reader α}
    (htrue : Ensures P left) (hfalse : Ensures P right) :
    Ensures P (if condition then left else right) := by
  by_cases h : condition
  · rwa [if_pos h]
  · rwa [if_neg h]

/-- A failure gives no value. -/
theorem fail_bind {error : DecodeError} {next : α → Reader β} :
    Ensures Q (Reader.fail error >>= next) := nofun

/-- A loop carries what each of its steps does. -/
protected theorem iterate {step : σ → Reader (σ ⊕ α)}
    (hstep : ∀ state, R state → Ensures (Sum.elim R P) (step state)) {state : σ} (h : R state) :
    Ensures P (Reader.iterate step state) := by
  intro content position value stop hdone
  induction hlength : content.size - position using Nat.strongRecOn generalizing position state with
  | ind _ ih =>
    subst hlength
    rw [Reader.iterate] at hdone
    cases hfirst : step state content position with
    | failed error stopped =>
      rw [hfirst] at hdone
      cases hdone
    | done found next =>
      rw [hfirst] at hdone
      have hfound := hstep state h content position found next hfirst
      cases found with
      | inr last =>
        cases hdone
        exact hfound
      | inl state' =>
        dsimp only at hdone
        split at hdone
        · exact ih _ (by omega) hfound next hdone rfl
        · cases hdone

/-- A loop up to `stop` carries what each of its steps does, which starts in front of `stop`. -/
theorem whileBelow_forward {stop : Nat} {body : σ → Reader σ} {content : ByteArray}
    (hbody : ∀ {state position state' next}, position < stop → R state →
      body state content position = .done state' next → R state')
    {state value : σ} {position last : Nat} (h : R state)
    (hdone : Reader.whileBelow stop body state content position = .done value last) : R value := by
  induction hlength : content.size - position using Nat.strongRecOn generalizing position state with
  | ind _ ih =>
    subst hlength
    rcases Nat.lt_or_ge position stop with hstart | hstop
    · rcases whileBelow_eq_done hdone with ⟨-, rfl, -⟩ | ⟨state', next, hfirst, hlt, hle, hrest⟩
      · exact h
      · exact ih _ (by omega) (hbody hstart h hfirst) hrest rfl
    · rw [whileBelow_of_le hstop] at hdone
      cases hdone
      exact h

protected theorem whileBelow (stop : Nat) {body : σ → Reader σ}
    (hbody : ∀ state, R state → Ensures R (body state)) {state : σ} (h : R state) :
    Ensures R (Reader.whileBelow stop body state) :=
  fun _ _ _ _ hdone => whileBelow_forward (fun _ h => hbody _ h _ _ _ _) h hdone

end Ensures

/-! ### Places of their own -/

/-- Where the reader starts does not matter to what it reads. -/
def Restarts (reader : Reader α) : Prop :=
  ∀ content position position' value stop, reader content position = .done value stop →
    reader content position' = .done value stop

namespace Restarts

protected theorem seek (target : Nat) : Restarts (Reader.seek target) := by
  intro content position position' value stop h
  rw [seek_eq_done_iff] at h ⊢
  exact h

protected theorem bind {reader : Reader α} {next : α → Reader β} (h : reader.Restarts) :
    Restarts (reader >>= next) := by
  intro content position position' value stop hdone
  obtain ⟨first, middle, hfirst, hnext⟩ := bind_eq_done_iff.mp hdone
  have hfirst' := h content position position' first middle hfirst
  exact bind_eq_done_iff.mpr ⟨first, middle, hfirst', hnext⟩

theorem run {reader : Reader α} (h : reader.Restarts) {content : ByteArray} {position stop : Nat}
    {value : α} (hdone : reader content position = .done value stop) :
    reader.run content = .ok value :=
  run_eq_ok_iff.mpr ⟨stop, h content position 0 value stop hdone⟩

end Restarts

end ManagedPdb.Reader
