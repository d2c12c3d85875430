import ManagedPdb.Proofs.Loops
import Mathlib.Algebra.Order.Floor.Div

/-!
# Rounds of loops

A loop of a reader that does not advance is ended by `Reader.iterate` itself, with an error.  The
loops here look after nothing of that kind: they go on for a number of rounds, and give nothing if
they are not over by then (`Reader.iterateFor`, `Reader.whileFor`).  Where every round takes a
number of bytes, a region of a size is enough for as many rounds as it has such pieces, rounded up,
and the loop is the same with and without the check (`Reader.iterateFor_eq`, `Reader.EndsWithin`).
-/

namespace ManagedPdb.Reader

variable {α σ : Type}

/-- Repeats `step` on a state for at most so many rounds, until it gives a result. -/
def iterateFor (step : σ → Reader (σ ⊕ α)) (content : ByteArray) :
    (rounds : Nat) → (state : σ) → (position : Nat) → Option (Outcome α)
  | 0, _, _ => none
  | rounds + 1, state, position =>
    match step state content position with
    | .failed error stopped => some (.failed error stopped)
    | .done (.inr value) next => some (.done value next)
    | .done (.inl state) next => iterateFor step content rounds state next

/-- Repeats `body` on a state for at most so many rounds while the position is below `stop`. -/
def whileFor (stop : Nat) (body : σ → Reader σ) (content : ByteArray) :
    (rounds : Nat) → (state : σ) → (position : Nat) → Option (Outcome σ)
  | 0, state, position => if position < stop then none else some (.done state position)
  | rounds + 1, state, position =>
    if position < stop then
      match body state content position with
      | .failed error stopped => some (.failed error stopped)
      | .done state next => whileFor stop body content rounds state next
    else some (.done state position)

variable {content : ByteArray} {width limit stop rounds position : Nat}

/-- A loop whose steps take `width` bytes and stay inside a region has one round for each `width`
bytes of it, and one that fails. -/
theorem iterateFor_eq {step : σ → Reader (σ ⊕ α)} (hwidth : 0 < width)
    (advances : ∀ {state found position next}, step state content position = .done found next →
      position + width ≤ next ∧ next ≤ limit ∧ next ≤ content.size)
    (state : σ) (inside : position ≤ limit) (enough : limit < position + rounds * width) :
    iterateFor step content rounds state position = some (iterate step state content position) := by
  induction rounds generalizing state position with
  | zero => omega
  | succ rounds ih =>
    rw [iterateFor]
    cases hstep : step state content position with
    | failed error stopped => rw [iterate_of_failed hstep]
    | done found next =>
      obtain ⟨hnext, hlimit, hsize⟩ := advances hstep
      cases found with
      | inr value => rw [iterate_of_done hstep]
      | inl state' =>
        rw [iterate_of_step hstep (by omega) hsize]
        refine ih state' hlimit ?_
        rw [Nat.succ_mul] at enough
        omega

/-- A loop up to `stop` whose rounds take `width` bytes has one round for each `width` bytes in
front of `stop`.  Where it matters at which places the rounds start, each round leads to such a
place. -/
theorem whileFor_eq {body : σ → Reader σ} {P : Nat → Prop} (hwidth : 0 < width)
    (advances : ∀ {state state' position next}, P position →
      body state content position = .done state' next →
      position + width ≤ next ∧ next ≤ content.size ∧ P next)
    (state : σ) (place : P position) (enough : stop ≤ position + rounds * width) :
    whileFor stop body content rounds state position
      = some (whileBelow stop body state content position) := by
  induction rounds generalizing state position with
  | zero =>
    have hstop : stop ≤ position := by omega
    rw [whileFor, if_neg (Nat.not_lt.mpr hstop), whileBelow_of_le hstop]
  | succ rounds ih =>
    rw [whileFor]
    rcases Nat.lt_or_ge position stop with hlt | hle
    · have hbody : ∀ state' next, body state content position = .done state' next →
          position < next ∧ next ≤ content.size := by
        intro state' next hdone
        obtain ⟨hnext, hsize, -⟩ := advances place hdone
        exact ⟨by omega, hsize⟩
      rw [if_pos hlt, whileBelow_of_lt hlt hbody, bind_apply]
      cases hfirst : body state content position with
      | failed error stopped => rfl
      | done state' next =>
        obtain ⟨hnext, -, place'⟩ := advances place hfirst
        refine ih state' place' ?_
        rw [Nat.succ_mul] at enough
        omega
    · rw [if_neg (Nat.not_lt.mpr hle), whileBelow_of_le hle]

/-- Of items that take `width` bytes and stay inside a region, only so many are read, and one that
fails. -/
theorem times_eq_min {item : Reader α} {count : Nat}
    (advances : ∀ {position value next}, item content position = .done value next →
      position + width ≤ next ∧ next ≤ limit)
    (hrounds : 0 < rounds) (enough : limit < position + rounds * width) :
    times count item content position = times (min count rounds) item content position := by
  have honto : ∀ before : Array α, timesOnto item before count content position
      = timesOnto item before (min count rounds) content position := by
    induction count generalizing rounds position with
    | zero =>
      intro before
      rw [Nat.zero_min]
    | succ count ih =>
      intro before
      obtain ⟨rounds, rfl⟩ := Nat.exists_eq_add_one_of_ne_zero hrounds.ne'
      rw [Nat.add_min_add_right, timesOnto, timesOnto]
      cases hitem : item content position with
      | failed error stopped => rfl
      | done value next =>
        obtain ⟨hnext, hlimit⟩ := advances hitem
        rw [Nat.succ_mul] at enough
        have hmore : 0 < rounds := by
          rcases Nat.eq_zero_or_pos rounds with rfl | hpos
          · omega
          · exact hpos
        exact ih hmore (by omega) (before.push value)
  exact honto #[]

/-- A loop up to `stop` that never goes beyond it ends there. -/
theorem eq_stop_of_whileBelow {body : σ → Reader σ}
    (inside : ∀ {state state' position next}, body state content position = .done state' next →
      next ≤ stop)
    {state value : σ} {last : Nat} (hstart : position ≤ stop)
    (h : whileBelow stop body state content position = .done value last) : last = stop := by
  induction hlength : content.size - position using Nat.strongRecOn
    generalizing position state with
  | ind _ ih =>
    subst hlength
    rcases whileBelow_eq_done h with ⟨hle, -, rfl⟩ | ⟨state', next, hfirst, hlt, hsize, hrest⟩
    · exact Nat.le_antisymm hstart hle
    · exact ih _ (by omega) (inside hfirst) hrest rfl

/-- Pieces of a size, rounded up, cover a region. -/
theorem le_add_ceilDiv_mul (hwidth : 0 < width) :
    stop ≤ position + (stop - position) ⌈/⌉ width * width := by
  have hcover : stop - position ≤ width • ((stop - position) ⌈/⌉ width) := le_smul_ceilDiv hwidth
  rw [smul_eq_mul, Nat.mul_comm] at hcover
  omega

/-- The loop up to `stop` is over within one round for each `width` bytes of its region. -/
def EndsWithin (content : ByteArray) (width stop : Nat) (body : σ → Reader σ)
    (position : Nat) : Prop :=
  ∀ state, whileFor stop body content ((stop - position) ⌈/⌉ width) state position
    = some (whileBelow stop body state content position)

/-- A loop whose rounds take `width` bytes, wherever they start. -/
theorem EndsWithin.of_advances {width stop : Nat} {body : σ → Reader σ}
    (hwidth : 0 < width)
    (advances : ∀ {state state' position next}, body state content position = .done state' next →
      position + width ≤ next ∧ next ≤ content.size) :
    EndsWithin content width stop body position := fun state =>
  whileFor_eq (P := fun _ => True) hwidth
    (fun _ hdone => ⟨(advances hdone).1, (advances hdone).2, trivial⟩) state trivial
    (le_add_ceilDiv_mul hwidth)

end ManagedPdb.Reader
