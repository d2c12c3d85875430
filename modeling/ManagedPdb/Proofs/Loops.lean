import ManagedPdb.Proofs.Simulation

/-!
# What loops come by

A loop that runs up to an offset comes by states and positions (`Reader.Reaches`).  Two loops end
alike if they do so from every state that the left one comes by (`OutcomeSim.whileBelow`), so that
an excuse may say where in the loop it arose.  Unlike `ReaderSim` this is about one content.
-/

namespace ManagedPdb

variable {α β γ δ σ τ : Type} {Excused : DecodeError → Prop}

/-- A reader made of two steps fails in the first or in the second. -/
theorem Reader.bind_eq_failed_iff {reader : Reader α} {next : α → Reader β} {content : ByteArray}
    {position stopped : Nat} {error : DecodeError} :
    (reader >>= next) content position = .failed error stopped ↔
      reader content position = .failed error stopped ∨
        ∃ value middle, reader content position = .done value middle ∧
          next value content middle = .failed error stopped := by
  rw [bind_apply]
  cases hreader : reader content position with
  | done value middle => simp
  | failed error middle => simp

/-- The loop up to `stop` that starts with `first` at `start` comes by a state at a position. -/
inductive Reader.Reaches (stop : Nat) (body : σ → Reader σ) (content : ByteArray) (first : σ)
    (start : Nat) : σ → Nat → Prop
  | start : Reaches stop body content first start first start
  | step {state state' : σ} {position next : Nat} :
      Reaches stop body content first start state position → position < stop →
        body state content position = .done state' next → position < next → next ≤ content.size →
          Reaches stop body content first start state' next

/-- A loop goes on from every state that it comes by. -/
theorem Reader.Reaches.whileBelow_eq {stop : Nat} {body : σ → Reader σ} {content : ByteArray}
    {first state : σ} {start position : Nat}
    (reaches : Reaches stop body content first start state position) :
    whileBelow stop body first content start = whileBelow stop body state content position := by
  induction reaches with
  | start => rfl
  | step _ hlt hbody hnext hsize ih =>
    rw [ih, whileBelow_of_lt hlt, bind_apply, hbody]
    intro state' next hdone
    rw [hbody] at hdone
    cases hdone
    exact ⟨hnext, hsize⟩

namespace OutcomeSim

variable {Related : α → β → Prop} {Related' : γ → δ → Prop} {content : ByteArray} {position : Nat}

protected theorem bind {left : Reader α} {right : Reader β} {next : α → Reader γ}
    {next' : β → Reader δ}
    (h : OutcomeSim Excused Related (left content position) (right content position))
    (hnext : ∀ value value' middle, left content position = .done value middle →
      Related value value' →
        OutcomeSim Excused Related' (next value content middle) (next' value' content middle)) :
    OutcomeSim Excused Related' ((left >>= next) content position)
      ((right >>= next') content position) := by
  rw [Reader.bind_apply, Reader.bind_apply]
  cases hleft : left content position with
  | done value middle =>
    rw [hleft] at h
    generalize right content position = outcome at h ⊢
    cases h with
    | done _ related => exact hnext _ _ _ hleft related
  | failed error stopped =>
    rw [hleft] at h
    generalize right content position = outcome at h ⊢
    cases h with
    | failed => exact .failed ..
    | excused _ _ excused => exact .excused _ _ excused

/-- A step that both readers share. -/
theorem bind_same {reader : Reader α} {next : α → Reader γ} {next' : α → Reader δ}
    (hnext : ∀ value middle, reader content position = .done value middle →
      OutcomeSim Excused Related' (next value content middle) (next' value content middle)) :
    OutcomeSim Excused Related' ((reader >>= next) content position)
      ((reader >>= next') content position) := by
  refine OutcomeSim.bind (ReaderSim.refl reader content position) ?_
  rintro value _ middle hdone rfl
  exact hnext value middle hdone

/-- More errors are excused, and less is said of the values. -/
theorem mono {Excused' : DecodeError → Prop} {Related' : α → β → Prop} {left : Outcome α}
    {right : Outcome β} (h : OutcomeSim Excused Related left right)
    (excused : ∀ error, Excused error → Excused' error)
    (related : ∀ value value', Related value value' → Related' value value') :
    OutcomeSim Excused' Related' left right := by
  cases h with
  | done position h => exact .done position (related _ _ h)
  | failed error position => exact .failed error position
  | excused position right h => exact .excused position right (excused _ h)

/-- Loops that go on alike from every state that the left one comes by. -/
theorem whileBelow {Related : σ → τ → Prop} {stop : Nat} {body : σ → Reader σ}
    {body' : τ → Reader τ} {first : σ} {start : Nat}
    (hbody : ∀ state state' position, Reader.Reaches stop body content first start state position →
      position < stop → Related state state' →
        OutcomeSim Excused Related (body state content position) (body' state' content position))
    {state : σ} {state' : τ} {position : Nat}
    (reaches : Reader.Reaches stop body content first start state position)
    (related : Related state state') :
    OutcomeSim Excused Related (Reader.whileBelow stop body state content position)
      (Reader.whileBelow stop body' state' content position) := by
  -- on the bytes that are left; a step takes what is reached to what is reached
  induction hlength : content.size - position using Nat.strongRecOn
    generalizing position state state' with
  | ind _ ih =>
    subst hlength
    unfold Reader.whileBelow
    rw [Reader.iterate, Reader.iterate, Reader.bind_apply, Reader.bind_apply,
      Reader.position_apply]
    by_cases hstop : position < stop
    · have hnext := hbody state state' position reaches hstop related
      simp only [if_pos hstop, Reader.bind_apply]
      cases hfirst : body state content position with
      | done after next =>
        rw [hfirst] at hnext
        generalize body' state' content position = outcome at hnext ⊢
        cases hnext with
        | done _ related =>
          simp only [Reader.pure_apply]
          split
          · next hadvances =>
            have reaches' := reaches.step hstop hfirst hadvances.1 hadvances.2
            exact ih _ (by omega) reaches' related rfl
          · exact .failed _ _
      | failed error stopped =>
        rw [hfirst] at hnext
        generalize body' state' content position = outcome at hnext ⊢
        cases hnext with
        | failed => exact .failed ..
        | excused _ _ excused => exact .excused _ _ excused
    · simp only [if_neg hstop, Reader.pure_apply]
      exact .done _ related

/-- What is read from the start of a content. -/
theorem run {left : Reader α} {right : Reader β}
    (h : OutcomeSim Excused Related (left content 0) (right content 0)) :
    ResultSim Excused Related (left.run content) (right.run content) := by
  unfold Reader.run
  generalize left content 0 = outcome at h ⊢
  generalize right content 0 = outcome' at h ⊢
  cases h with
  | done _ related => exact .ok related
  | failed error _ => exact .error error
  | excused _ _ excused => exact .excused _ excused

end OutcomeSim

/-- More errors are excused. -/
theorem ResultSim.mono {Excused' : DecodeError → Prop} {Related : α → β → Prop}
    {left : Except DecodeError α} {right : Except DecodeError β}
    (h : ResultSim Excused Related left right) (excused : ∀ error, Excused error → Excused' error) :
    ResultSim Excused' Related left right := by
  cases h with
  | ok related => exact .ok related
  | error error => exact .error error
  | excused right h => exact .excused right (excused _ h)

/-- Two readers that end alike everywhere do so here. -/
theorem ReaderSim.outcome {Related : α → β → Prop} {left : Reader α} {right : Reader β}
    (h : ReaderSim NoExcuse Related left right) (content : ByteArray) (position : Nat) :
    OutcomeSim Excused Related (left content position) (right content position) :=
  (h content position).mono (fun _ => False.elim) fun _ _ => id

/-- The next steps may use what the left result is. -/
theorem ResultSim.bind_of {Related : α → β → Prop} {Related' : γ → δ → Prop}
    {left : Except DecodeError α} {right : Except DecodeError β} {next : α → Except DecodeError γ}
    {next' : β → Except DecodeError δ} (h : ResultSim Excused Related left right)
    (hnext : ∀ value value', left = .ok value → Related value value' →
      ResultSim Excused Related' (next value) (next' value')) :
    ResultSim Excused Related' (left >>= next) (right >>= next') := by
  cases h with
  | ok related => exact hnext _ _ rfl related
  | error error => exact .error error
  | excused _ excused => exact .excused _ excused

/-- Rows of steps over changed items that end alike.  The steps that the left row has taken are
known. -/
theorem ResultSim.foldlM_map {Related : σ → τ → Prop} {step : σ → α → Except DecodeError σ}
    {step' : τ → β → Except DecodeError τ} (change : α → β) {first : σ} (items : List α)
    (hstep : ∀ before item after state state', items = before ++ item :: after →
      before.foldlM step first = .ok state → Related state state' →
        ResultSim Excused Related (step state item) (step' state' (change item)))
    {first' : τ} (related : Related first first') :
    ResultSim Excused Related (items.foldlM step first)
      ((items.map change).foldlM step' first') := by
  induction items generalizing first first' with
  | nil => exact .ok related
  | cons item items ih =>
    rw [List.map_cons, List.foldlM_cons, List.foldlM_cons]
    have hfirst := hstep [] item items first first' rfl rfl related
    cases hitem : step first item with
    | error error =>
      rw [hitem] at hfirst
      generalize step' first' (change item) = right at hfirst ⊢
      cases hfirst with
      | error => exact .error _
      | excused _ excused => exact .excused _ excused
    | ok state =>
      rw [hitem] at hfirst
      generalize step' first' (change item) = right at hfirst ⊢
      cases hfirst with
      | ok related =>
        refine ih ?_ related
        intro before later after state' state'' hitems hbefore
        refine hstep (item :: before) later after state' state'' (by rw [hitems]; rfl) ?_
        rw [List.foldlM_cons, hitem]
        exact hbefore

end ManagedPdb
