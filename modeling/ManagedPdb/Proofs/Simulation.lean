import ManagedPdb.Line.Checksum
import ManagedPdb.Proofs.Reader

/-!
# Readers side by side

Two readers that differ only in what they keep for themselves end in the same way, at the same
place and with the same error.  `ResultSim` and `OutcomeSim` say so of how they end: the values
are related, or both fail alike.  A failure of the left one may be excused, which leaves the right
one free.

The loader of source files is where readers differ.  If two loaders do the same to related states,
then so do the readers of checksum records that use them (`ChecksumTable.read_sim`).
-/

namespace ManagedPdb

variable {α β γ δ σ τ : Type} {Excused : DecodeError → Prop}

/-- No error is excused. -/
def NoExcuse : DecodeError → Prop := fun _ => False

/-- The left result is what the right one is, up to a relation of the values. -/
inductive ResultSim (Excused : DecodeError → Prop) (Related : α → β → Prop) :
    Except DecodeError α → Except DecodeError β → Prop
  | ok {left right} : Related left right → ResultSim Excused Related (.ok left) (.ok right)
  | error (error) : ResultSim Excused Related (.error error) (.error error)
  | excused {error} (right) : Excused error → ResultSim Excused Related (.error error) right

/-- The left reader ends as the right one does, up to a relation of the values. -/
inductive OutcomeSim (Excused : DecodeError → Prop) (Related : α → β → Prop) :
    Outcome α → Outcome β → Prop
  | done {left right} (position) : Related left right →
      OutcomeSim Excused Related (.done left position) (.done right position)
  | failed (error position) :
      OutcomeSim Excused Related (.failed error position) (.failed error position)
  | excused {error} (position right) : Excused error →
      OutcomeSim Excused Related (.failed error position) right

namespace ResultSim

variable {Related : α → β → Prop} {Related' : γ → δ → Prop}

protected theorem refl (result : Except DecodeError α) : ResultSim Excused Eq result result := by
  cases result with
  | ok value => exact .ok rfl
  | error error => exact .error error

protected theorem bind {left : Except DecodeError α} {right : Except DecodeError β}
    {next : α → Except DecodeError γ} {next' : β → Except DecodeError δ}
    (h : ResultSim Excused Related left right)
    (hnext : ∀ value value', Related value value' →
      ResultSim Excused Related' (next value) (next' value')) :
    ResultSim Excused Related' (left >>= next) (right >>= next') := by
  cases h with
  | ok related => exact hnext _ _ related
  | error error => exact .error error
  | excused _ excused => exact .excused _ excused

/-- Without excuses, results with equal values are equal. -/
theorem eq {left right : Except DecodeError α} (h : ResultSim NoExcuse Eq left right) :
    left = right := by
  cases h with
  | ok related => rw [related]
  | error error => rfl
  | excused _ excused => exact excused.elim

theorem foldlM {Related : σ → τ → Prop} {step : σ → α → Except DecodeError σ}
    {step' : τ → α → Except DecodeError τ} (items : List α)
    (hstep : ∀ item ∈ items, ∀ state state', Related state state' →
      ResultSim Excused Related (step state item) (step' state' item))
    {state : σ} {state' : τ} (related : Related state state') :
    ResultSim Excused Related (items.foldlM step state) (items.foldlM step' state') := by
  induction items generalizing state state' with
  | nil => exact .ok related
  | cons item items ih =>
    rw [List.foldlM_cons, List.foldlM_cons]
    refine (hstep item (by simp) state state' related).bind ?_
    intro next next' related
    apply ih _ related
    intro item member
    exact hstep item (List.mem_cons_of_mem _ member)

end ResultSim

/-! ### Readers -/

/-- The left reader does what the right one does, on every content and from every position. -/
def ReaderSim (Excused : DecodeError → Prop) (Related : α → β → Prop) (left : Reader α)
    (right : Reader β) : Prop :=
  ∀ content position, OutcomeSim Excused Related (left content position) (right content position)

namespace ReaderSim

variable {Related : α → β → Prop} {Related' : γ → δ → Prop} {left : Reader α} {right : Reader β}

protected theorem pure {value : α} {value' : β} (related : Related value value') :
    ReaderSim Excused Related (pure value) (pure value') :=
  fun _ position => .done position related

protected theorem refl (reader : Reader α) : ReaderSim Excused Eq reader reader := by
  intro content position
  cases reader content position with
  | done value stop => exact .done stop rfl
  | failed error stop => exact .failed error stop

protected theorem bind {next : α → Reader γ} {next' : β → Reader δ}
    (h : ReaderSim Excused Related left right)
    (hnext : ∀ value value', Related value value' →
      ReaderSim Excused Related' (next value) (next' value')) :
    ReaderSim Excused Related' (left >>= next) (right >>= next') := by
  intro content position
  have hfirst := h content position
  rw [Reader.bind_apply, Reader.bind_apply]
  generalize left content position = outcome at hfirst ⊢
  generalize right content position = outcome' at hfirst ⊢
  cases hfirst with
  | done middle related => exact hnext _ _ related content middle
  | failed error stop => exact .failed error stop
  | excused stop _ excused => exact .excused stop _ excused

/-- A step that both readers share. -/
theorem bind_same {reader : Reader α} {next : α → Reader γ} {next' : α → Reader δ}
    (hnext : ∀ value, ReaderSim Excused Related' (next value) (next' value)) :
    ReaderSim Excused Related' (reader >>= next) (reader >>= next') :=
  (ReaderSim.refl reader).bind fun value _ heq => heq ▸ hnext value

theorem ite {condition : Prop} [Decidable condition] {left' : Reader α} {right' : Reader β}
    (htrue : ReaderSim Excused Related left right)
    (hfalse : ReaderSim Excused Related left' right') :
    ReaderSim Excused Related (if condition then left else left')
      (if condition then right else right') := by
  by_cases h : condition
  · rwa [if_pos h, if_pos h]
  · rwa [if_neg h, if_neg h]

theorem ofExcept {left : Except DecodeError α} {right : Except DecodeError β}
    (h : ResultSim Excused Related left right) :
    ReaderSim Excused Related (Reader.ofExcept left) (Reader.ofExcept right) := by
  intro content position
  cases h with
  | ok related => exact .done position related
  | error error => exact .failed error position
  | excused _ excused => exact .excused position _ excused

/-- Loops that go on and end alike.  Since both stand at the same place, they notice together that
nothing is left. -/
theorem iterate {Related : σ → τ → Prop} {step : σ → Reader (σ ⊕ α)} {step' : τ → Reader (τ ⊕ β)}
    {Ended : α → β → Prop}
    (hstep : ∀ state state', Related state state' →
      ReaderSim Excused (Sum.LiftRel Related Ended) (step state) (step' state'))
    {state : σ} {state' : τ} (related : Related state state') :
    ReaderSim Excused Ended (Reader.iterate step state) (Reader.iterate step' state') := by
  intro content position
  induction hlength : content.size - position using Nat.strongRecOn
    generalizing position state state' with
  | ind _ ih =>
    subst hlength
    have hnext := hstep state state' related content position
    rw [Reader.iterate, Reader.iterate]
    generalize step state content position = outcome at hnext ⊢
    generalize step' state' content position = outcome' at hnext ⊢
    cases hnext with
    | done next related =>
      cases related with
      | inl related =>
        dsimp only
        split
        · exact ih _ (by omega) related _ rfl
        · exact .failed _ _
      | inr ended => exact .done next ended
    | failed error stop => exact .failed error stop
    | excused stop _ excused => exact .excused stop _ excused

theorem whileBelow {Related : σ → τ → Prop} {stop : Nat} {body : σ → Reader σ}
    {body' : τ → Reader τ}
    (hbody : ∀ state state', Related state state' →
      ReaderSim Excused Related (body state) (body' state'))
    {state : σ} {state' : τ} (related : Related state state') :
    ReaderSim Excused Related (Reader.whileBelow stop body state)
      (Reader.whileBelow stop body' state') := by
  apply iterate _ related
  intro state state' related
  apply bind_same
  intro position
  by_cases hstop : position < stop
  · simp only [if_pos hstop]
    exact (hbody state state' related).bind fun _ _ related => .pure (.inl related)
  · simp only [if_neg hstop]
    exact .pure (.inr related)

/-- Where the left reader is done, so is the right one, with a related value. -/
theorem exists_done (h : ReaderSim Excused Related left right) {content : ByteArray}
    {position stop : Nat} {value : α} (hdone : left content position = .done value stop) :
    ∃ value', right content position = .done value' stop ∧ Related value value' := by
  have hright := h content position
  rw [hdone] at hright
  generalize right content position = outcome at hright ⊢
  cases hright with
  | done _ related => exact ⟨_, rfl, related⟩

/-- What is read from the start of a content. -/
theorem run (h : ReaderSim Excused Related left right) (content : ByteArray) :
    ResultSim Excused Related (left.run content) (right.run content) := by
  have hstart := h content 0
  unfold Reader.run
  generalize left content 0 = outcome at hstart ⊢
  generalize right content 0 = outcome' at hstart ⊢
  cases hstart with
  | done _ related => exact .ok related
  | failed error _ => exact .error error
  | excused _ _ excused => exact .excused _ excused

end ReaderSim

/-! ### Checksum records -/

/-- The left loader does to its states what the right one does to theirs. -/
def LoaderSim (Excused : DecodeError → Prop) (Related : σ → τ → Prop) (left : SourceLoader σ)
    (right : SourceLoader τ) : Prop :=
  ∀ nameId kind checksum state state', Related state state' →
    ResultSim Excused (fun found found' => found.1 = found'.1 ∧ Related found.2 found'.2)
      (left nameId kind checksum state) (right nameId kind checksum state')

namespace ChecksumTable

variable {Related : σ → τ → Prop} {load : SourceLoader σ} {load' : SourceLoader τ}

/-- The same files with related states of the loaders. -/
def Agree (Related : σ → τ → Prop) (found : ChecksumTable × σ) (found' : ChecksumTable × τ) :
    Prop :=
  found.1 = found'.1 ∧ Related found.2 found'.2

theorem readRecord_sim (hload : LoaderSim Excused Related load load') (start : Nat)
    {state : ChecksumTable × σ} {state' : ChecksumTable × τ} (agree : Agree Related state state') :
    ReaderSim Excused (Agree Related) (readRecord load start state)
      (readRecord load' start state') := by
  obtain ⟨files, sources⟩ := state
  obtain ⟨files', sources'⟩ := state'
  obtain ⟨rfl, related⟩ := agree
  unfold readRecord
  -- all fields are read by both; only the loaders differ
  refine .bind_same fun position => .bind_same fun nameId => .bind_same fun length =>
    .bind_same fun kind => .bind_same fun checksum => ?_
  refine (ReaderSim.ofExcept (hload nameId kind checksum sources sources' related)).bind ?_
  rintro ⟨file, sources⟩ ⟨_, sources'⟩ ⟨rfl, related⟩
  exact .bind_same fun _ => .pure ⟨rfl, related⟩

theorem readSubsections_sim (hload : LoaderSim Excused Related load load')
    (subsections : List Subsection) {state : ChecksumTable × σ} {state' : ChecksumTable × τ}
    (agree : Agree Related state state') :
    ReaderSim Excused (Agree Related) (readSubsections load state subsections)
      (readSubsections load' state' subsections) := by
  induction subsections generalizing state state' with
  | nil => exact .pure agree
  | cons subsection rest ih =>
    unfold readSubsections
    refine .bind_same fun _ => ?_
    refine (ReaderSim.whileBelow (fun _ _ (agree : Agree Related _ _) =>
      readRecord_sim hload subsection.start agree) agree).bind ?_
    exact fun _ _ agree => ih agree

/-- Loaders that do the same make readers that do the same. -/
theorem read_sim (hload : LoaderSim Excused Related load load') (start stop : Nat)
    {sources : σ} {sources' : τ} (related : Related sources sources') :
    ReaderSim Excused (Agree Related) (read load start stop sources)
      (read load' start stop sources') := by
  unfold read
  exact .bind_same fun subsections => readSubsections_sim hload subsections ⟨rfl, related⟩

end ChecksumTable

end ManagedPdb
