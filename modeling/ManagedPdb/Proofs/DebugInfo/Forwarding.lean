import ManagedPdb.DebugInfo.Lookup
import ManagedPdb.Proofs.Symbol.ScopeWalk
import Mathlib.Data.Fintype.Pigeonhole

/-!
# Chains of imports

A method that forwards shares the imports of another one, which may forward in turn.  The chain of a
token (`DebugInfo.Visits`) ends at a method that does not forward, or it breaks at an unknown token,
or it comes to a method again and then goes on for ever.  The imports of a token are those at the
end of its chain, and there are none in the other two cases (`usingInfo_chain`).

A look-up only counts its steps.  That is enough, since a chain that has taken as many steps as
there are methods has visited one of them twice (`Visits.chainRepeats`).
-/

namespace ManagedPdb

/-- The imports are those of a method, with the namespaces of all its scopes in the order of their
outline. -/
structure UsingInfo.IsOf (found : UsingInfo) (method : Method) : Prop where
  token : found.token = method.token
  usingCounts : found.usingCounts = method.usingCounts
  scope : found.scope = method.scope
  namespaces : found.namespaces
    = (method.scope.outline 0).flatMap fun entry => entry.2.namespaces

theorem UsingInfo.isOf_iff {found : UsingInfo} {method : Method} :
    found.IsOf method ↔ found = ⟨method.token, method.usingCounts, method.scope⟩ := by
  constructor
  · rintro ⟨htoken, hcounts, hscope, -⟩
    cases found
    simp_all
  · rintro rfl
    refine ⟨rfl, rfl, rfl, ?_⟩
    rw [namespaces, Scope.walk_eq_outline, List.flatMap_map]

namespace DebugInfo

/-- After some steps, the chain of a token is at the method with a place. -/
inductive Visits (info : DebugInfo) (token : UInt32) : (steps place : Nat) → Method → Prop
  | start {place : Nat} {method : Method} :
      info.methodIndex? token = some place → info.methods[place]? = some method →
        Visits info token 0 place method
  | forward {steps place place' : Nat} {method method' : Method} {next : UInt32} :
      Visits info token steps place method → method.forwardToken = some next →
        info.methodIndex? next = some place' → info.methods[place']? = some method' →
          Visits info token (steps + 1) place' method'

/-- The chain of a token ends at a method. -/
def ChainEnds (info : DebugInfo) (token : UInt32) (last : Method) : Prop :=
  ∃ steps place, info.Visits token steps place last ∧ last.forwardToken = none

/-- The chain of a token comes to an unknown token. -/
def ChainBreaks (info : DebugInfo) (token : UInt32) : Prop :=
  info.method? token = none ∨
    ∃ steps place method next, info.Visits token steps place method ∧
      method.forwardToken = some next ∧ info.method? next = none

/-- The chain of a token comes to a method for a second time. -/
def ChainRepeats (info : DebugInfo) (token : UInt32) : Prop :=
  ∃ early late place method method', early < late ∧ info.Visits token early place method ∧
    info.Visits token late place method'

variable {info : DebugInfo} {token : UInt32}

theorem exists_place_of_method? {method : Method} (h : info.method? token = some method) :
    ∃ place, info.methodIndex? token = some place ∧ info.methods[place]? = some method :=
  Option.bind_eq_some_iff.mp h

theorem method?_of_place {place : Nat} {method : Method}
    (hplace : info.methodIndex? token = some place) (hmethod : info.methods[place]? = some method) :
    info.method? token = some method :=
  Option.bind_eq_some_iff.mpr ⟨place, hplace, hmethod⟩

/-! ### Where a chain is -/

namespace Visits

variable {steps place : Nat} {method : Method}

theorem getElem? (visits : info.Visits token steps place method) :
    info.methods[place]? = some method := by
  cases visits with
  | start _ hmethod => exact hmethod
  | forward _ _ _ hmethod => exact hmethod

theorem place_lt (visits : info.Visits token steps place method) : place < info.methods.size :=
  (Array.getElem?_eq_some_iff.mp visits.getElem?).1

/-- After a number of steps, a chain is at one method only. -/
theorem unique (visits : info.Visits token steps place method) {place' : Nat} {method' : Method}
    (visits' : info.Visits token steps place' method') : place = place' ∧ method = method' := by
  induction visits generalizing place' method' with
  | start hplace hmethod =>
    cases visits' with
    | start hplace' hmethod' =>
      rw [hplace] at hplace'
      cases hplace'
      rw [hmethod] at hmethod'
      cases hmethod'
      exact ⟨rfl, rfl⟩
  | forward _ hnext hplace hmethod ih =>
    cases visits' with
    | forward before hnext' hplace' hmethod' =>
      obtain ⟨-, rfl⟩ := ih before
      rw [hnext] at hnext'
      cases hnext'
      rw [hplace] at hplace'
      cases hplace'
      rw [hmethod] at hmethod'
      cases hmethod'
      exact ⟨rfl, rfl⟩

/-- A chain has been somewhere after every smaller number of steps. -/
theorem exists_earlier (visits : info.Visits token steps place method) {early : Nat}
    (le : early ≤ steps) : ∃ place method, info.Visits token early place method := by
  induction visits with
  | start hplace hmethod =>
    obtain rfl := Nat.le_zero.mp le
    exact ⟨_, _, .start hplace hmethod⟩
  | @forward steps _ _ _ _ _ before hnext hplace hmethod ih =>
    rcases Nat.lt_or_eq_of_le le with hlt | rfl
    · exact ih (Nat.le_of_lt_succ hlt)
    · exact ⟨_, _, .forward before hnext hplace hmethod⟩

/-- Once it has come to a method again, a chain takes the same way again. -/
theorem shift {early late more target : Nat} {first again last : Method}
    (hearly : info.Visits token early place first) (hlate : info.Visits token late place again)
    (hlater : info.Visits token (early + more) target last) :
    info.Visits token (late + more) target last := by
  induction more generalizing target last with
  | zero =>
    obtain ⟨rfl, rfl⟩ := hearly.unique hlater
    have hsame := hearly.getElem?
    rw [hlate.getElem?] at hsame
    cases hsame
    exact hlate
  | succ more ih =>
    cases hlater with
    | forward hbefore hnext hplace hmethod => exact .forward (ih hbefore) hnext hplace hmethod

/-- A chain does not go on behind a method that does not forward. -/
theorem not_succ (visits : info.Visits token steps place method)
    (hnone : method.forwardToken = none) {place' : Nat} {method' : Method} :
    ¬ info.Visits token (steps + 1) place' method' := by
  intro later
  cases later with
  | forward before hnext _ _ =>
    obtain ⟨-, rfl⟩ := visits.unique before
    rw [hnone] at hnext
    cases hnext

/-- A chain that has taken as many steps as there are methods has visited one of them twice. -/
theorem chainRepeats (visits : info.Visits token steps place method)
    (many : info.methods.size ≤ steps) : info.ChainRepeats token := by
  have hplaces : ∀ step : Fin (info.methods.size + 1), ∃ (place : Fin info.methods.size)
      (method : Method), info.Visits token step place method := by
    intro step
    obtain ⟨place, method, hvisits⟩ :=
      visits.exists_earlier (Nat.le_trans (Nat.le_of_lt_succ step.isLt) many)
    exact ⟨⟨place, hvisits.place_lt⟩, method, hvisits⟩
  choose places methods hvisits using hplaces
  obtain ⟨early, late, hne, hsame⟩ :=
    Fintype.exists_ne_map_eq_of_card_lt places (by simp)
  rcases Nat.lt_or_gt_of_ne (Fin.val_ne_of_ne hne) with hlt | hlt
  · exact ⟨early, late, places early, methods early, methods late, hlt, hvisits early,
      hsame ▸ hvisits late⟩
  · exact ⟨late, early, places late, methods late, methods early, hlt, hvisits late,
      hsame ▸ hvisits early⟩

end Visits

/-- A chain that has come to a method again goes on for ever. -/
theorem ChainRepeats.exists_visits (repeats : info.ChainRepeats token) (steps : Nat) :
    ∃ place method, info.Visits token steps place method := by
  obtain ⟨early, late, again, first, second, hlt, hearly, hlate⟩ := repeats
  induction steps using Nat.strongRecOn with
  | ind steps ih =>
    rcases Nat.lt_or_ge late steps with hlong | hshort
    · -- one round earlier the chain was at the same method
      obtain ⟨place, method, hbefore⟩ := ih (steps - (late - early)) (by omega)
      rw [show steps - (late - early) = early + (steps - late) by omega] at hbefore
      have hvisits := hearly.shift hlate hbefore
      rw [Nat.add_sub_cancel' (Nat.le_of_lt hlong)] at hvisits
      exact ⟨place, method, hvisits⟩
    · exact hlate.exists_earlier hshort

/-! ### How a chain ends -/

/-- A chain ends at one method only. -/
theorem ChainEnds.unique {last last' : Method} (ends : info.ChainEnds token last)
    (ends' : info.ChainEnds token last') : last = last' := by
  obtain ⟨steps, place, hvisits, hnone⟩ := ends
  obtain ⟨steps', place', hvisits', hnone'⟩ := ends'
  rcases Nat.lt_trichotomy steps steps' with hlt | rfl | hlt
  · obtain ⟨_, _, hnext⟩ := hvisits'.exists_earlier hlt
    exact absurd hnext (hvisits.not_succ hnone)
  · exact (hvisits.unique hvisits').2
  · obtain ⟨_, _, hnext⟩ := hvisits.exists_earlier hlt
    exact absurd hnext (hvisits'.not_succ hnone')

theorem ChainEnds.not_breaks {last : Method} (ends : info.ChainEnds token last) :
    ¬ info.ChainBreaks token := by
  obtain ⟨steps, place, hvisits, hnone⟩ := ends
  rintro (hunknown | ⟨steps', place', method, next, hvisits', hnext, hunknown⟩)
  · obtain ⟨_, _, hstart⟩ := hvisits.exists_earlier (Nat.zero_le steps)
    cases hstart with
    | start hplace hmethod =>
      rw [method?_of_place hplace hmethod] at hunknown
      cases hunknown
  · rcases Nat.lt_trichotomy steps steps' with hlt | rfl | hlt
    · obtain ⟨_, _, hlater⟩ := hvisits'.exists_earlier hlt
      exact hvisits.not_succ hnone hlater
    · obtain ⟨-, rfl⟩ := hvisits.unique hvisits'
      rw [hnone] at hnext
      cases hnext
    · -- the chain went on behind the method with the unknown token
      obtain ⟨_, _, hlater⟩ := hvisits.exists_earlier hlt
      cases hlater with
      | forward hbefore hnext' hplace hmethod =>
        obtain ⟨-, rfl⟩ := hvisits'.unique hbefore
        rw [hnext] at hnext'
        cases hnext'
        rw [method?_of_place hplace hmethod] at hunknown
        cases hunknown

theorem ChainEnds.not_repeats {last : Method} (ends : info.ChainEnds token last) :
    ¬ info.ChainRepeats token := by
  obtain ⟨steps, place, hvisits, hnone⟩ := ends
  intro repeats
  obtain ⟨_, _, hlater⟩ := repeats.exists_visits (steps + 1)
  exact hvisits.not_succ hnone hlater

/-! ### Counted steps -/

/-- Following a chain from one of its methods comes to its end, or the chain breaks, or it goes on
for as many steps. -/
theorem Visits.followForwards_cases {taken place : Nat} {method : Method}
    (visits : info.Visits token taken place method) (steps : Nat) :
    (∃ last, info.ChainEnds token last ∧ info.followForwards method steps
        = some ⟨last.token, last.usingCounts, last.scope⟩) ∨
      info.followForwards method steps = none ∧
        (info.ChainBreaks token ∨
          ∃ place' method', info.Visits token (taken + steps) place' method') := by
  induction steps generalizing taken place method with
  | zero => exact .inr ⟨rfl, .inr ⟨place, method, visits⟩⟩
  | succ steps ih =>
    cases hforward : method.forwardToken with
    | none =>
      refine .inl ⟨method, ⟨taken, place, visits, hforward⟩, ?_⟩
      rw [followForwards, hforward]
    | some next =>
      have hstep : info.followForwards method (steps + 1)
          = (info.method? next).bind (info.followForwards · steps) := by
        rw [followForwards, hforward]
      rw [hstep]
      cases hnext : info.method? next with
      | none => exact .inr ⟨rfl, .inl (.inr ⟨taken, place, method, next, visits, hforward, hnext⟩)⟩
      | some method' =>
        obtain ⟨place', hplace', hmethod'⟩ := exists_place_of_method? hnext
        have hrest := ih (visits.forward hforward hplace' hmethod')
        rwa [Nat.succ_add_eq_add_succ] at hrest

/-- Following the chain of a token for more steps than there are methods. -/
theorem follow_cases (token : UInt32) {steps : Nat} (many : info.methods.size < steps) :
    (∃ last, info.ChainEnds token last ∧ (info.method? token).bind (info.followForwards · steps)
        = some ⟨last.token, last.usingCounts, last.scope⟩) ∨
      (info.method? token).bind (info.followForwards · steps) = none ∧
        (info.ChainBreaks token ∨ info.ChainRepeats token) := by
  cases hfirst : info.method? token with
  | none => exact .inr ⟨rfl, .inl (.inl hfirst)⟩
  | some method =>
    obtain ⟨place, hplace, hmethod⟩ := exists_place_of_method? hfirst
    rcases (Visits.start hplace hmethod).followForwards_cases steps with
      ⟨last, ends, hlast⟩ | ⟨hnone, breaks | ⟨place', method', hvisits⟩⟩
    · exact .inl ⟨last, ends, hlast⟩
    · exact .inr ⟨hnone, .inl breaks⟩
    · exact .inr ⟨hnone, .inr (hvisits.chainRepeats (by omega))⟩

theorem follow_eq_some_iff {steps : Nat} (many : info.methods.size < steps) {found : UsingInfo} :
    (info.method? token).bind (info.followForwards · steps) = some found ↔
      ∃ last, info.ChainEnds token last ∧ found.IsOf last := by
  rcases follow_cases token many with ⟨last, ends, hlast⟩ | ⟨hnone, hother⟩
  · rw [hlast]
    constructor
    · intro h
      cases h
      exact ⟨last, ends, UsingInfo.isOf_iff.mpr rfl⟩
    · rintro ⟨last', ends', hfound⟩
      rw [UsingInfo.isOf_iff.mp hfound, ends.unique ends']
  · rw [hnone]
    constructor
    · intro h
      cases h
    · rintro ⟨last, ends, -⟩
      rcases hother with breaks | repeats
      · exact absurd breaks ends.not_breaks
      · exact absurd repeats ends.not_repeats

theorem follow_eq_none_iff {steps : Nat} (many : info.methods.size < steps) :
    (info.method? token).bind (info.followForwards · steps) = none ↔
      info.ChainBreaks token ∨ info.ChainRepeats token := by
  rcases follow_cases token many with ⟨last, ends, hlast⟩ | ⟨hnone, hother⟩
  · rw [hlast]
    constructor
    · intro h
      cases h
    · rintro (breaks | repeats)
      · exact absurd breaks ends.not_breaks
      · exact absurd repeats ends.not_repeats
  · exact ⟨fun _ => hother, fun _ => hnone⟩

/-- The imports of a token are those of the method at the end of its chain; there are none exactly
if the chain breaks or comes to a method again.  More steps along the chain change nothing. -/
theorem usingInfo_chain (info : DebugInfo) (token : UInt32) :
    (∀ found, info.usingInfo? token = some found ↔
      ∃ last, info.ChainEnds token last ∧ found.IsOf last) ∧
    (info.usingInfo? token = none ↔ info.ChainBreaks token ∨ info.ChainRepeats token) ∧
    ∀ steps, info.methods.size < steps →
      (info.method? token).bind (info.followForwards · steps) = info.usingInfo? token := by
  have henough : info.methods.size < info.methods.size + 1 := Nat.lt_succ_self _
  have hsome (found : UsingInfo) : info.usingInfo? token = some found ↔
      ∃ last, info.ChainEnds token last ∧ found.IsOf last := follow_eq_some_iff henough
  refine ⟨hsome, follow_eq_none_iff henough, fun steps many => ?_⟩
  refine Option.ext fun found => ?_
  rw [hsome]
  exact follow_eq_some_iff many

end DebugInfo

end ManagedPdb
