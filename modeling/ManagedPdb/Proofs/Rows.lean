import ManagedPdb.Proofs.Reader
import Mathlib.Data.List.Forall2

/-!
# Rows of values of one size

Values that take the same number of bytes each stand at places that can be computed.  A row of them
is read if each value is read at its place, and only then (`Reader.times_eq_done_iff`).
-/

namespace ManagedPdb

variable {α : Type} {content : ByteArray}

namespace Reader

/-- The values are read in a row, one for each index of a range, each from `width` bytes. -/
def RowOf (item : Reader α) (width : Nat) (content : ByteArray) (start first count : Nat)
    (values : List α) : Prop :=
  List.Forall₂ (fun index value => item content (start + width * index)
    = .done value (start + width * (index + 1))) (List.range' first count) values

variable {item : Reader α} {width start first count : Nat} {values : List α}

theorem RowOf.timesOnto_eq (row : RowOf item width content start first count values)
    (before : Array α) :
    timesOnto item before count content (start + width * first)
      = .done (before.toList ++ values) (start + width * (first + count)) := by
  induction count generalizing first before values with
  | zero =>
    cases row
    simp [timesOnto]
  | succ count ih =>
    rw [RowOf, List.range'_succ] at row
    cases row with | @cons _ value _ values hfirst hrest =>
    rw [timesOnto, hfirst]
    dsimp only
    rw [ih hrest, show first + 1 + count = first + (count + 1) by omega]
    simp

theorem exists_row_of_timesOnto
    (hwidth : ∀ {position value next}, item content position = .done value next →
      next = position + width) {before : Array α} {stop : Nat}
    (h : timesOnto item before count content (start + width * first) = .done values stop) :
    ∃ more, RowOf item width content start first count more ∧ values = before.toList ++ more ∧
      stop = start + width * (first + count) := by
  induction count generalizing first before with
  | zero =>
    cases h
    exact ⟨[], .nil, (List.append_nil _).symm, rfl⟩
  | succ count ih =>
    rw [timesOnto] at h
    split at h
    · next value next hvalue =>
      obtain rfl := hwidth hvalue
      -- the next value is looked for where the next index has it
      rw [show start + width * first + width = start + width * (first + 1) by
        rw [Nat.mul_succ, Nat.add_assoc]] at h hvalue
      obtain ⟨more, row, rfl, rfl⟩ := ih h
      refine ⟨value :: more, ?_, by simp, by rw [Nat.add_right_comm, Nat.add_assoc]⟩
      rw [RowOf, List.range'_succ]
      exact .cons hvalue row
    · cases h

theorem times_eq_done_iff
    (hwidth : ∀ {position value next}, item content position = .done value next →
      next = position + width) {stop : Nat} :
    times count item content start = .done values stop ↔
      RowOf item width content start 0 count values ∧ stop = start + width * count := by
  have hstart : times count item content start
      = timesOnto item #[] count content (start + width * 0) := rfl
  rw [hstart]
  constructor
  · intro h
    obtain ⟨more, row, rfl, rfl⟩ := exists_row_of_timesOnto hwidth h
    rw [Nat.zero_add]
    exact ⟨row, rfl⟩
  · rintro ⟨row, rfl⟩
    rw [row.timesOnto_eq, Nat.zero_add]
    rfl

/-- The first item that cannot be read is the last one that is tried. -/
theorem exists_timesOnto_eq_failed {β : Type} {Related : Nat → β → Prop} {earlier later : List β}
    {found : β} {error : DecodeError}
    (related : List.Forall₂ Related (List.range' first count) (earlier ++ found :: later))
    (hdone : ∀ index, ∀ other ∈ earlier, Related index other → ∃ value,
      item content (start + width * index) = .done value (start + width * (index + 1)))
    (hfailed : ∀ index, Related index found → ∃ stopped,
      item content (start + width * index) = .failed error stopped) (before : Array α) :
    ∃ stopped, timesOnto item before count content (start + width * first)
      = .failed error stopped := by
  induction earlier generalizing first count before with
  | nil =>
    cases count with
    | zero => cases related
    | succ count =>
      rw [List.range'_succ] at related
      cases related with | cons hfound _ =>
      obtain ⟨stopped, hstops⟩ := hfailed first hfound
      exact ⟨stopped, by rw [timesOnto, hstops]⟩
  | cons other earlier ih =>
    cases count with
    | zero => cases related
    | succ count =>
      rw [List.range'_succ] at related
      cases related with | cons hother hrest =>
      obtain ⟨value, hvalue⟩ := hdone first other List.mem_cons_self hother
      rw [timesOnto, hvalue]
      exact ih hrest (fun index other member => hdone index other (List.mem_cons_of_mem _ member)) _

theorem exists_times_eq_failed {β : Type} {Related : Nat → β → Prop} {earlier later : List β}
    {found : β} {error : DecodeError} (width : Nat)
    (related : List.Forall₂ Related (List.range' 0 count) (earlier ++ found :: later))
    (hdone : ∀ index, ∀ other ∈ earlier, Related index other → ∃ value,
      item content (start + width * index) = .done value (start + width * (index + 1)))
    (hfailed : ∀ index, Related index found → ∃ stopped,
      item content (start + width * index) = .failed error stopped) :
    ∃ stopped, times count item content start = .failed error stopped :=
  exists_timesOnto_eq_failed related hdone hfailed #[]

end Reader

end ManagedPdb
