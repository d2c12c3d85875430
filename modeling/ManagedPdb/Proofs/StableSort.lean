import Mathlib.Data.List.Forall2

/-!
# Laws of stable sorting

A stable sort puts an item in front of the first item that may not stand before it
(`mergeSort_cons`).  So it does not matter whether items are left out before or after sorting
(`filter_mergeSort`), lists that are compared alike are sorted alike (`forall₂_mergeSort`), items
that may stand either way keep their order (`pairwise_mergeSort`), and blocks without such items
between them may come in any order (`mergeSort_flatten_perm`).
-/

namespace ManagedPdb

/-- A comparison that items can be sorted by. -/
structure Sorts {α : Type} (before : α → α → Bool) : Prop where
  trans : ∀ first second third, before first second → before second third → before first third
  total : ∀ first second, before first second || before second first

namespace Sorts

variable {α β : Type} {before : α → α → Bool} {before' : β → β → Bool}

theorem mergeSort_cons (sorts : Sorts before) (item : α) (items : List α) :
    (item :: items).mergeSort before
      = (items.mergeSort before).filter (!before item ·)
        ++ item :: (items.mergeSort before).filter (before item ·) := by
  obtain ⟨front, back, hcons, hitems, hfront⟩ :=
    List.mergeSort_cons sorts.trans sorts.total item items
  have hback : ∀ other ∈ back, before item other := by
    have hsorted := List.pairwise_mergeSort sorts.trans sorts.total (item :: items)
    rw [hcons, List.pairwise_append] at hsorted
    exact (List.pairwise_cons.mp hsorted.2.1).1
  have hfront_none : front.filter (before item ·) = [] := by
    rw [List.filter_eq_nil_iff]
    intro other member
    simpa using hfront other member
  have hback_none : back.filter (!before item ·) = [] := by
    rw [List.filter_eq_nil_iff]
    intro other member
    simpa using hback other member
  rw [hcons, hitems, List.filter_append, List.filter_append, List.filter_eq_self.mpr hfront,
    List.filter_eq_self.mpr hback, hfront_none, hback_none, List.append_nil, List.nil_append]

/-- Items may be left out before or after sorting. -/
theorem filter_mergeSort (sorts : Sorts before) (keep : α → Bool) (items : List α) :
    (items.mergeSort before).filter keep = (items.filter keep).mergeSort before := by
  induction items with
  | nil => simp
  | cons item items ih =>
    by_cases hkeep : keep item
    · rw [List.filter_cons_of_pos hkeep, sorts.mergeSort_cons, sorts.mergeSort_cons, ← ih]
      simp [hkeep, List.filter_filter, Bool.and_comm]
    · obtain ⟨front, back, hcons, hitems, -⟩ :=
        List.mergeSort_cons sorts.trans sorts.total item items
      rw [List.filter_cons_of_neg hkeep, ← ih, hcons, hitems]
      simp [hkeep]

/-- Items that are compared alike are sorted alike. -/
theorem forall₂_mergeSort (sorts : Sorts before) (sorts' : Sorts before') {Related : α → β → Prop}
    (alike : ∀ {first second first' second'}, Related first first' → Related second second' →
      before first second = before' first' second')
    {items : List α} {items' : List β} (related : List.Forall₂ Related items items') :
    List.Forall₂ Related (items.mergeSort before) (items'.mergeSort before') := by
  induction related with
  | nil => simp
  | cons hitem _ ih =>
    rw [sorts.mergeSort_cons, sorts'.mergeSort_cons]
    refine List.rel_append (List.rel_filter ?_ ih) (.cons hitem (List.rel_filter ?_ ih))
    · intro other other' hother
      simp [alike hitem hother]
    · intro other other' hother
      simp [alike hitem hother]

/-- Items that may stand either way keep the order that they had. -/
theorem pairwise_mergeSort (sorts : Sorts before) {Earlier : α → α → Prop} {items : List α}
    (h : items.Pairwise Earlier) :
    (items.mergeSort before).Pairwise fun first second =>
      before first second ∧ (before second first → Earlier first second) := by
  induction items with
  | nil => simp
  | cons item items ih =>
    obtain ⟨hitem, hitems⟩ := List.pairwise_cons.mp h
    rw [sorts.mergeSort_cons, List.pairwise_append, List.pairwise_cons]
    refine ⟨(ih hitems).filter _, ⟨?_, (ih hitems).filter _⟩, ?_⟩
    · intro other member
      obtain ⟨member, hbefore⟩ := List.mem_filter.mp member
      exact ⟨hbefore, fun _ => hitem other (List.mem_mergeSort.mp member)⟩
    · intro other member next hnext
      obtain ⟨-, hother⟩ := List.mem_filter.mp member
      have hnot : ¬ before item other := by simpa using hother
      have hother : before other item := by
        simpa [hnot] using sorts.total item other
      rcases List.mem_cons.mp hnext with rfl | hnext
      · exact ⟨hother, fun h => absurd h hnot⟩
      · obtain ⟨-, hbefore⟩ := List.mem_filter.mp hnext
        refine ⟨sorts.trans _ _ _ hother hbefore, fun h => ?_⟩
        exact absurd (sorts.trans _ _ _ hbefore h) hnot

/-! ### Blocks in another order -/

/-- Puts an item in front of the first item that it may stand before. -/
def putInto (before : α → α → Bool) (item : α) (sorted : List α) : List α :=
  sorted.filter (!before item ·) ++ item :: sorted.filter (before item ·)

theorem mergeSort_append (sorts : Sorts before) (left right : List α) :
    (left ++ right).mergeSort before = left.foldr (putInto before) (right.mergeSort before) := by
  induction left with
  | nil => rfl
  | cons item left ih =>
    rw [List.cons_append, sorts.mergeSort_cons, ih]
    rfl

/-- Of the items, only one may stand before the other. -/
def Apart (before : α → α → Bool) (first second : α) : Prop :=
  ¬ (before first second ∧ before second first)

theorem putInto_comm (sorts : Sorts before) {first second : α} (apart : Apart before first second)
    (sorted : List α) :
    putInto before first (putInto before second sorted)
      = putInto before second (putInto before first sorted) := by
  have hordered : ∀ {first second : α}, before first second = true → before second first = false →
      putInto before first (putInto before second sorted)
        = putInto before second (putInto before first sorted) := by
    intro first second hfirst hsecond
    -- what the second one may stand before, the first one may stand before, too
    have hbehind : ∀ item, before second item = true → before first item = true :=
      fun item => sorts.trans _ _ _ hfirst
    have hfront : sorted.filter (fun item => !before first item && !before second item)
        = sorted.filter (!before first ·) := by
      refine List.filter_congr fun item _ => ?_
      cases hitem : before second item with
      | false => simp
      | true => simp [hbehind item hitem]
    have hback : sorted.filter (fun item => before first item && before second item)
        = sorted.filter (before second ·) := by
      refine List.filter_congr fun item _ => ?_
      cases hitem : before second item with
      | false => simp
      | true => simp [hbehind item hitem]
    have hnone : sorted.filter (fun item => before second item && !before first item) = [] := by
      rw [List.filter_eq_nil_iff]
      intro item _ hitem
      simp only [Bool.and_eq_true, Bool.not_eq_true'] at hitem
      rw [hbehind item hitem.1] at hitem
      cases hitem.2
    simp [putInto, List.filter_filter, hfirst, hsecond, hfront, hback, hnone, Bool.and_comm]
  rcases Bool.or_eq_true_iff.mp (sorts.total first second) with hfirst | hsecond
  · exact hordered hfirst (by simpa [Apart, hfirst] using apart)
  · exact (hordered hsecond (by simpa [Apart, hsecond] using apart)).symm

theorem foldr_putInto_comm (sorts : Sorts before) {left right : List α}
    (apart : ∀ first ∈ left, ∀ second ∈ right, Apart before first second) (sorted : List α) :
    left.foldr (putInto before) (right.foldr (putInto before) sorted)
      = right.foldr (putInto before) (left.foldr (putInto before) sorted) := by
  have hitem : ∀ {item : α} {right : List α}, (∀ second ∈ right, Apart before item second) →
      ∀ sorted, putInto before item (right.foldr (putInto before) sorted)
        = right.foldr (putInto before) (putInto before item sorted) := by
    intro item right apart sorted
    induction right with
    | nil => rfl
    | cons second right ih =>
      obtain ⟨hsecond, hright⟩ := List.forall_mem_cons.mp apart
      rw [List.foldr_cons, sorts.putInto_comm hsecond, ih hright, List.foldr_cons]
  induction left with
  | nil => rfl
  | cons first left ih =>
    obtain ⟨hfirst, hleft⟩ := List.forall_mem_cons.mp apart
    rw [List.foldr_cons, ih hleft, hitem hfirst, List.foldr_cons]

/-- The order of blocks does not matter if no items of different blocks may stand either way. -/
theorem mergeSort_flatten_perm (sorts : Sorts before) {blocks blocks' : List (List α)}
    (perm : blocks.Perm blocks')
    (apart : blocks.Pairwise fun block block' =>
      ∀ first ∈ block, ∀ second ∈ block', Apart before first second) :
    blocks.flatten.mergeSort before = blocks'.flatten.mergeSort before := by
  induction perm with
  | nil => rfl
  | cons block _ ih =>
    rw [List.flatten_cons, List.flatten_cons, sorts.mergeSort_append, sorts.mergeSort_append,
      ih (List.pairwise_cons.mp apart).2]
  | swap block block' blocks =>
    have hblocks := (List.pairwise_cons.mp apart).1 block List.mem_cons_self
    simp only [List.flatten_cons, sorts.mergeSort_append]
    exact sorts.foldr_putInto_comm hblocks _
  | trans hfirst _ ih ih' =>
    rw [ih apart, ih' ((hfirst.pairwise_iff fun h second member first member' => ?_).mp apart)]
    exact fun both => h first member' second member both.symm

end Sorts

end ManagedPdb
