import ManagedPdb.Line.Attachment
import Mathlib.Algebra.Ring.Nat
import Mathlib.Tactic.Common

/-!
# Searching methods by place

Methods are sorted by place, so that those of one place stand together.  A search is good
(`SiteSearch.Finds`) if on sorted methods it gives some index with the place that is asked for,
whichever, and gives none only if no method starts there.  Binary search is good
(`SiteSearch.finds_binary`).
-/

namespace ManagedPdb

namespace Site

/-- Of two different places one is in front. -/
theorem eq_of_not_before {left right : Site} (not_left : ¬ left.before right)
    (not_right : ¬ right.before left) : left = right := by
  obtain ⟨segment, address⟩ := left
  obtain ⟨segment', address'⟩ := right
  simp only [before, Bool.or_eq_true, Bool.and_eq_true, decide_eq_true_eq, beq_iff_eq,
    UInt16.lt_iff_toNat_lt, UInt32.lt_iff_toNat_lt, ← UInt16.toNat_inj] at not_left not_right
  have hsegment : segment = segment' := UInt16.toNat_inj.mp (by omega)
  subst hsegment
  have haddress : address = address' := UInt32.toNat_inj.mp (by omega)
  rw [haddress]

end Site

/-- No method stands behind one that starts at a later place. -/
def SortedBySite (methods : List Method) : Prop :=
  methods.Pairwise fun left right => ¬ right.site.before left.site

namespace SortedBySite

variable {methods : List Method} {site : Site}

/-- Only the places matter. -/
theorem of_map_site_eq {others : List Method} (sorted : SortedBySite methods)
    (same : others.map Method.site = methods.map Method.site) : SortedBySite others := by
  rw [SortedBySite, ← List.pairwise_map (f := Method.site)
    (R := fun left right => ¬ right.before left)] at sorted ⊢
  rwa [same]

theorem not_before (sorted : SortedBySite methods) {low high : Nat} {left right : Method}
    (at_low : methods[low]? = some left) (at_high : methods[high]? = some right)
    (lt : low < high) : ¬ right.site.before left.site := by
  obtain ⟨hlow, rfl⟩ := List.getElem?_eq_some_iff.mp at_low
  obtain ⟨hhigh, rfl⟩ := List.getElem?_eq_some_iff.mp at_high
  exact List.pairwise_iff_getElem.mp sorted low high hlow hhigh lt

/-- The methods of one place stand together. -/
theorem site_eq_of_between (sorted : SortedBySite methods) {low middle high : Nat}
    (at_low : methods[low]?.map Method.site = some site)
    (at_high : methods[high]?.map Method.site = some site) (low_lt : low < middle)
    (lt_high : middle < high) : methods[middle]?.map Method.site = some site := by
  obtain ⟨left, hleft, rfl⟩ := Option.map_eq_some_iff.mp at_low
  obtain ⟨right, hright, hsite⟩ := Option.map_eq_some_iff.mp at_high
  have hsize := (List.getElem?_eq_some_iff.mp hright).1
  have hmiddle := List.getElem?_eq_getElem (l := methods) (i := middle) (by omega)
  have hnot_before := sorted.not_before hmiddle hright lt_high
  rw [hsite] at hnot_before
  have heq := Site.eq_of_not_before (sorted.not_before hleft hmiddle low_lt) hnot_before
  rw [hmiddle, Option.map_some, heq]

end SortedBySite

namespace SiteSearch

/-- On sorted methods the search gives an index of the place, if there is one. -/
def Finds (search : SiteSearch) : Prop :=
  ∀ methods : Array Method, SortedBySite methods.toList → ∀ site,
    (∀ index, search methods site = some index → methods[index]?.map Method.site = some site) ∧
    (search methods site = none → ∀ method ∈ methods, method.site ≠ site)

variable {methods : Array Method} {site : Site} {low high : Nat}

theorem site_of_probe_eq_some {index : Nat} (h : probe methods site low high = some index) :
    methods[index]?.map Method.site = some site := by
  fun_induction probe methods site low high with
  | case1 => cases h
  | case2 low high hlt middle method at_middle hsite =>
    rw [← Option.some.inj h, at_middle, Option.map_some, hsite]
  | case3 low high hlt middle method at_middle hne hbefore ih => exact ih h
  | case4 low high hlt middle method at_middle hne hnot ih => exact ih h
  | case5 => cases h

/-- The halves that are left out hold no method of the place. -/
theorem isSome_probe (sorted : SortedBySite methods.toList) (bounded : high ≤ methods.size)
    {index : Nat} (low_le : low ≤ index) (lt_high : index < high)
    (at_site : methods[index]?.map Method.site = some site) :
    (probe methods site low high).isSome := by
  obtain ⟨found, hfound, rfl⟩ := Option.map_eq_some_iff.mp at_site
  rw [← Array.getElem?_toList] at hfound
  fun_induction probe methods found.site low high with
  | case1 low high hlt middle at_middle =>
    have hmiddle : middle < methods.size := by omega
    rw [Array.getElem?_eq_getElem hmiddle] at at_middle
    cases at_middle
  | case2 => rfl
  | case3 low high hlt middle method at_middle hne hbefore ih =>
    rw [← Array.getElem?_toList] at at_middle
    have hmiddle : middle < index := by
      rcases Nat.lt_trichotomy middle index with h | rfl | h
      · exact h
      · rw [hfound] at at_middle
        cases at_middle
        exact absurd rfl hne
      · exact absurd hbefore (sorted.not_before hfound at_middle h)
    exact ih bounded hmiddle lt_high
  | case4 low high hlt middle method at_middle hne hnot ih =>
    rw [← Array.getElem?_toList] at at_middle
    have hmiddle : index < middle := by
      rcases Nat.lt_trichotomy middle index with h | rfl | h
      · exact absurd (Site.eq_of_not_before hnot (sorted.not_before at_middle hfound h)) hne
      · rw [hfound] at at_middle
        cases at_middle
        exact absurd rfl hne
      · exact h
    exact ih (by omega) low_le hmiddle
  | case5 => omega

theorem finds_binary : binary.Finds := by
  intro methods sorted site
  refine ⟨fun index h => site_of_probe_eq_some h, fun h method member hsite => ?_⟩
  obtain ⟨index, hindex, rfl⟩ := Array.mem_iff_getElem.mp member
  have hat : methods[index]?.map Method.site = some site := by
    rw [Array.getElem?_eq_getElem hindex, Option.map_some, hsite]
  have hsome := isSome_probe sorted (Nat.le_refl _) (Nat.zero_le index) hindex hat
  rw [show probe methods site 0 methods.size = none from h] at hsome
  cases hsome

end SiteSearch

end ManagedPdb
