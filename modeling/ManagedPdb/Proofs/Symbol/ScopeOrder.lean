import ManagedPdb.DebugInfo.Lookup
import ManagedPdb.Proofs.Symbol.ScopeWalk

/-!
# The order of scopes

A walk takes the last of the trees that it has not visited and puts the scopes inside it in its
place, the leftmost last (`Walk.next?`).  The place of a scope in its tree is given by the indices
on the way to it, and one scope is declared in front of another if its place comes first in the
lexicographic order: in front of all scopes inside it, and all of a tree in front of the trees to
its right.  `Scope.walk_in_order` says that a walk ends after it has visited the scopes of all
places in the order of these, and that the depth is the number of scopes on the longest way.
-/

namespace ManagedPdb.Scope

/-! ### Visiting one scope after the other -/

/-- A walk that is under way: the trees that are not visited yet, the next one last. -/
structure Walk where
  pending : Array Scope

namespace Walk

def start (scope : Scope) : Walk := ⟨#[scope]⟩

/-- The next scope and the walk behind it. -/
def next? (walk : Walk) : Option (Scope × Walk) :=
  walk.pending.back?.map fun scope => (scope, ⟨walk.pending.pop ++ scope.scopes.reverse⟩)

/-- The walk visits these scopes and ends. -/
inductive Visits : Walk → List Scope → Prop
  | done {walk : Walk} : walk.next? = none → Visits walk []
  | next {walk rest : Walk} {scope : Scope} {scopes : List Scope} :
      walk.next? = some (scope, rest) → Visits rest scopes → Visits walk (scope :: scopes)

/-- The trees that are not visited yet, the next one first. -/
def stack (walk : Walk) : List Scope := walk.pending.toList.reverse

theorem next?_of_nil {walk : Walk} (h : walk.stack = []) : walk.next? = none := by
  have hempty : walk.pending.toList = [] := List.reverse_eq_nil_iff.mp h
  rw [next?, ← Array.getLast?_toList, hempty]
  rfl

/-- The scopes inside the visited one are the next ones, from left to right. -/
theorem next?_of_cons {walk : Walk} {scope : Scope} {rest : List Scope}
    (h : walk.stack = scope :: rest) :
    ∃ walk' : Walk, walk.next? = some (scope, walk') ∧ walk'.stack = scope.scopes ++ rest := by
  have hpending : walk.pending.toList = rest.reverse ++ [scope] := by
    rw [← List.reverse_cons, ← h, stack, List.reverse_reverse]
  refine ⟨⟨walk.pending.pop ++ scope.scopes.reverse⟩, ?_, ?_⟩
  · rw [next?, ← Array.getLast?_toList, hpending, List.getLast?_concat, Option.map_some]
  · rw [stack, Array.toList_appendList, Array.toList_pop, hpending, List.dropLast_concat,
      List.reverse_append, List.reverse_reverse, List.reverse_reverse]

/-- A walk visits the scopes of all trees that are pending, in the order of `walkStack`. -/
theorem visits_walkStack {stack : List Scope} {walk : Walk} (h : walk.stack = stack) :
    walk.Visits (walkStack stack) := by
  induction stack using walkStack.induct generalizing walk with
  | case1 =>
    rw [walkStack]
    exact .done (next?_of_nil h)
  | case2 scope rest ih =>
    obtain ⟨walk', hnext, hstack⟩ := next?_of_cons h
    rw [walkStack]
    exact .next hnext (ih hstack)

end Walk

/-! ### Places -/

theorem count_le_countOfAll {inner : Scope} {scopes : List Scope} (h : inner ∈ scopes) :
    inner.count ≤ countOfAll scopes := by
  induction scopes with
  | nil => cases h
  | cons first rest ih =>
    rw [countOfAll]
    rcases List.mem_cons.mp h with rfl | hrest
    · exact Nat.le_add_right _ _
    · exact Nat.le_trans (ih hrest) (Nat.le_add_left _ _)

/-- What each scope has if all scopes directly inside it have it, all scopes have. -/
theorem of_inside {motive : Scope → Prop}
    (step : ∀ scope, (∀ inner ∈ scope.scopes, motive inner) → motive scope) (scope : Scope) :
    motive scope := by
  induction hcount : scope.count using Nat.strongRecOn generalizing scope with
  | ind _ ih =>
    subst hcount
    refine step scope fun inner hinner => ih inner.count ?_ inner rfl
    have hle := count_le_countOfAll hinner
    rw [count_eq scope]
    omega

/-- The scope at a place. -/
def at? : (scope : Scope) → (place : List Nat) → Option Scope
  | scope, [] => some scope
  | scope, index :: place => scope.scopes[index]?.bind (·.at? place)

/-- One place comes in front of another: it is on the way to that one, or leaves the way there
further to the left. -/
def Before : (left right : List Nat) → Prop := List.Lex (· < ·)

theorem Before.ne {left right : List Nat} (h : Before left right) : left ≠ right := by
  rintro rfl
  exact List.lt_irrefl left h

mutual

/-- All scopes of a tree with their places. -/
def located : Scope → List (List Nat × Scope)
  | scope@⟨_, _, _, _, _, scopes⟩ => ([], scope) :: locatedOfAll 0 scopes

/-- All scopes of the trees from an index on with their places. -/
def locatedOfAll (index : Nat) : List Scope → List (List Nat × Scope)
  | [] => []
  | scope :: rest =>
    (located scope).map (fun entry => (index :: entry.1, entry.2)) ++ locatedOfAll (index + 1) rest

end

theorem located_eq (scope : Scope) :
    scope.located = ([], scope) :: locatedOfAll 0 scope.scopes := by
  cases scope
  rw [located]

/-- A place among trees is the index of a tree and a place in it. -/
theorem mem_locatedOfAll_iff {start : Nat} {scopes : List Scope} {entry : List Nat × Scope} :
    entry ∈ locatedOfAll start scopes ↔
      ∃ index top place, scopes[index]? = some top ∧ (place, entry.2) ∈ top.located ∧
        entry.1 = (start + index) :: place := by
  induction scopes generalizing start with
  | nil => simp [locatedOfAll]
  | cons first rest ih =>
    rw [locatedOfAll, List.mem_append, List.mem_map, ih]
    constructor
    · rintro (⟨inside, hinside, rfl⟩ | ⟨index, top, place, htop, hplace, hentry⟩)
      · exact ⟨0, first, inside.1, rfl, hinside, rfl⟩
      · exact ⟨index + 1, top, place, htop, hplace, by rw [hentry, Nat.succ_add_eq_add_succ]⟩
    · rintro ⟨index, top, place, htop, hplace, hentry⟩
      cases index with
      | zero =>
        cases htop
        exact .inl ⟨(place, entry.2), hplace, Prod.ext hentry.symm rfl⟩
      | succ index =>
        exact .inr ⟨index, top, place, htop, hplace, by rw [hentry, Nat.succ_add_eq_add_succ]⟩

/-- The entries of a tree are its places, each with the scope there. -/
theorem mem_located_iff {scope inner : Scope} {place : List Nat} :
    (place, inner) ∈ scope.located ↔ scope.at? place = some inner := by
  induction scope using of_inside generalizing place with
  | step scope ih =>
    rw [located_eq, List.mem_cons, mem_locatedOfAll_iff]
    cases place with
    | nil => simp [at?, eq_comm]
    | cons index place =>
      rw [at?, Option.bind_eq_some_iff]
      constructor
      · rintro (hroot | ⟨index', top, place', htop, hplace, hentry⟩)
        · cases hroot
        · rw [Nat.zero_add] at hentry
          cases hentry
          exact ⟨top, htop, (ih top (List.mem_of_getElem? htop)).mp hplace⟩
      · rintro ⟨top, htop, hplace⟩
        refine .inr ⟨index, top, place, htop, (ih top (List.mem_of_getElem? htop)).mpr hplace, ?_⟩
        rw [Nat.zero_add]

theorem pairwise_locatedOfAll {start : Nat} {scopes : List Scope}
    (h : ∀ inner ∈ scopes, inner.located.Pairwise fun left right => Before left.1 right.1) :
    (locatedOfAll start scopes).Pairwise fun left right => Before left.1 right.1 := by
  induction scopes generalizing start with
  | nil => simp [locatedOfAll]
  | cons first rest ih =>
    rw [locatedOfAll, List.pairwise_append, List.pairwise_map]
    refine ⟨?inside, ih fun inner hinner => h inner (List.mem_cons_of_mem _ hinner), ?across⟩
    case inside => exact (h first List.mem_cons_self).imp fun hbefore => .cons hbefore
    case across =>
      intro left hleft right hright
      obtain ⟨inside, -, rfl⟩ := List.mem_map.mp hleft
      obtain ⟨index, top, place, -, -, hentry⟩ := mem_locatedOfAll_iff.mp hright
      rw [hentry]
      exact .rel (by omega)

/-- The entries of a tree stand in the order of their places. -/
theorem pairwise_located (scope : Scope) :
    scope.located.Pairwise fun left right => Before left.1 right.1 := by
  induction scope using of_inside with
  | step scope ih =>
    rw [located_eq, List.pairwise_cons]
    refine ⟨fun entry hentry => ?_, pairwise_locatedOfAll ih⟩
    obtain ⟨index, top, place, -, -, hplace⟩ := mem_locatedOfAll_iff.mp hentry
    rw [hplace]
    exact .nil

theorem map_locatedOfAll {start : Nat} {scopes : List Scope}
    (h : ∀ inner ∈ scopes, inner.located.map Prod.snd = inner.walk) :
    (locatedOfAll start scopes).map Prod.snd = scopes.flatMap walk := by
  induction scopes generalizing start with
  | nil => rfl
  | cons first rest ih =>
    rw [locatedOfAll, List.map_append, List.map_map,
      ih fun inner hinner => h inner (List.mem_cons_of_mem _ hinner), List.flatMap_cons,
      ← h first List.mem_cons_self]
    rfl

/-- A walk visits the entries of the tree. -/
theorem map_located (scope : Scope) : scope.located.map Prod.snd = scope.walk := by
  induction scope using of_inside with
  | step scope ih => rw [located_eq, List.map_cons, map_locatedOfAll ih, walk_eq]

/-! ### Depth -/

/-- The scopes on a way from a scope inwards, the first and the last one with it. -/
inductive Way : Scope → List Scope → Prop
  | here (scope : Scope) : Way scope [scope]
  | inside {scope inner : Scope} {way : List Scope} :
      inner ∈ scope.scopes → Way inner way → Way scope (scope :: way)

theorem depth_eq (scope : Scope) : scope.depth = 1 + depthOfAll scope.scopes := by
  cases scope
  rw [depth]

theorem depth_le_depthOfAll {inner : Scope} {scopes : List Scope} (h : inner ∈ scopes) :
    inner.depth ≤ depthOfAll scopes := by
  induction scopes with
  | nil => cases h
  | cons first rest ih =>
    rw [depthOfAll]
    rcases List.mem_cons.mp h with rfl | hrest
    · exact Nat.le_max_left _ _
    · exact Nat.le_trans (ih hrest) (Nat.le_max_right _ _)

theorem exists_depth_eq {scopes : List Scope} (h : scopes ≠ []) :
    ∃ inner ∈ scopes, inner.depth = depthOfAll scopes := by
  induction scopes with
  | nil => exact absurd rfl h
  | cons first rest ih =>
    rw [depthOfAll]
    rcases Nat.le_total (depthOfAll rest) first.depth with hle | hle
    · exact ⟨first, List.mem_cons_self, (Nat.max_eq_left hle).symm⟩
    · by_cases hrest : rest = []
      · subst hrest
        exact ⟨first, List.mem_cons_self, (Nat.max_eq_left (Nat.zero_le _)).symm⟩
      · obtain ⟨inner, hinner, hdepth⟩ := ih hrest
        exact ⟨inner, List.mem_cons_of_mem _ hinner, hdepth.trans (Nat.max_eq_right hle).symm⟩

theorem Way.length_le {scope : Scope} {way : List Scope} (h : Way scope way) :
    way.length ≤ scope.depth := by
  induction h with
  | here scope =>
    rw [depth_eq, List.length_singleton]
    exact Nat.le_add_right _ _
  | inside hinner _ ih =>
    have hle := depth_le_depthOfAll hinner
    rw [depth_eq, List.length_cons]
    omega

/-- Some way has as many scopes as the depth says. -/
theorem exists_way (scope : Scope) : ∃ way, Way scope way ∧ way.length = scope.depth := by
  induction scope using of_inside with
  | step scope ih =>
    rw [depth_eq]
    by_cases hleaf : scope.scopes = []
    · rw [hleaf]
      exact ⟨[scope], .here scope, rfl⟩
    · obtain ⟨inner, hinner, hdepth⟩ := exists_depth_eq hleaf
      obtain ⟨way, hway, hlength⟩ := ih inner hinner
      exact ⟨scope :: way, .inside hinner hway, by rw [List.length_cons, hlength, hdepth]; omega⟩

/-! ### The walk -/

/-- A walk ends after it has visited the scopes of all places of the tree once, in the order of
their places, as the recursion over the tree does.  So the namespaces of a method are listed in the
order in which their scopes are declared.  The depth of a tree is the greatest number of scopes on a
way from its root. -/
theorem walk_in_order (scope : Scope) :
    (Walk.start scope).Visits scope.walk ∧
    scope.walk = scope :: scope.scopes.flatMap walk ∧
    scope.walk = (scope.outline 0).map Prod.snd ∧
    (∃ entries : List (List Nat × Scope),
      (∀ place inner, (place, inner) ∈ entries ↔ scope.at? place = some inner) ∧
      entries.Pairwise (fun left right => Before left.1 right.1) ∧
      (entries.map Prod.fst).Nodup ∧
      scope.walk = entries.map Prod.snd ∧
      ∀ token usingCounts, (UsingInfo.mk token usingCounts scope).namespaces
        = entries.flatMap fun entry => entry.2.namespaces) ∧
    (∃ way, Way scope way ∧ way.length = scope.depth) ∧
    ∀ way, Way scope way → way.length ≤ scope.depth := by
  refine ⟨Walk.visits_walkStack rfl, walk_eq scope, walk_eq_outline scope, ?_, exists_way scope,
    fun way hway => hway.length_le⟩
  refine ⟨scope.located, fun place inner => mem_located_iff, pairwise_located scope, ?once,
    (map_located scope).symm, fun token usingCounts => ?inOrder⟩
  case once =>
    rw [List.Nodup, List.pairwise_map]
    exact (pairwise_located scope).imp Before.ne
  case inOrder => rw [UsingInfo.namespaces, ← map_located, List.flatMap_map]

end ManagedPdb.Scope
