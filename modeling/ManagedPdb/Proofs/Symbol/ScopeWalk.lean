import ManagedPdb.Symbol.Scope
import Mathlib.Algebra.Ring.Nat

/-!
# Walking over scopes

A walk keeps a stack of the trees that it has not visited.  Its order is that of the recursion over
the tree: each scope in front of the scopes inside it, and these from left to right with all that is
inside them (`Scope.walk_eq_outline`).
-/

namespace ManagedPdb.Scope

theorem outlineOfAll_eq_flatMap (depth : Nat) (scopes : List Scope) :
    outlineOfAll depth scopes = scopes.flatMap (outline depth) := by
  induction scopes with
  | nil => rfl
  | cons scope rest ih => rw [outlineOfAll, ih, List.flatMap_cons]

theorem outline_eq (depth : Nat) (scope : Scope) :
    scope.outline depth = (depth, scope) :: scope.scopes.flatMap (outline (depth + 1)) := by
  cases scope
  rw [outline, outlineOfAll_eq_flatMap]

/-- A walk visits the trees on its stack one after the other.  The depths are there for the outlines
alone: the trees of one stack stand at different depths. -/
theorem walkStack_eq (stack : List (Nat × Scope)) :
    walkStack (stack.map Prod.snd)
      = (stack.flatMap fun entry => entry.2.outline entry.1).map Prod.snd := by
  -- on the number of scopes that are not visited yet
  induction hcount : countOfAll (stack.map Prod.snd) using Nat.strongRecOn generalizing stack with
  | ind _ ih =>
    subst hcount
    cases stack with
    | nil => simp [walkStack]
    | cons top rest =>
      obtain ⟨depth, scope⟩ := top
      let inside := scope.scopes.map fun child => (depth + 1, child)
      have hinside : inside.map Prod.snd = scope.scopes := by
        rw [List.map_map]
        exact List.map_id scope.scopes
      have hless : countOfAll ((inside ++ rest).map Prod.snd)
          < countOfAll (((depth, scope) :: rest).map Prod.snd) := by
        rw [List.map_append, hinside, List.map_cons, countOfAll, countOfAll_append, count_eq scope]
        omega
      have hrest := ih _ hless (inside ++ rest) rfl
      rw [List.map_append, hinside, List.flatMap_append, List.flatMap_map] at hrest
      rw [List.map_cons, walkStack, hrest, List.flatMap_cons, outline_eq]
      rfl

/-- A walk visits all scopes of a tree in the order of its outline, which may start at any depth. -/
theorem walk_eq_outline_from (depth : Nat) (scope : Scope) :
    scope.walk = (scope.outline depth).map Prod.snd := by
  have h := walkStack_eq [(depth, scope)]
  rwa [List.flatMap_singleton] at h

/-- A walk visits all scopes of a tree in the order of its outline. -/
theorem walk_eq_outline (scope : Scope) : scope.walk = (scope.outline 0).map Prod.snd :=
  walk_eq_outline_from 0 scope

/-- A walk visits a scope and then the scopes inside it. -/
theorem walk_eq (scope : Scope) : scope.walk = scope :: scope.scopes.flatMap walk := by
  rw [walk_eq_outline, outline_eq, List.map_cons, List.map_flatMap]
  simp only [← walk_eq_outline_from]

end ManagedPdb.Scope
