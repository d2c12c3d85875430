import ManagedPdb.Symbol.Constant

/-!
# Scopes

A method body is a tree of lexical scopes, each with its local variables, constants and imported
namespaces.  `Scope.walk` lists the scopes of a tree from a stack of trees that are still to be
visited; `Scope.outline` lists them by recursion together with their depths.
-/

namespace ManagedPdb

structure Slot where
  /-- Its index in the local signature of the method. -/
  index : UInt32
  typeToken : UInt32
  address : UInt32
  segment : UInt16
  flags : UInt16
  name : String
  deriving DecidableEq

def Slot.read : Reader Slot :=
  return { index := ← Reader.uint32, typeToken := ← Reader.uint32, address := ← Reader.uint32
           segment := ← Reader.uint16, flags := ← Reader.uint16
           name := ← Reader.terminatedString }

/-- A lexical scope.  Its offset counts from the start of the method. -/
structure Scope where
  offset : UInt32
  length : UInt32
  slots : List Slot
  constants : List Constant
  namespaces : List String
  /-- The scopes directly inside this one. -/
  scopes : List Scope

namespace Scope

instance : Inhabited Scope := ⟨⟨0, 0, [], [], [], []⟩⟩

mutual

/-- The greatest number of scopes on a way from this scope inwards. -/
def depth : Scope → Nat
  | ⟨_, _, _, _, _, scopes⟩ => 1 + depthOfAll scopes

/-- The greatest depth in a list of scopes, zero if it is empty. -/
def depthOfAll : List Scope → Nat
  | [] => 0
  | scope :: rest => max scope.depth (depthOfAll rest)

end

mutual

def count : Scope → Nat
  | ⟨_, _, _, _, _, scopes⟩ => 1 + countOfAll scopes

/-- The number of scopes in all trees of a list. -/
def countOfAll : List Scope → Nat
  | [] => 0
  | scope :: rest => scope.count + countOfAll rest

end

theorem countOfAll_append (left right : List Scope) :
    countOfAll (left ++ right) = countOfAll left + countOfAll right := by
  induction left with
  | nil => simp [countOfAll]
  | cons scope rest ih => simp [countOfAll, ih, Nat.add_assoc]

theorem count_eq (scope : Scope) : scope.count = 1 + countOfAll scope.scopes := by
  cases scope
  simp [count]

/-- The scopes of the trees on a stack, the top of the stack first.  A visited scope makes room for
the scopes inside it. -/
def walkStack : (stack : List Scope) → List Scope
  | [] => []
  | scope :: rest => scope :: walkStack (scope.scopes ++ rest)
termination_by stack => countOfAll stack
decreasing_by simp [countOfAll, countOfAll_append, count_eq]

/-- All scopes of a tree, each in front of the scopes inside it. -/
def walk (scope : Scope) : List Scope := walkStack [scope]

mutual

/-- All scopes of a tree with their depths, each in front of the scopes inside it. -/
def outline (depth : Nat) : Scope → List (Nat × Scope)
  | scope@⟨_, _, _, _, _, scopes⟩ => (depth, scope) :: outlineOfAll (depth + 1) scopes

/-- All scopes of a list of trees with their depths. -/
def outlineOfAll (depth : Nat) : List Scope → List (Nat × Scope)
  | [] => []
  | scope :: rest => outline depth scope ++ outlineOfAll depth rest

end

end Scope

end ManagedPdb
