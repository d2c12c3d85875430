import ManagedPdb.Draft.SymbolRegion
import Mathlib.Data.List.Basic

/-!
# Scopes that commands open and close

A writer may open scopes that it never closes, and close where nothing is open.  So whether a
command closes the scope of another is said of the commands between the two: they close just the
scopes that they open themselves (`Balanced`).  A scope is the innermost one that is open behind
some commands if those behind its own are balanced (`InnermostOpen`).  The stack of the open scopes
(`openScopes`) has that scope on top (`head?_openScopes`).
-/

namespace ManagedPdb.SymbolCommand

/-- What a command does to the scopes that are open. -/
inductive ScopeRole where
  | opens
  | closes
  | stays
  deriving DecidableEq

def role : SymbolCommand → ScopeRole
  | method .. | block .. => .opens
  | close _ => .closes
  | _ => .stays

/-! ### Balanced commands -/

/-- How many scopes are open behind the commands, if `depth` are open in front of them.  There is no
number if a command closes where nothing is open. -/
def depth? : (depth : Nat) → List SymbolCommand → Option Nat
  | depth, [] => some depth
  | depth, command :: rest =>
    match command.role, depth with
    | .opens, depth => depth? (depth + 1) rest
    | .closes, 0 => none
    | .closes, depth + 1 => depth? depth rest
    | .stays, depth => depth? depth rest

/-- The commands close the scopes that they open, and no others. -/
def Balanced (commands : List SymbolCommand) : Prop := depth? 0 commands = some 0

instance (commands : List SymbolCommand) : Decidable (Balanced commands) :=
  inferInstanceAs (Decidable (_ = _))

variable {command : SymbolCommand} {commands inside after left right : List SymbolCommand}
  {depth depth' index opening closing : Nat} {scopes : List Nat}

theorem depth?_of_opens (h : command.role = .opens) :
    depth? depth (command :: commands) = depth? (depth + 1) commands := by
  simp only [depth?, h]

theorem depth?_zero_of_closes (h : command.role = .closes) :
    depth? 0 (command :: commands) = none := by
  simp only [depth?, h]

theorem depth?_succ_of_closes (h : command.role = .closes) :
    depth? (depth + 1) (command :: commands) = depth? depth commands := by
  simp only [depth?, h]

theorem depth?_of_stays (h : command.role = .stays) :
    depth? depth (command :: commands) = depth? depth commands := by
  simp only [depth?, h]

theorem depth?_append (depth : Nat) (left right : List SymbolCommand) :
    depth? depth (left ++ right) = (depth? depth left).bind (depth? · right) := by
  induction left generalizing depth with
  | nil => rfl
  | cons command rest ih =>
    rw [List.cons_append]
    cases hrole : command.role with
    | opens => rw [depth?_of_opens hrole, depth?_of_opens hrole, ih]
    | stays => rw [depth?_of_stays hrole, depth?_of_stays hrole, ih]
    | closes =>
      cases depth with
      | zero => rw [depth?_zero_of_closes hrole, depth?_zero_of_closes hrole, Option.bind_none]
      | succ depth => rw [depth?_succ_of_closes hrole, depth?_succ_of_closes hrole, ih]

/-- What the first command does, if there is a number behind all of them. -/
theorem depth?_cons_cases (h : depth? depth (command :: commands) = some depth') :
    (command.role = .opens ∧ depth? (depth + 1) commands = some depth') ∨
    (command.role = .stays ∧ depth? depth commands = some depth') ∨
    (∃ outer, depth = outer + 1 ∧ command.role = .closes ∧
      depth? outer commands = some depth') := by
  cases hrole : command.role with
  | opens => exact .inl ⟨rfl, depth?_of_opens hrole ▸ h⟩
  | stays => exact .inr (.inl ⟨rfl, depth?_of_stays hrole ▸ h⟩)
  | closes =>
    cases depth with
    | zero =>
      rw [depth?_zero_of_closes hrole] at h
      cases h
    | succ outer => exact .inr (.inr ⟨outer, rfl, rfl, depth?_succ_of_closes hrole ▸ h⟩)

/-- Scopes that are open further out make no difference. -/
theorem depth?_add (h : depth? depth commands = some depth') (more : Nat) :
    depth? (depth + more) commands = some (depth' + more) := by
  induction commands generalizing depth with
  | nil =>
    cases h
    rfl
  | cons command rest ih =>
    rcases depth?_cons_cases h with ⟨hrole, h⟩ | ⟨hrole, h⟩ | ⟨outer, rfl, hrole, h⟩
    · rw [depth?_of_opens hrole, Nat.add_right_comm, ih h]
    · rw [depth?_of_stays hrole, ih h]
    · rw [Nat.add_right_comm, depth?_succ_of_closes hrole, ih h]

namespace Balanced

protected theorem append (hleft : Balanced left) (hright : Balanced right) :
    Balanced (left ++ right) := by
  rw [Balanced, depth?_append, hleft, Option.bind_some, hright]

theorem of_stays (h : command.role = .stays) : Balanced [command] := by
  rw [Balanced, depth?_of_stays h]
  rfl

/-- A scope with all that is inside it. -/
theorem scope {opener closer : SymbolCommand} (hopener : opener.role = .opens)
    (hinside : Balanced inside) (hcloser : closer.role = .closes) :
    Balanced (opener :: inside ++ [closer]) := by
  have hdeeper : depth? 1 inside = some 1 := depth?_add hinside 1
  rw [Balanced, List.cons_append, depth?_of_opens hopener, depth?_append, hdeeper, Option.bind_some,
    depth?_succ_of_closes hcloser]
  rfl

/-- A command that closes behind balanced commands closes a scope in front of them. -/
theorem not_append_closes (hinside : Balanced inside) (h : command.role = .closes) :
    ¬ Balanced (inside ++ command :: after) := by
  intro hwhole
  rw [Balanced, depth?_append, hinside, Option.bind_some, depth?_zero_of_closes h] at hwhole
  cases hwhole

end Balanced

/-! ### Open scopes -/

/-- The indices of the commands whose scopes are open behind one more command, the innermost
first. -/
def openBehind (index : Nat) (scopes : List Nat) (command : SymbolCommand) : List Nat :=
  match command.role with
  | .opens => index :: scopes
  | .closes => scopes.tail
  | .stays => scopes

/-- The same behind commands that are counted from `index` on. -/
def openScopes : (index : Nat) → (scopes : List Nat) → List SymbolCommand → List Nat
  | _, scopes, [] => scopes
  | index, scopes, command :: rest =>
    openScopes (index + 1) (command.openBehind index scopes) rest

theorem openScopes_append (index : Nat) (scopes : List Nat) (left right : List SymbolCommand) :
    openScopes index scopes (left ++ right)
      = openScopes (index + left.length) (openScopes index scopes left) right := by
  induction left generalizing index scopes with
  | nil => rfl
  | cons command rest ih =>
    rw [List.cons_append, openScopes, openScopes, ih, List.length_cons, Nat.add_right_comm,
      Nat.add_assoc]

/-- An open scope was open in front, or is that of one of the commands. -/
theorem mem_openScopes (h : opening ∈ openScopes index scopes commands) :
    opening ∈ scopes ∨ opening < index + commands.length := by
  induction commands generalizing index scopes with
  | nil => exact .inl h
  | cons command rest ih =>
    rw [List.length_cons]
    rcases ih h with hmem | hlt
    · rw [openBehind] at hmem
      cases hrole : command.role with
      | opens =>
        rw [hrole] at hmem
        rcases List.mem_cons.mp hmem with rfl | hmem
        · exact .inr (by omega)
        · exact .inl hmem
      | closes =>
        rw [hrole] at hmem
        exact .inl (List.mem_of_mem_tail hmem)
      | stays =>
        rw [hrole] at hmem
        exact .inl hmem
    · exact .inr (by omega)

/-- What is left of the stack below the scopes that the commands leave open. -/
theorem drop_openScopes (h : depth? depth commands = some depth') :
    (openScopes index scopes commands).drop depth' = scopes.drop depth := by
  induction commands generalizing index scopes depth with
  | nil =>
    cases h
    rfl
  | cons command rest ih =>
    rw [openScopes, openBehind]
    rcases depth?_cons_cases h with ⟨hrole, h⟩ | ⟨hrole, h⟩ | ⟨outer, rfl, hrole, h⟩
    · rw [ih h, hrole, List.drop_succ_cons]
    · rw [ih h, hrole]
    · rw [ih h, hrole, List.drop_tail]

theorem openScopes_of_balanced (h : Balanced commands) :
    openScopes index scopes commands = scopes :=
  drop_openScopes h

/-- The top of the stack is a scope that the commands behind its own leave open; in front of that
command the rest of the stack was open. -/
theorem exists_of_openScopes (h : openScopes 0 [] commands = opening :: scopes) :
    ∃ before command inside, commands = before ++ command :: inside ∧ before.length = opening ∧
      command.role = .opens ∧ Balanced inside ∧ openScopes 0 [] before = scopes := by
  -- a command that closes leads back to the scope around the one that it closes
  induction hlength : commands.length using Nat.strongRecOn
    generalizing commands opening scopes with
  | ind _ ih =>
    subst hlength
    rcases List.eq_nil_or_concat commands with rfl | ⟨front, last, rfl⟩
    · cases h
    rw [List.concat_eq_append, List.length_append] at ih
    rw [List.concat_eq_append] at h ⊢
    rw [openScopes_append, openScopes, openScopes, openBehind, Nat.zero_add] at h
    cases hrole : last.role with
    | opens =>
      rw [hrole] at h
      cases h
      exact ⟨front, last, [], rfl, rfl, hrole, rfl, rfl⟩
    | stays =>
      rw [hrole] at h
      obtain ⟨before, opener, inside, rfl, hindex, hopener, hinside, hbefore⟩ :=
        ih front.length (Nat.lt_succ_self _) h rfl
      exact ⟨before, opener, inside ++ [last], by simp, hindex, hopener,
        hinside.append (.of_stays hrole), hbefore⟩
    | closes =>
      rw [hrole] at h
      cases hfront : openScopes 0 [] front with
      | nil =>
        rw [hfront] at h
        cases h
      | cons inner outer =>
        rw [hfront] at h
        obtain ⟨middle, closed, inside, rfl, -, hclosed, hinside, hmiddle⟩ :=
          ih front.length (Nat.lt_succ_self _) hfront rfl
        obtain ⟨before, opener, between, rfl, hindex, hopener, hbetween, hbefore⟩ :=
          ih middle.length (by grind) (hmiddle.trans h) rfl
        exact ⟨before, opener, between ++ (closed :: inside ++ [last]), by simp, hindex, hopener,
          hbetween.append (.scope hclosed hinside hrole), hbefore⟩

/-- The scope of the command at `opening` is the innermost one that the commands leave open. -/
def InnermostOpen (commands : List SymbolCommand) (opening : Nat) : Prop :=
  ∃ before command inside, commands = before ++ command :: inside ∧ before.length = opening ∧
    command.role = .opens ∧ Balanced inside

theorem head?_openScopes :
    (openScopes 0 [] commands).head? = some opening ↔ InnermostOpen commands opening := by
  constructor
  · intro h
    obtain ⟨scopes, hscopes⟩ := List.head?_eq_some_iff.mp h
    obtain ⟨before, command, inside, hcommands, hindex, hrole, hinside, -⟩ :=
      exists_of_openScopes hscopes
    exact ⟨before, command, inside, hcommands, hindex, hrole, hinside⟩
  · rintro ⟨before, command, inside, rfl, rfl, hrole, hinside⟩
    rw [openScopes_append, openScopes, openScopes_of_balanced hinside, openBehind, hrole,
      Nat.zero_add]
    rfl

theorem InnermostOpen.unique {other : Nat} (h : InnermostOpen commands opening)
    (hother : InnermostOpen commands other) : other = opening := by
  rw [← head?_openScopes] at h hother
  rw [h] at hother
  cases hother
  rfl

theorem InnermostOpen.lt_length (h : InnermostOpen commands opening) :
    opening < commands.length := by
  obtain ⟨before, command, inside, rfl, rfl, -⟩ := h
  simp

theorem InnermostOpen.exists_opener (h : InnermostOpen commands opening) :
    ∃ opener, commands[opening]? = some opener ∧ opener.role = .opens := by
  obtain ⟨before, opener, inside, rfl, rfl, hrole, -⟩ := h
  exact ⟨opener, by simp, hrole⟩

/-! ### Closed scopes -/

/-- The command at `closing` closes the scope of the command at `opening`. -/
def ClosedAt (commands : List SymbolCommand) (opening closing : Nat) : Prop :=
  ∃ before command after, commands = before ++ command :: after ∧ before.length = closing ∧
    command.role = .closes ∧ InnermostOpen before opening

theorem ClosedAt.lt_length (h : ClosedAt commands opening closing) :
    opening < closing ∧ closing < commands.length := by
  obtain ⟨before, command, after, rfl, rfl, -, hopen⟩ := h
  exact ⟨hopen.lt_length, by simp⟩

/-- One more command closes the innermost scope at most. -/
theorem closedAt_concat_iff :
    ClosedAt (commands ++ [command]) opening closing ↔ ClosedAt commands opening closing ∨
      commands.length = closing ∧ command.role = .closes ∧ InnermostOpen commands opening := by
  constructor
  · rintro ⟨before, closer, after, hcommands, hindex, hrole, hopen⟩
    rcases List.eq_nil_or_concat after with rfl | ⟨front, last, rfl⟩
    · obtain ⟨rfl, hlast⟩ := List.append_inj' hcommands rfl
      cases hlast
      exact .inr ⟨hindex, hrole, hopen⟩
    · rw [List.concat_eq_append, ← List.cons_append, ← List.append_assoc] at hcommands
      obtain ⟨rfl, -⟩ := List.append_inj' hcommands rfl
      exact .inl ⟨before, closer, front, rfl, hindex, hrole, hopen⟩
  · rintro (⟨before, closer, after, rfl, hindex, hrole, hopen⟩ | ⟨hindex, hrole, hopen⟩)
    · exact ⟨before, closer, after ++ [command], by simp, hindex, hrole, hopen⟩
    · exact ⟨commands, command, [], rfl, hindex, hrole, hopen⟩

/-- A scope that is open was not closed. -/
theorem InnermostOpen.not_closedAt (h : InnermostOpen commands opening) (closing : Nat) :
    ¬ ClosedAt commands opening closing := by
  obtain ⟨before, opener, inside, rfl, rfl, -, hinside⟩ := h
  rintro ⟨_, closer, after, hcommands, -, hcloser, front, opener', between, rfl, hindex, -,
    hbetween⟩
  rw [List.append_assoc, List.cons_append] at hcommands
  obtain ⟨rfl, hrest⟩ := List.append_inj hcommands hindex.symm
  cases hrest
  exact hbetween.not_append_closes hcloser hinside

end ManagedPdb.SymbolCommand
