import ManagedPdb.Proofs.Reader
import ManagedPdb.Symbol.Body

/-!
# Method bodies by recursive descent

The format of a method body, read by recursion instead of with a stack of open scopes.  The body
of a scope is a row of records up to the announced end of the scope and an end record there; a
block record is followed by the body of an inner scope.  `Descent.scopeBody` reads a body, and the
main statement, `Descent.scopeBody_eq`, is the equation of that recursion.

The scopes that are read keep the place of their end records, so that one can say where they were
closed.  `Descent.scopeBody_closed` does: each at its announced end, an inner scope before its outer
one ends, and never more than `maxOpenScopes` of them inside each other.
-/

namespace ManagedPdb

/-! ### Scopes with their ends -/

/-- A scope that knows its end. -/
structure PlacedScope where
  offset : UInt32
  length : UInt32
  slots : List Slot := []
  constants : List Constant := []
  namespaces : List String := []
  /-- The scopes directly inside this one. -/
  scopes : List PlacedScope := []
  /-- The announced offset of the end record. -/
  stop : Nat
  /-- The offset behind the end record, zero as long as that has not been read. -/
  next : Nat := 0

theorem Scope.depthOfAll_append (left right : List Scope) :
    Scope.depthOfAll (left ++ right)
      = max (Scope.depthOfAll left) (Scope.depthOfAll right) := by
  induction left with
  | nil => simp [Scope.depthOfAll]
  | cons scope rest ih => simp [Scope.depthOfAll, ih, Nat.max_assoc]

namespace PlacedScope

mutual

/-- The scope without its places. -/
def erase : PlacedScope → Scope
  | ⟨offset, length, slots, constants, namespaces, scopes, _, _⟩ =>
    ⟨offset, length, slots, constants, namespaces, eraseAll scopes⟩

/-- The scopes of a list without their places. -/
def eraseAll : List PlacedScope → List Scope
  | [] => []
  | scope :: rest => scope.erase :: eraseAll rest

end

theorem eraseAll_eq_map (scopes : List PlacedScope) : eraseAll scopes = scopes.map erase := by
  induction scopes with
  | nil => rfl
  | cons scope rest ih => rw [eraseAll, ih, List.map_cons]

theorem erase_eq (scope : PlacedScope) :
    scope.erase = ⟨scope.offset, scope.length, scope.slots, scope.constants, scope.namespaces,
      scope.scopes.map erase⟩ := by
  cases scope
  rw [erase, eraseAll_eq_map]

/-- The greatest number of scopes on a way from this scope inwards. -/
def depth (scope : PlacedScope) : Nat := scope.erase.depth

theorem depth_eq (scope : PlacedScope) :
    scope.depth = 1 + Scope.depthOfAll (scope.scopes.map erase) := by
  rw [depth, erase_eq, Scope.depth]

/-- Adds an inner scope. -/
def addScope (scope child : PlacedScope) : PlacedScope :=
  { scope with scopes := scope.scopes ++ [child] }

/-- The end record of the scope stands exactly at the announced end, where `limit` is the end of the
region.  The same holds of all scopes inside, and these end before the scope does. -/
inductive Closed (limit : Nat) (content : ByteArray) : PlacedScope → Prop
  | intro (scope : PlacedScope) (inside : Nat)
      (ended : RecordHeader.read limit content scope.stop
        = .done ⟨.scopeEnd, scope.next⟩ inside)
      (within : ∀ child ∈ scope.scopes, child.next ≤ scope.stop)
      (closed : ∀ child ∈ scope.scopes, Closed limit content child) :
      Closed limit content scope

end PlacedScope

/-! ### Records inside a scope -/

namespace Descent

/-- A method and the scope of it that is being read. -/
structure Body where
  method : Method
  scope : PlacedScope

/-- What a record means for the scope that is being read. -/
inductive Move where
  /-- The scope ends. -/
  | close (body : Body)
  /-- An inner scope starts. -/
  | enter (child : PlacedScope)
  /-- The scope goes on. -/
  | stay (body : Body)

/-- The payload of a block record that starts at `position`, in a method at `address` and with
`depth` open scopes. -/
def readChild (depth : Nat) (address : UInt32) (position : Nat) : Reader PlacedScope := do
  if maxOpenScopes ≤ depth then Reader.failAt (.scopeTooDeep depth) position
  let _parent ← Reader.uint32
  let stop ← Reader.uint32
  let length ← Reader.uint32
  let start ← Reader.uint32
  let _segment ← Reader.uint16
  if start < address then Reader.failAt .invalidScope position
  return { offset := start - address, length, stop := stop.toNat }

/-- The record with the given header in front of the announced end. -/
def readInside (depth : Nat) (body : Body) (position : Nat) (header : RecordHeader) :
    Reader Move := do
  match header.kind with
  | .block => return .enter (← readChild depth body.method.address position)
  | .slot => return .stay { body with scope.slots := body.scope.slots ++ [← Slot.read] }
  | .constant =>
    return .stay { body with scope.constants := body.scope.constants ++ [← Constant.read] }
  | .importing =>
    return .stay
      { body with scope.namespaces := body.scope.namespaces ++ [← Reader.terminatedString] }
  | .vendor =>
    if depth = 1 then
      return .stay { body with method := (← Metadata.read header.stop).apply body.method }
    else return .stay body
  | _ => return .stay body

/-- The record with the given header at the announced end. -/
def readEnd (body : Body) (header : RecordHeader) : Reader Move := do
  if header.kind ≠ .scopeEnd then
    Reader.failAt (.missingEnd header.kind.code) body.scope.stop
  return .close { body with scope.next := header.stop }

/-- The next record of a scope, with `depth` open scopes. -/
def readMove (limit depth : Nat) (body : Body) : Reader Move := do
  let position ← Reader.position
  if body.scope.stop < position then Reader.failAt .notAtEnd position
  let header ← RecordHeader.read limit
  let move ←
    if position = body.scope.stop then readEnd body header
    else readInside depth body position header
  Reader.seek header.stop
  return move

variable {limit depth : Nat} {body : Body} {content : ByteArray} {position next : Nat}

/-- All that a record header can be: four bytes that are there, with an end behind its first two. -/
theorem header_eq_done {header : RecordHeader} {inside : Nat}
    (h : RecordHeader.read limit content position = .done header inside) :
    inside = position + 4 ∧ inside ≤ content.size ∧ position + 2 ≤ header.stop ∧
      header.stop ≤ limit := by
  unfold RecordHeader.read at h
  obtain ⟨start, middle, hposition, h⟩ := Reader.bind_eq_done_iff.mp h
  cases hposition
  obtain ⟨length, middle, hlength, h⟩ := Reader.bind_eq_done_iff.mp h
  obtain ⟨code, middle', hcode, h⟩ := Reader.bind_eq_done_iff.mp h
  obtain ⟨-, rfl⟩ := Reader.uint16_eq_done hlength
  obtain ⟨hle, rfl⟩ := Reader.uint16_eq_done hcode
  by_cases hlimit : limit < position + 2 + length.toNat
  · rw [if_pos hlimit] at h
    cases h
  · rw [if_neg hlimit] at h
    cases h
    exact ⟨rfl, hle, by simp, by simpa using hlimit⟩

/-- An inner scope starts empty, and only if the scopes around it leave room for it. -/
theorem readChild_eq_done {address : UInt32} {start : Nat} {child : PlacedScope}
    (h : readChild depth address start content position = .done child next) :
    depth < maxOpenScopes ∧ child.scopes = [] := by
  unfold readChild at h
  by_cases hdepth : maxOpenScopes ≤ depth
  · rw [if_pos hdepth] at h
    cases h
  · rw [if_neg hdepth] at h
    obtain ⟨_parent, _, -, h⟩ := Reader.bind_eq_done_iff.mp h
    obtain ⟨stop, _, -, h⟩ := Reader.bind_eq_done_iff.mp h
    obtain ⟨length, _, -, h⟩ := Reader.bind_eq_done_iff.mp h
    obtain ⟨lowest, _, -, h⟩ := Reader.bind_eq_done_iff.mp h
    obtain ⟨_segment, _, -, h⟩ := Reader.bind_eq_done_iff.mp h
    by_cases haddress : lowest < address
    · rw [if_pos haddress] at h
      cases h
    · rw [if_neg haddress] at h
      cases h
      exact ⟨by omega, rfl⟩

/-- In front of its end, a scope goes on with the same scopes inside, or an empty one starts. -/
theorem readInside_eq_done {start : Nat} {header : RecordHeader} {move : Move}
    (h : readInside depth body start header content position = .done move next) :
    (∃ after, move = .stay after ∧ after.scope.scopes = body.scope.scopes) ∨
      ∃ child, move = .enter child ∧ depth < maxOpenScopes ∧ child.scopes = [] := by
  unfold readInside at h
  cases hkind : header.kind
  case block =>
    rw [hkind] at h
    obtain ⟨child, _, hchild, h⟩ := Reader.bind_eq_done_iff.mp h
    cases h
    exact .inr ⟨child, rfl, readChild_eq_done hchild⟩
  case slot | constant | importing =>
    rw [hkind] at h
    obtain ⟨_, _, -, h⟩ := Reader.bind_eq_done_iff.mp h
    cases h
    exact .inl ⟨_, rfl, rfl⟩
  case vendor =>
    rw [hkind] at h
    by_cases hdepth : depth = 1
    · simp only [if_pos hdepth] at h
      obtain ⟨_, _, -, h⟩ := Reader.bind_eq_done_iff.mp h
      cases h
      exact .inl ⟨_, rfl, rfl⟩
    · simp only [if_neg hdepth] at h
      cases h
      exact .inl ⟨_, rfl, rfl⟩
  all_goals
    rw [hkind] at h
    cases h
    exact .inl ⟨_, rfl, rfl⟩

/-- All that a move can be: it reads one record, which starts at the announced end or in front of
it, and goes to the end of that record. -/
theorem readMove_eq_done {move : Move}
    (h : readMove limit depth body content position = .done move next) :
    ∃ header inside, RecordHeader.read limit content position = .done header inside ∧
      next = header.stop ∧ next ≤ content.size ∧
      ((position = body.scope.stop ∧ header.kind = .scopeEnd ∧
          move = .close { body with scope.next := next }) ∨
        (position < body.scope.stop ∧ ∃ after,
          readInside depth body position header content inside = .done move after)) := by
  unfold readMove at h
  obtain ⟨start, middle, hposition, h⟩ := Reader.bind_eq_done_iff.mp h
  cases hposition
  by_cases hbehind : body.scope.stop < position
  · rw [if_pos hbehind] at h
    cases h
  rw [if_neg hbehind] at h
  obtain ⟨header, inside, hheader, h⟩ := Reader.bind_eq_done_iff.mp h
  refine ⟨header, inside, hheader, ?_⟩
  -- both branches end with the same move to the end of the record
  by_cases hend : position = body.scope.stop
  · rw [if_pos hend] at h
    obtain ⟨found, after, hread, h⟩ := Reader.bind_eq_done_iff.mp h
    obtain ⟨_, stop, hseek, h⟩ := Reader.bind_eq_done_iff.mp h
    obtain ⟨hle, rfl⟩ := Reader.seek_eq_done_iff.mp hseek
    cases h
    unfold readEnd at hread
    by_cases hkind : header.kind = .scopeEnd
    · rw [if_neg (by simpa using hkind)] at hread
      cases hread
      exact ⟨rfl, hle, .inl ⟨hend, hkind, rfl⟩⟩
    · rw [if_pos hkind] at hread
      cases hread
  · rw [if_neg hend] at h
    obtain ⟨found, after, hread, h⟩ := Reader.bind_eq_done_iff.mp h
    obtain ⟨_, stop, hseek, h⟩ := Reader.bind_eq_done_iff.mp h
    obtain ⟨hle, rfl⟩ := Reader.seek_eq_done_iff.mp hseek
    cases h
    exact ⟨rfl, hle, .inr ⟨by omega, after, hread⟩⟩

theorem readMove_advances {move : Move}
    (h : readMove limit depth body content position = .done move next) :
    position < next ∧ next ≤ content.size := by
  obtain ⟨header, inside, hheader, rfl, hle, -⟩ := readMove_eq_done h
  obtain ⟨-, -, hstop, -⟩ := header_eq_done hheader
  exact ⟨by omega, hle⟩

/-- A scope ends with an end record at its announced end. -/
theorem readMove_eq_close {closed : Body}
    (h : readMove limit depth body content position = .done (.close closed) next) :
    closed = { body with scope.next := next } ∧ position = body.scope.stop ∧
      ∃ inside, RecordHeader.read limit content position = .done ⟨.scopeEnd, next⟩ inside := by
  obtain ⟨header, inside, hheader, rfl, -, hcases⟩ := readMove_eq_done h
  rcases hcases with ⟨hposition, hkind, hmove⟩ | ⟨-, after, hinside⟩
  · cases hmove
    exact ⟨rfl, hposition, inside, by rw [hheader, ← hkind]⟩
  · rcases readInside_eq_done hinside with ⟨_, hmove, -⟩ | ⟨_, hmove, -⟩ <;> cases hmove

theorem readMove_eq_stay {after : Body}
    (h : readMove limit depth body content position = .done (.stay after) next) :
    after.scope.scopes = body.scope.scopes := by
  obtain ⟨header, inside, -, -, -, hcases⟩ := readMove_eq_done h
  rcases hcases with ⟨-, -, hmove⟩ | ⟨-, _, hinside⟩
  · cases hmove
  · rcases readInside_eq_done hinside with ⟨_, hmove, hscopes⟩ | ⟨_, hmove, -⟩ <;> cases hmove
    exact hscopes

theorem readMove_eq_enter {child : PlacedScope}
    (h : readMove limit depth body content position = .done (.enter child) next) :
    depth < maxOpenScopes ∧ child.scopes = [] := by
  obtain ⟨header, inside, -, -, -, hcases⟩ := readMove_eq_done h
  rcases hcases with ⟨-, -, hmove⟩ | ⟨-, _, hinside⟩
  · cases hmove
  · rcases readInside_eq_done hinside with ⟨_, hmove, -⟩ | ⟨_, hmove, hchild⟩ <;> cases hmove
    exact hchild

/-! ### The recursion -/

/-- How the rest of a scope ends, which is behind `position` and inside the content. -/
def Rest (content : ByteArray) (position : Nat) : Type :=
  { outcome : Outcome Body //
    ∀ closed next, outcome = .done closed next → position < next ∧ next ≤ content.size }

/-- What lies behind a later position lies behind an earlier one. -/
def Rest.from_earlier (earlier : position < next) (rest : Rest content next) :
    Rest content position :=
  ⟨rest.1, by
    intro closed stop hdone
    obtain ⟨hlt, hle⟩ := rest.2 closed stop hdone
    exact ⟨by omega, hle⟩⟩

/-- The rest of a scope, with the scopes inside it.  It ends further on, inside the content, and
that is why the recursion stops. -/
def bodyFrom (limit depth : Nat) (body : Body) (content : ByteArray) (position : Nat) :
    Rest content position :=
  match hmove : readMove limit depth body content position with
  | .failed error stopped => ⟨.failed error stopped, nofun⟩
  | .done (.close closed) next =>
    ⟨.done closed next, by rintro _ _ ⟨⟩; exact readMove_advances hmove⟩
  | .done (.stay body) next =>
    have advances := readMove_advances hmove
    (bodyFrom limit depth body content next).from_earlier advances.1
  | .done (.enter child) next =>
    have advances := readMove_advances hmove
    match bodyFrom limit (depth + 1) ⟨body.method, child⟩ content next with
    | ⟨.failed error stopped, _⟩ => ⟨.failed error stopped, nofun⟩
    | ⟨.done inner after, hinner⟩ =>
      -- the rest of this scope starts behind the end record of the inner one
      have further := hinner inner after rfl
      let outer := ⟨inner.method, body.scope.addScope inner.scope⟩
      (bodyFrom limit depth outer content after).from_earlier (by omega)
termination_by content.size - position

/-- The rest of a scope, with `depth` open scopes. -/
def scopeBody (limit depth : Nat) (body : Body) : Reader Body := fun content position =>
  (bodyFrom limit depth body content position).1

theorem scopeBody_advances {closed : Body}
    (h : scopeBody limit depth body content position = .done closed next) :
    position < next ∧ next ≤ content.size :=
  (bodyFrom limit depth body content position).2 closed next h

/-- The rest of a scope is its next record and what follows from that: nothing at the end of the
scope, an inner scope and the rest at the start of that, and the rest alone otherwise. -/
theorem scopeBody_eq (limit depth : Nat) (body : Body) :
    scopeBody limit depth body = (do
      match ← readMove limit depth body with
      | .close closed => return closed
      | .stay body => scopeBody limit depth body
      | .enter child =>
        let inner ← scopeBody limit (depth + 1) ⟨body.method, child⟩
        scopeBody limit depth ⟨inner.method, body.scope.addScope inner.scope⟩) := by
  funext content position
  rw [scopeBody, bodyFrom, Reader.bind_apply]
  split
  case h_1 error stopped hmove => simp only [hmove]
  case h_2 closed stop hmove =>
    simp only [hmove]
    rfl
  case h_3 body stop hmove =>
    simp only [hmove]
    rfl
  case h_4 child stop hmove =>
    simp only [hmove, Reader.bind_apply, scopeBody]
    split
    case h_1 error stopped _ hinner => rw [hinner]
    case h_2 inner after _ hinner =>
      rw [hinner]
      rfl

/-- A property of a scope and the position in it that every record keeps, the end record of the
scope and the inner scopes included, holds when the scope is closed.  The second argument of the
property is whether the scope is closed already. -/
theorem scopeBody_induction {Inside Done : Nat → Body → Nat → Prop}
    (close : ∀ {depth body closed position next}, Inside depth body position →
      readMove limit depth body content position = .done (.close closed) next →
      Done depth closed next)
    (stay : ∀ {depth body after position next}, Inside depth body position →
      readMove limit depth body content position = .done (.stay after) next →
      Inside depth after next)
    (enter : ∀ {depth body child position next}, Inside depth body position →
      readMove limit depth body content position = .done (.enter child) next →
      Inside (depth + 1) ⟨body.method, child⟩ next)
    (leave : ∀ {depth body inner position after}, Inside depth body position → position < after →
      Done (depth + 1) inner after →
      Inside depth ⟨inner.method, body.scope.addScope inner.scope⟩ after)
    {closed : Body} (inside : Inside depth body position)
    (h : scopeBody limit depth body content position = .done closed next) :
    Done depth closed next := by
  -- on the bytes that are left, since every move advances inside the content
  induction hlength : content.size - position using Nat.strongRecOn
    generalizing depth body position closed next with
  | ind _ ih =>
    subst hlength
    rw [scopeBody_eq] at h
    obtain ⟨move, middle, hmove, h⟩ := Reader.bind_eq_done_iff.mp h
    obtain ⟨hlt, hle⟩ := readMove_advances hmove
    cases move with
    | close =>
      cases h
      exact close inside hmove
    | stay after => exact ih _ (by omega) (stay inside hmove) h rfl
    | enter child =>
      obtain ⟨inner, after, hinner, h⟩ := Reader.bind_eq_done_iff.mp h
      obtain ⟨hlt', hle'⟩ := scopeBody_advances hinner
      -- once for the inner scope, and once for what is left of this one behind it
      have hdone := ih _ (by omega) (enter inside hmove) hinner rfl
      exact ih _ (by omega) (leave inside (by omega) hdone) h rfl

/-! ### Where scopes are closed -/

/-- So far, the scopes inside a scope are closed in front of the position, and with `depth` scopes
open there are not too many inside each other. -/
structure Sound (limit : Nat) (content : ByteArray) (depth : Nat) (body : Body) (position : Nat) :
    Prop where
  closed : ∀ child ∈ body.scope.scopes, child.Closed limit content
  within : ∀ child ∈ body.scope.scopes, child.next ≤ position
  shallow : depth + Scope.depthOfAll (body.scope.scopes.map PlacedScope.erase) ≤ maxOpenScopes

theorem Sound.of_empty (empty : body.scope.scopes = [])
    (hdepth : depth ≤ maxOpenScopes) : Sound limit content depth body position where
  closed := by simp [empty]
  within := by simp [empty]
  shallow := by simpa [empty, Scope.depthOfAll] using hdepth

/-- A scope is closed at its announced end by an end record, and so are the scopes inside it. -/
theorem scopeBody_closed {closed : Body} (sound : Sound limit content depth body position)
    (h : scopeBody limit depth body content position = .done closed next) :
    closed.scope.Closed limit content ∧ depth + closed.scope.depth ≤ maxOpenScopes + 1 ∧
      closed.scope.next = next := by
  have hinduction := @scopeBody_induction limit depth body content position next
    (Sound limit content) (fun depth closed next => closed.scope.Closed limit content ∧
      depth + closed.scope.depth ≤ maxOpenScopes + 1 ∧ closed.scope.next = next)
  refine hinduction ?close ?stay ?enter ?leave sound h
  case close =>
    intro depth body closed position next sound h
    obtain ⟨rfl, rfl, inside, hheader⟩ := readMove_eq_close h
    refine ⟨.intro _ inside hheader sound.within sound.closed, ?_, rfl⟩
    have hshallow := sound.shallow
    rw [PlacedScope.depth_eq]
    show depth + (1 + Scope.depthOfAll (body.scope.scopes.map PlacedScope.erase)) ≤ _
    omega
  case stay =>
    intro depth body after position next sound h
    have hscopes := readMove_eq_stay h
    obtain ⟨hlt, -⟩ := readMove_advances h
    refine ⟨by simpa [hscopes] using sound.closed, ?_, by simpa [hscopes] using sound.shallow⟩
    intro child hchild
    have := sound.within child (by simpa [hscopes] using hchild)
    omega
  case enter =>
    intro depth body child position next _ h
    obtain ⟨hdepth, hchild⟩ := readMove_eq_enter h
    exact .of_empty hchild (by omega)
  case leave =>
    intro depth body inner position after sound hlt ⟨hclosed, hdepth, hnext⟩
    -- the inner scope joins those that were closed before; it ends where the reader stands
    refine ⟨?_, ?_, ?_⟩
    · simpa [PlacedScope.addScope, or_imp, forall_and] using ⟨sound.closed, hclosed⟩
    · simp only [PlacedScope.addScope, List.mem_append, List.mem_singleton]
      rintro child (hchild | rfl)
      · have := sound.within child hchild
        omega
      · omega
    · have hshallow := sound.shallow
      rw [PlacedScope.depth] at hdepth
      simp only [PlacedScope.addScope, List.map_append, List.map_cons, List.map_nil,
        Scope.depthOfAll_append, Scope.depthOfAll]
      omega

/-! ### Whole regions -/

/-- The method whose record ends at `stop`, with its scope. -/
def readMethod (stop limit : Nat) (keepNames : Bool) : Reader Body := do
  let (method, bodyStop) ← Method.readStart stop keepNames
  scopeBody limit 1 ⟨method, { offset := 0, length := method.length, stop := bodyStop }⟩

/-- The next record outside of methods, if it is a method. -/
def readMethodOrNone (limit : Nat) (keepNames : Bool) : Reader (Option Body) := do
  let header ← RecordHeader.read limit
  match header.kind with
  | .globalMethod | .localMethod => return some (← readMethod header.stop limit keepNames)
  | _ =>
    Reader.seek header.stop
    return none

/-- A method record ends where its header says. -/
theorem readStart_eq_done {stop : Nat} {keepNames : Bool} {start : Method × Nat}
    (h : Method.readStart stop keepNames content position = .done start next) :
    next = stop ∧ stop ≤ content.size := by
  unfold Method.readStart at h
  iterate 12 obtain ⟨_, _, -, h⟩ := Reader.bind_eq_done_iff.mp h
  obtain ⟨_, _, hseek, h⟩ := Reader.bind_eq_done_iff.mp h
  obtain ⟨hle, hstop⟩ := Reader.seek_eq_done_iff.mp hseek
  cases h
  exact ⟨hstop, hle⟩

theorem readMethod_eq_done {stop : Nat} {keepNames : Bool} {closed : Body}
    (h : readMethod stop limit keepNames content position = .done closed next) :
    stop < next ∧ next ≤ content.size ∧ closed.scope.Closed limit content ∧
      closed.scope.depth ≤ maxOpenScopes := by
  obtain ⟨⟨method, bodyStop⟩, middle, hstart, hbody⟩ := Reader.bind_eq_done_iff.mp h
  obtain ⟨rfl, -⟩ := readStart_eq_done hstart
  obtain ⟨hlt, hle⟩ := scopeBody_advances hbody
  obtain ⟨hclosed, hdepth, -⟩ := scopeBody_closed (.of_empty rfl (by decide)) hbody
  exact ⟨hlt, hle, hclosed, by omega⟩

theorem readMethodOrNone_eq_done {keepNames : Bool} {found : Option Body}
    (h : readMethodOrNone limit keepNames content position = .done found next) :
    position < next ∧ next ≤ content.size ∧ ∀ body ∈ found,
      body.scope.Closed limit content ∧ body.scope.depth ≤ maxOpenScopes := by
  unfold readMethodOrNone at h
  obtain ⟨header, inside, hheader, h⟩ := Reader.bind_eq_done_iff.mp h
  obtain ⟨-, -, hstop, -⟩ := header_eq_done hheader
  cases hkind : header.kind
  case globalMethod | localMethod =>
    rw [hkind] at h
    obtain ⟨body, _, hbody, h⟩ := Reader.bind_eq_done_iff.mp h
    obtain ⟨hlt, hle, hclosed⟩ := readMethod_eq_done hbody
    cases h
    exact ⟨by omega, hle, by simpa using hclosed⟩
  all_goals
    rw [hkind] at h
    obtain ⟨_, _, hseek, h⟩ := Reader.bind_eq_done_iff.mp h
    obtain ⟨hle, rfl⟩ := Reader.seek_eq_done_iff.mp hseek
    cases h
    exact ⟨by omega, hle, nofun⟩

/-- The methods from the position on, inside the content, in a region that ends at `limit`. -/
def methodsFrom (limit : Nat) (keepNames : Bool) (content : ByteArray) (position : Nat) :
    Outcome (List Body) :=
  if position < limit then
    match _hfound : readMethodOrNone limit keepNames content position with
    | .failed error stopped => .failed error stopped
    | .done found next =>
      match methodsFrom limit keepNames content next with
      | .failed error stopped => .failed error stopped
      | .done rest stop => .done (found.toList ++ rest) stop
  else .done [] position
termination_by content.size - position
decreasing_by
  have advances := readMethodOrNone_eq_done _hfound
  omega

/-- The methods of the region that ends at `limit`, from the position on. -/
def methods (limit : Nat) (keepNames : Bool) : Reader (List Body) := methodsFrom limit keepNames

/-- The methods of a region are that of its next record, if that is a method, and those behind
it. -/
theorem methods_eq (limit : Nat) (keepNames : Bool) :
    methods limit keepNames = (do
      if (← Reader.position) < limit then
        let found ← readMethodOrNone limit keepNames
        let rest ← methods limit keepNames
        return found.toList ++ rest
      else return []) := by
  funext content position
  rw [methods, methodsFrom, Reader.bind_apply, Reader.position_apply]
  by_cases hlimit : position < limit
  · simp only [if_pos hlimit]
    rw [Reader.bind_apply]
    split
    case h_1 error stopped hfound => simp only [hfound]
    case h_2 found next hfound =>
      simp only [hfound]
      show _ = (methods limit keepNames >>= fun rest => pure (found.toList ++ rest)) content next
      rw [Reader.bind_apply, methods]
      cases methodsFrom limit keepNames content next <;> rfl
  · simp only [if_neg hlimit]
    rfl

/-- All methods of the symbol region that ends at `limit`, with their scopes. -/
def readMethods (limit : Nat) (keepNames : Bool) : Reader (List Body) := do
  readSymbolSignature
  methods limit keepNames

/-- Every method of a region is closed, with all its scopes, and nested no deeper than allowed. -/
theorem methods_closed {keepNames : Bool} {found : List Body}
    (h : methods limit keepNames content position = .done found next) :
    ∀ body ∈ found, body.scope.Closed limit content ∧ body.scope.depth ≤ maxOpenScopes := by
  induction hlength : content.size - position using Nat.strongRecOn
    generalizing position found next with
  | ind _ ih =>
    subst hlength
    rw [methods_eq] at h
    obtain ⟨start, _, hposition, h⟩ := Reader.bind_eq_done_iff.mp h
    cases hposition
    by_cases hlimit : position < limit
    · rw [if_pos hlimit] at h
      obtain ⟨first, middle, hfirst, h⟩ := Reader.bind_eq_done_iff.mp h
      obtain ⟨rest, stop, hrest, h⟩ := Reader.bind_eq_done_iff.mp h
      obtain ⟨hlt, hle, hclosed⟩ := readMethodOrNone_eq_done hfirst
      cases h
      intro body hbody
      rcases List.mem_append.mp hbody with hbody | hbody
      · exact hclosed body (by simpa using hbody)
      · exact ih _ (by omega) hrest rfl body hbody
    · rw [if_neg hlimit] at h
      cases h
      simp

end Descent

end ManagedPdb
