import ManagedPdb.Proofs.Symbol.Descent

/-!
# The stack of open scopes

The decoder keeps the scopes that are open on a stack.  Here it is shown to do what the recursive
descent does: a step of the decoder is a move of the descent (`OpenMethod.step_eq`), and running
the decoder until the innermost scope closes is reading the rest of that scope
(`OpenMethod.iterate_eq`). The main statement, `readMethods_eq_descent`, is about whole regions
and any content of them.
-/

namespace ManagedPdb

open Descent

variable {limit : Nat} {content : ByteArray} {position : Nat}

/-! ### States of the decoder -/

/-- The scope as the decoder keeps it while it is open. -/
def PlacedScope.toOpen (scope : PlacedScope) : OpenScope where
  offset := scope.offset
  length := scope.length
  stop := scope.stop
  slots := scope.slots.toArray
  constants := scope.constants.toArray
  namespaces := scope.namespaces.toArray
  scopes := (scope.scopes.map erase).toArray

theorem PlacedScope.close_toOpen (scope : PlacedScope) : scope.toOpen.close = scope.erase := by
  rw [OpenScope.close, erase_eq]
  rfl

namespace Descent

/-- The state in which the decoder reads the scope, with the scopes around it. -/
def Body.toOpen (body : Body) (enclosing : List OpenScope) : OpenMethod where
  method := body.method
  innermost := body.scope.toOpen
  enclosing

/-- The method with the scope that was read. -/
def Body.erase (body : Body) : Method := { body.method with scope := body.scope.erase }

/-- What a move makes of the state in which the decoder reads the scope. -/
def Move.result (body : Body) (enclosing : List OpenScope) : Move → OpenMethod ⊕ Method
  | .close closed => (closed.toOpen enclosing).closeInnermost
  | .enter child => .inl (Body.toOpen ⟨body.method, child⟩ (body.scope.toOpen :: enclosing))
  | .stay after => .inl (after.toOpen enclosing)

end Descent

theorem OpenMethod.depth_toOpen (body : Body) (enclosing : List OpenScope) :
    (body.toOpen enclosing).depth = enclosing.length + 1 := rfl

/-- The scope around a closed one takes it in. -/
theorem OpenMethod.closeInnermost_toOpen (inner : Body) (outer : PlacedScope)
    (enclosing : List OpenScope) :
    (inner.toOpen (outer.toOpen :: enclosing)).closeInnermost
      = .inl (Body.toOpen ⟨inner.method, outer.addScope inner.scope⟩ enclosing) := by
  simp [closeInnermost, Body.toOpen, PlacedScope.toOpen, PlacedScope.addScope,
    ← PlacedScope.close_toOpen]

theorem OpenMethod.closeInnermost_toOpen_nil (body : Body) :
    (body.toOpen []).closeInnermost = .inr body.erase := by
  simp only [closeInnermost, Body.toOpen, Body.erase, PlacedScope.close_toOpen]

/-! ### Steps -/

namespace OpenMethod

theorem readBlock_eq (body : Body) (enclosing : List OpenScope) (start : Nat) :
    (body.toOpen enclosing).readBlock start
      = PlacedScope.toOpen <$>
          readChild (enclosing.length + 1) body.method.address start := by
  rw [readBlock, readChild, depth_toOpen]
  simp only [apply_ite (PlacedScope.toOpen <$> ·), map_bind, map_pure]
  rfl

/-- What the decoder adds for a record is what the descent makes of it. -/
theorem readEntry_eq (body : Body) (enclosing : List OpenScope) (start : Nat)
    (header : RecordHeader) :
    (fun entry => .inl ((body.toOpen enclosing).add entry)) <$>
        (body.toOpen enclosing).readEntry start header
      = Move.result body enclosing <$> readInside (enclosing.length + 1) body start header := by
  rw [readEntry, readInside, depth_toOpen]
  cases header.kind
  case block =>
    simp only [readBlock_eq, map_bind, map_pure, bind_map_left]
    rfl
  case slot | constant | importing =>
    simp only [map_bind, map_pure]
    simp [add, Body.toOpen, Move.result, PlacedScope.toOpen]
  case vendor =>
    simp only [apply_ite (Functor.map _), map_bind, map_pure]
    rfl
  all_goals rfl

/-- A record in front of the announced end: the decoder adds the entry only behind the payload, the
descent takes it at once. -/
theorem addEntry_eq (body : Body) (enclosing : List OpenScope) (start : Nat)
    (header : RecordHeader) :
    (do let entry ← (body.toOpen enclosing).readEntry start header
        Reader.seek header.stop
        return .inl ((body.toOpen enclosing).add entry))
      = Move.result body enclosing <$> (do
        let move ← readInside (enclosing.length + 1) body start header
        Reader.seek header.stop
        return move) := by
  -- what follows the payload is the same on both sides
  let goOn (result : OpenMethod ⊕ Method) : Reader (OpenMethod ⊕ Method) := do
    Reader.seek header.stop
    return result
  calc
    _ = ((fun entry => .inl ((body.toOpen enclosing).add entry)) <$>
          (body.toOpen enclosing).readEntry start header) >>= goOn := by rw [bind_map_left]
    _ = (Move.result body enclosing <$>
          readInside (enclosing.length + 1) body start header) >>= goOn := by rw [readEntry_eq]
    _ = _ := by simp only [bind_map_left, map_bind, map_pure, goOn]

/-- The record at the announced end. -/
theorem closeScope_eq (body : Body) (enclosing : List OpenScope) (header : RecordHeader) :
    (do if header.kind ≠ .scopeEnd then
          Reader.failAt (.missingEnd header.kind.code) body.scope.stop
        Reader.seek header.stop
        return (body.toOpen enclosing).closeInnermost)
      = Move.result body enclosing <$> (do
        let move ← readEnd body header
        Reader.seek header.stop
        return move) := by
  rw [readEnd]
  by_cases hkind : header.kind = .scopeEnd
  · simp only [hkind, ne_eq, not_true, if_false, pure_bind, map_bind, map_pure]
    rfl
  · simp only [if_pos hkind]
    rfl

/-- A step of the decoder is a move of the descent. -/
theorem step_eq (limit : Nat) (body : Body) (enclosing : List OpenScope) :
    step limit (body.toOpen enclosing)
      = Move.result body enclosing <$> readMove limit (enclosing.length + 1) body := by
  funext content position
  have hstop : (body.toOpen enclosing).innermost.stop = body.scope.stop := rfl
  rw [step, readMove, hstop, map_bind, Reader.bind_apply, Reader.bind_apply]
  simp only [Reader.position_apply]
  -- in front of the announced end, at it, and behind it
  rcases Nat.lt_trichotomy position body.scope.stop with hlt | heq | hgt
  · simp only [if_pos hlt, if_neg (Nat.not_lt_of_lt hlt), if_neg (Nat.ne_of_lt hlt)]
    rw [map_bind, bind_congr fun header => addEntry_eq body enclosing position header]
  · simp only [heq, Nat.lt_irrefl, if_false, if_true]
    rw [map_bind, bind_congr fun header => closeScope_eq body enclosing header]
  · rw [if_neg (by omega), if_neg (by omega), if_pos hgt]
    rfl

/-! ### Runs -/

/-- To run the decoder until the innermost scope closes is to read the rest of that scope.  The
decoder then goes on with the scopes around it, if there are any. -/
theorem iterate_eq (body : Body) (enclosing : List OpenScope) :
    Reader.iterate (step limit) (body.toOpen enclosing) content position =
      match scopeBody limit (enclosing.length + 1) body content position with
      | .failed error stopped => .failed error stopped
      | .done closed next =>
        match (closed.toOpen enclosing).closeInnermost with
        | .inl outer => Reader.iterate (step limit) outer content next
        | .inr method => .done method next := by
  -- on the bytes that are left; the stack grows inside an inner scope, so it must be any stack
  induction hlength : content.size - position using Nat.strongRecOn
    generalizing body enclosing position with
  | ind _ ih =>
    subst hlength
    have hstep := congrFun (congrFun (step_eq limit body enclosing) content) position
    rw [scopeBody_eq, Reader.bind_apply]
    cases hmove : readMove limit (enclosing.length + 1) body content position with
    | failed error stopped =>
      exact Reader.iterate_of_failed (by rw [hstep, Reader.map_apply, hmove])
    | done move next =>
      obtain ⟨hlt, hle⟩ := readMove_advances hmove
      rw [Reader.map_apply, hmove] at hstep
      cases move with
      | close closed =>
        simp only [Reader.pure_apply]
        cases hclose : (closed.toOpen enclosing).closeInnermost with
        | inl outer => exact Reader.iterate_of_step (by rw [hstep, ← hclose]; rfl) hlt hle
        | inr method => exact Reader.iterate_of_done (by rw [hstep, ← hclose]; rfl)
      | stay after =>
        rw [Reader.iterate_of_step hstep hlt hle]
        exact ih _ (by omega) after enclosing rfl
      | enter child =>
        rw [Reader.iterate_of_step hstep hlt hle, ih _ (by omega) _ _ rfl, List.length_cons]
        simp only [Reader.bind_apply]
        cases hinner : scopeBody limit (enclosing.length + 1 + 1) ⟨body.method, child⟩ content next
          with
        | failed error stopped => rfl
        | done inner after =>
          obtain ⟨hlt', hle'⟩ := scopeBody_advances hinner
          -- the stack is what it was before the inner scope, with that scope put into its top
          simp only [closeInnermost_toOpen]
          exact ih _ (by omega) _ enclosing rfl

end OpenMethod

/-! ### Methods and regions -/

theorem Method.read_eq (stop limit : Nat) (keepNames : Bool) :
    Method.read stop limit keepNames = Body.erase <$> readMethod stop limit keepNames := by
  rw [Method.read, readMethod, map_bind]
  refine bind_congr fun ⟨method, bodyStop⟩ => ?_
  let body : Body := ⟨method, { offset := 0, length := method.length, stop := bodyStop }⟩
  funext content position
  show Reader.iterate (OpenMethod.step limit) (body.toOpen []) content position
    = (Body.erase <$> scopeBody limit 1 body) content position
  rw [OpenMethod.iterate_eq, Reader.map_apply]
  cases scopeBody limit 1 body content position with
  | failed error stopped => rfl
  | done closed next => simp only [OpenMethod.closeInnermost_toOpen_nil]

theorem readMethodOrSkip_eq (limit : Nat) (keepNames : Bool) (found : Array Method) :
    readMethodOrSkip limit keepNames found
      = (fun body? => found ++ (body?.map Body.erase).toArray) <$>
          readMethodOrNone limit keepNames := by
  rw [readMethodOrSkip, readMethodOrNone, map_bind]
  refine bind_congr fun header => ?_
  cases header.kind
  case globalMethod | localMethod =>
    simp only [Method.read_eq, bind_map_left, map_bind, map_pure]
    simp
  all_goals
    simp only [map_bind, map_pure]
    simp

/-- The loop over a region puts the methods of the region behind those found before. -/
theorem whileBelow_eq (limit : Nat) (keepNames : Bool) (found : Array Method) :
    Reader.whileBelow limit (readMethodOrSkip limit keepNames) found
      = (fun rest => found ++ (rest.map Body.erase).toArray) <$> methods limit keepNames := by
  funext content position
  induction hlength : content.size - position using Nat.strongRecOn
    generalizing position found with
  | ind _ ih =>
    subst hlength
    have hread := congrFun (congrFun (readMethodOrSkip_eq limit keepNames found) content) position
    rw [Reader.map_apply] at hread
    rw [methods_eq, map_bind, Reader.bind_apply, Reader.position_apply]
    by_cases hlimit : position < limit
    · simp only [if_pos hlimit, map_bind, Reader.bind_apply]
      cases hfirst : readMethodOrNone limit keepNames content position with
      | failed error stopped =>
        rw [hfirst] at hread
        rw [Reader.whileBelow_of_lt hlimit (by simp [hread]), Reader.bind_apply, hread]
      | done first next =>
        obtain ⟨hlt, hle, -⟩ := readMethodOrNone_eq_done hfirst
        rw [hfirst] at hread
        have hrest := ih _ (by omega) (found ++ (first.map Body.erase).toArray) next rfl
        rw [Reader.whileBelow_of_lt hlimit (by simp [hread]; omega), Reader.bind_apply, hread]
        simp only [hrest, Reader.map_apply]
        cases first <;> cases methods limit keepNames content next <;> simp
    · rw [Reader.whileBelow_of_le (Nat.le_of_not_lt hlimit)]
      simp only [if_neg hlimit]
      simp

/-- The decoder agrees with the recursive descent on every content: it finds the same methods, or
fails with the same error, and stops at the same place.  The scopes of what it accepts are closed by
end records at their announced ends, an inner scope before its outer one ends, and at most
`maxOpenScopes` of them lie inside each other. -/
theorem readMethods_eq_descent (limit : Nat) (keepNames : Bool) :
    readMethods limit keepNames = List.map Body.erase <$> Descent.readMethods limit keepNames ∧
      ∀ content position found next,
        Descent.readMethods limit keepNames content position = .done found next →
          ∀ body ∈ found, body.scope.Closed limit content ∧
            body.erase.scope.depth ≤ maxOpenScopes := by
  constructor
  · rw [readMethods, Descent.readMethods, map_bind]
    refine bind_congr fun _ => ?_
    rw [whileBelow_eq, bind_map_left, ← bind_pure_comp]
    simp
  · intro content position found next h
    obtain ⟨_, _, -, hmethods⟩ := Reader.bind_eq_done_iff.mp h
    exact methods_closed hmethods

/-- A method with one block in it. -/
def nestedRegion : ByteArray := ⟨#[
  4, 0, 0, 0, 42, 0, 42, 17, 0, 0, 0, 0, 76, 0, 0, 0, 0, 0, 0, 0, 32, 0, 0, 0, 0, 0, 0, 0,
  32, 0, 0, 0, 1, 0, 0, 6, 16, 0, 0, 0, 1, 0, 0, 0, 0, 102, 0, 0, 22, 0, 3, 17, 0, 0, 0, 0,
  72, 0, 0, 0, 8, 0, 0, 0, 20, 0, 0, 0, 1, 0, 0, 0, 2, 0, 6, 0, 2, 0, 6, 0]⟩

theorem readMethods_eq_descent_nested :
    ∃ body next, Descent.readMethods 80 true nestedRegion 0 = .done [body] next ∧
      body.scope.Closed 80 nestedRegion ∧ body.erase.scope.depth = 2 := by
  obtain ⟨hagrees, hclosed⟩ := readMethods_eq_descent 80 true
  have hdecoded : (match readMethods 80 true nestedRegion 0 with
      | .done [method] _ => method.scope.depth
      | _ => 0) = 2 := by decide +kernel
  rw [hagrees, Reader.map_apply] at hdecoded
  cases hdescent : Descent.readMethods 80 true nestedRegion 0 with
  | failed error stopped => simp [hdescent] at hdecoded
  | done found next =>
    rw [hdescent] at hdecoded
    match found, hdecoded with
    | [body], hdepth =>
      exact ⟨body, next, rfl, (hclosed _ _ _ _ hdescent body (by simp)).1, hdepth⟩

end ManagedPdb
