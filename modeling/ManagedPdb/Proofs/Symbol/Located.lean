import ManagedPdb.Proofs.Symbol.Brackets
import ManagedPdb.Proofs.Symbol.Carried
import ManagedPdb.Proofs.Symbol.ScopeWalk

/-!
# Where scopes start

The scope of a body starts with the method and is as long as the method.  The scopes inside it start
at addresses of 32 bits that are not in front of the method (`Method.Located`).  Nothing is known of
their lengths.
-/

namespace ManagedPdb

open Reader (Ensures)

/-- An address is so many bytes behind another one. -/
def Behind (address offset : UInt32) : Prop := address.toNat + offset.toNat < 2 ^ 32

/-- The scopes of a method start inside the address space, and the scope of its body is where the
method is. -/
structure Method.Located (method : Method) : Prop where
  offset_eq : method.scope.offset = 0
  length_eq : method.scope.length = method.length
  starts : ∀ scope ∈ method.scope.walk, Behind method.address scope.offset

/-- An open scope and all scopes inside it start inside the address space. -/
structure OpenScope.Located (address : UInt32) (scope : OpenScope) : Prop where
  starts : Behind address scope.offset
  inside : ∀ child ∈ scope.scopes, ∀ inner ∈ child.walk, Behind address inner.offset

def OpenScope.range (scope : OpenScope) : UInt32 × UInt32 := (scope.offset, scope.length)

/-- All open scopes of a method are located, and the outermost one is where the method is. -/
structure OpenMethod.Located (body : OpenMethod) : Prop where
  scopes : ∀ scope ∈ body.innermost :: body.enclosing, scope.Located body.method.address
  outermost : ((body.innermost :: body.enclosing).map OpenScope.range).getLast?
    = some (0, body.method.length)

theorem behind_zero (address : UInt32) : Behind address 0 := by
  show address.toNat + 0 < 2 ^ 32
  exact address.toNat_lt

/-- An address is behind those that are not greater by the difference. -/
theorem behind_sub {address start : UInt32} (h : ¬ address < start) :
    Behind start (address - start) := by
  have hle : start ≤ address := UInt32.not_lt.mp h
  rw [Behind, UInt32.toNat_sub_of_le _ _ hle, Nat.add_sub_cancel' (UInt32.le_iff_toNat_le.mp hle)]
  exact address.toNat_lt

namespace OpenScope.Located

variable {address : UInt32} {scope : OpenScope}

theorem walk_close (h : scope.Located address) :
    ∀ inner ∈ scope.close.walk, Behind address inner.offset := by
  intro inner member
  rw [Scope.walk_eq, List.mem_cons, List.mem_flatMap] at member
  rcases member with rfl | ⟨child, hchild, hinner⟩
  · exact h.starts
  · exact h.inside child (Array.mem_toList_iff.mp hchild) inner hinner

theorem push {child : Scope} (h : scope.Located address)
    (hchild : ∀ inner ∈ child.walk, Behind address inner.offset) :
    OpenScope.Located address { scope with scopes := scope.scopes.push child } where
  starts := h.starts
  inside other member := by
    rcases Array.mem_push.mp member with member | rfl
    · exact h.inside other member
    · exact hchild

end OpenScope.Located

namespace OpenMethod

variable {body : OpenMethod}

theorem located_ofStart (method : Method) (bodyStop : Nat) : (ofStart method bodyStop).Located where
  scopes scope member := by
    obtain rfl := List.mem_singleton.mp member
    exact ⟨behind_zero _, nofun⟩
  outermost := rfl

theorem located_readBlock (body : OpenMethod) (position : Nat) :
    Ensures (OpenScope.Located body.method.address) (body.readBlock position) := by
  refine .ite .fail_bind (.bind fun _ => .bind fun stop => .bind fun length =>
    .bind fun address => .bind fun _ => ?_)
  split
  case isTrue => exact .fail_bind
  case isFalse haddress => exact .pure ⟨behind_sub haddress, nofun⟩

/-- A record changes the innermost scope, but neither where it is nor what is inside it. -/
theorem Located.setInnermost (h : body.Located) {scope : OpenScope}
    (offset_eq : scope.offset = body.innermost.offset)
    (length_eq : scope.length = body.innermost.length)
    (scopes_eq : scope.scopes = body.innermost.scopes) :
    Located { body with innermost := scope } where
  scopes := by
    obtain ⟨hinnermost, henclosing⟩ := List.forall_mem_cons.mp h.scopes
    refine List.forall_mem_cons.mpr ⟨⟨?_, ?_⟩, henclosing⟩
    · exact offset_eq ▸ hinnermost.starts
    · exact scopes_eq ▸ hinnermost.inside
  outermost := by
    rw [List.map_cons, OpenScope.range, offset_eq, length_eq]
    exact h.outermost

theorem Located.add_metadata (h : body.Located) (metadata : Metadata) :
    (body.add (.metadata metadata)).Located := by
  have hhead := head_metadata metadata body.method
  simp only [Method.head, Method.site, Prod.mk.injEq, Site.mk.injEq] at hhead
  obtain ⟨-, ⟨-, haddress⟩, hlength, -, -⟩ := hhead
  constructor
  case scopes =>
    intro scope member
    show scope.Located (metadata.apply body.method).address
    exact haddress ▸ h.scopes scope member
  case outermost =>
    show _ = some (0, (metadata.apply body.method).length)
    exact hlength ▸ h.outermost

/-- Every entry is put into a scope that is located. -/
theorem Located.readEntry (h : body.Located) (position : Nat) (header : RecordHeader) :
    Ensures (fun entry => (body.add entry).Located) (body.readEntry position header) := by
  unfold OpenMethod.readEntry
  split
  case h_1 =>
    refine (located_readBlock body position).bind_of fun scope hscope => .pure ⟨?_, ?_⟩
    · exact List.forall_mem_cons.mpr ⟨hscope, h.scopes⟩
    · exact h.outermost
  case h_2 => exact .bind fun slot => .pure (h.setInnermost rfl rfl rfl)
  case h_3 => exact .bind fun constant => .pure (h.setInnermost rfl rfl rfl)
  case h_4 => exact .bind fun name => .pure (h.setInnermost rfl rfl rfl)
  case h_5 =>
    exact .ite (.bind fun metadata => .pure (h.add_metadata metadata)) (.pure h)
  case h_6 => exact .pure h

/-- A scope that is closed is put into one that is open, or is the scope of the method. -/
theorem Located.closeInnermost (h : body.Located) :
    Sum.elim Located Method.Located body.closeInnermost := by
  obtain ⟨hinnermost, henclosing⟩ := List.forall_mem_cons.mp h.scopes
  have hwalk := hinnermost.walk_close
  have houtermost := h.outermost
  unfold OpenMethod.closeInnermost
  split
  case h_1 hnone =>
    rw [hnone] at houtermost
    obtain ⟨hoffset, hlength⟩ := Prod.mk.inj (Option.some.inj houtermost)
    exact ⟨hoffset, hlength, hwalk⟩
  case h_2 outer enclosing hsome =>
    rw [hsome] at henclosing houtermost
    obtain ⟨houter, henclosing⟩ := List.forall_mem_cons.mp henclosing
    exact ⟨List.forall_mem_cons.mpr ⟨houter.push hwalk, henclosing⟩, houtermost⟩

theorem Located.step (h : body.Located) (limit : Nat) :
    Ensures (Sum.elim Located Method.Located) (OpenMethod.step limit body) :=
  ensures_step h.readEntry h.closeInnermost

end OpenMethod

/-- The scopes of all methods of a symbol region are located. -/
theorem located_readMethods (limit : Nat) (keepNames : Bool) :
    Ensures (fun methods => ∀ method ∈ methods, method.Located) (readMethods limit keepNames) := by
  apply ensures_readMethods
  case start =>
    intro stop content position started next hdone
    exact OpenMethod.located_ofStart started.1 started.2
  case step =>
    intro body h
    exact h.step limit

end ManagedPdb
