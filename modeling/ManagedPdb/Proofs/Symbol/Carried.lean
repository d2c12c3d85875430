import ManagedPdb.Proofs.Ensures
import ManagedPdb.Symbol.Body

/-!
# What every method of a region has

A property of the methods that are read comes from a property of methods whose end has not been
reached: the record of a method begins it, and every record inside carries it on, or closes the
method (`ensures_readMethods`).
-/

namespace ManagedPdb

open Reader (Ensures)

variable {B : OpenMethod → Prop} {P : Method → Prop}

/-- A step adds an entry or closes the innermost scope. -/
theorem OpenMethod.ensures_step {limit : Nat} {body : OpenMethod}
    (entry : ∀ position header,
      Ensures (fun entry => B (body.add entry)) (body.readEntry position header))
    (close : Sum.elim B P body.closeInnermost) :
    Ensures (Sum.elim B P) (step limit body) := by
  refine .bind fun position => .ite ?_ (.ite ?_ nofun)
  · exact .bind fun header => (entry position header).bind_of fun _ h => .bind fun _ => .pure h
  · exact .bind fun header => .ite .fail_bind (.bind fun _ => .pure close)

theorem Method.ensures_read {limit : Nat} {keepNames : Bool}
    (start : ∀ stop, Ensures (fun started : Method × Nat => B (.ofStart started.1 started.2))
      (Method.readStart stop keepNames))
    (step : ∀ body, B body → Ensures (Sum.elim B P) (OpenMethod.step limit body))
    (stop : Nat) : Ensures P (Method.read stop limit keepNames) :=
  (start stop).bind_of fun _ h => .iterate step h

theorem ensures_readMethodOrSkip {limit : Nat} {keepNames : Bool}
    (read : ∀ stop, Ensures P (Method.read stop limit keepNames)) {found : Array Method}
    (hfound : ∀ method ∈ found, P method) :
    Ensures (fun found => ∀ method ∈ found, P method) (readMethodOrSkip limit keepNames found) := by
  have hpush : ∀ stop, Ensures (fun found => ∀ method ∈ found, P method)
      (do return found.push (← Method.read stop limit keepNames)) := by
    intro stop
    refine (read stop).bind_of fun method hmethod => .pure fun other member => ?_
    rcases Array.mem_push.mp member with member | rfl
    · exact hfound other member
    · exact hmethod
  refine .bind fun header => ?_
  split
  · exact hpush header.stop
  · exact hpush header.stop
  · exact .bind fun _ => .pure hfound

/-- What the record of a method begins and every record inside carries on, all methods have in the
end. -/
theorem ensures_readMethods {limit : Nat} {keepNames : Bool}
    (start : ∀ stop, Ensures (fun started : Method × Nat => B (.ofStart started.1 started.2))
      (Method.readStart stop keepNames))
    (step : ∀ body, B body → Ensures (Sum.elim B P) (OpenMethod.step limit body)) :
    Ensures (fun methods => ∀ method ∈ methods, P method) (readMethods limit keepNames) := by
  have hnext : ∀ found : Array Method, (∀ method ∈ found, P method) →
      Ensures (fun found => ∀ method ∈ found, P method)
        (readMethodOrSkip limit keepNames found) :=
    fun _ => ensures_readMethodOrSkip (Method.ensures_read start step)
  refine .bind fun _ => (Ensures.whileBelow limit hnext (by simp)).bind_of fun found hfound => ?_
  exact .pure fun method member => hfound method (Array.mem_toList_iff.mp member)

end ManagedPdb
