import ManagedPdb.Command
import ManagedPdb.Proofs.Machine.Basic
import ManagedPdb.Proofs.Report.Token
import ManagedPdb.Proofs.Symbol.ScopeWalk

/-!
# Reports that check their sums

A report says where each scope ends, which is a sum of two words.  If the sum does not fit into a
word, a report shows the low part of it, or it checks its sums and faults.  `Command.report?` is
the report of the second kind; where it does not fault, it is the same as the first one.
-/

namespace ManagedPdb

/-! ### Sums that are checked -/

/-- The end of the scope, counted from the start of the method, is a number of 32 bits. -/
def Scope.Fits (scope : Scope) : Prop := scope.offset.toNat + scope.length.toNat < 2 ^ 32

instance (scope : Scope) : Decidable scope.Fits := inferInstanceAs (Decidable (_ < _))

namespace Report

/-- The line on a scope from `start` to `stop`. -/
def rangeLine (depth start stop : Nat) : String :=
  String.ofList (List.replicate (2 * (depth + 2)) ' ') ++ "scope +" ++ Hex.marked 1 start ++ "..+"
    ++ Hex.marked 1 stop

/-- The lines of one scope; the end of the scope must fit. -/
def scopeLines? (depth : Nat) (scope : Scope) : Option (List String) := do
  let stop ← Checked.add 32 scope.offset.toNat scope.length.toNat
  return rangeLine depth scope.offset.toNat stop :: (scopeLines depth scope).tail

/-- The block of a method; the ends of its scopes must fit. -/
def methodLines? (info : DebugInfo) (method : Method) : Option (List String) := do
  let scopes ← (method.scope.outline 0).mapM fun (depth, scope) => scopeLines? depth scope
  return methodHeading method :: scopes.flatten ++ importLines info method
    ++ stateMachineLines method ++ method.lines.flatMap (tableLines info)

/-- The report on a file; the ends of all scopes must fit. -/
def dump? (info : DebugInfo) (idText : Guid → UInt32 → String) : Option Outcome := do
  let blocks ← info.methods.toList.mapM (methodLines? info)
  return ⟨text (headerLines info idText ++ blocks.flatten ++ trailerLines info), none⟩

/-- The report on the method with the chosen token; the ends of its scopes must fit. -/
def dumpOf? (info : DebugInfo) (choice : String) (idText : Guid → UInt32 → String) :
    Option Outcome :=
  match parseToken choice with
  | .error error => some ⟨text (headerLines info idText), some error.message⟩
  | .ok chosen =>
    match info.method? chosen with
    | some method => do
      let lines ← methodLines? info method
      return ⟨text (headerLines info idText ++ lines ++ trailerLines info), none⟩
    | none =>
      some ⟨text (headerLines info idText), some ("Method " ++ token chosen ++ " not found")⟩

/-- Steps that fault where something does not fit. -/
theorem mapM_eq_ite {α β : Type} {Fits : α → Prop} [DecidablePred Fits] {step : α → Option β}
    {value : α → β} (h : ∀ item, step item = if Fits item then some (value item) else none)
    (items : List α) :
    items.mapM step = if ∀ item ∈ items, Fits item then some (items.map value) else none := by
  induction items with
  | nil => simp
  | cons item items ih =>
    rw [List.mapM_cons, h, ih]
    by_cases hitem : Fits item
    · by_cases hitems : ∀ item ∈ items, Fits item
      · rw [if_pos hitem, if_pos hitems, if_pos (List.forall_mem_cons.mpr ⟨hitem, hitems⟩)]
        rfl
      · rw [if_pos hitem, if_neg hitems, if_neg fun h => hitems (List.forall_mem_cons.mp h).2]
        rfl
    · rw [if_neg hitem, if_neg fun h => hitem (List.forall_mem_cons.mp h).1]
      rfl

theorem rangeLine_inj {depth start stop stop' : Nat} :
    rangeLine depth start stop = rangeLine depth start stop' ↔ stop = stop' := by
  refine ⟨fun h => ?_, fun h => h ▸ rfl⟩
  apply (@marked_inj 1 _ _).mp
  apply String.toList_inj.mp
  simpa [rangeLine] using congrArg String.toList h

theorem scopeLines_eq (depth : Nat) (scope : Scope) : scopeLines depth scope
    = rangeLine depth scope.offset.toNat (scope.offset + scope.length).toNat
      :: (scopeLines depth scope).tail := rfl

/-- A sum that does not fit loses its highest bit. -/
theorem toNat_end (scope : Scope) : (scope.offset + scope.length).toNat
    = if scope.Fits then scope.offset.toNat + scope.length.toNat
      else scope.offset.toNat + scope.length.toNat - 2 ^ 32 := by
  have hoffset := scope.offset.toNat_lt
  have hlength := scope.length.toNat_lt
  rw [UInt32.toNat_add]
  by_cases h : scope.Fits
  · rw [if_pos h, Nat.mod_eq_of_lt h]
  · rw [if_neg h]
    have hle : 2 ^ 32 ≤ scope.offset.toNat + scope.length.toNat := Nat.not_lt.mp h
    omega

theorem scopeLines?_eq (depth : Nat) (scope : Scope) :
    scopeLines? depth scope = if scope.Fits then some (scopeLines depth scope) else none := by
  have hend := toNat_end scope
  by_cases h : scope.Fits
  · rw [if_pos h] at hend
    rw [scopeLines?, Checked.add_eq h, if_pos h, scopeLines_eq, hend]
    rfl
  · have hsum : Checked.add 32 scope.offset.toNat scope.length.toNat = none := if_neg h
    rw [scopeLines?, hsum, if_neg h]
    rfl

theorem methodLines?_eq (info : DebugInfo) (method : Method) : methodLines? info method
    = if ∀ scope ∈ method.scope.walk, scope.Fits then some (methodLines info method) else none := by
  have hwalk : (∀ scope ∈ method.scope.walk, scope.Fits) ↔
      ∀ entry ∈ method.scope.outline 0, entry.2.Fits := by
    rw [Scope.walk_eq_outline, List.forall_mem_map]
  have hlines := mapM_eq_ite (fun entry : Nat × Scope => scopeLines?_eq entry.1 entry.2)
    (method.scope.outline 0)
  unfold methodLines?
  rw [hlines]
  by_cases h : ∀ entry ∈ method.scope.outline 0, entry.2.Fits
  · rw [if_pos h, if_pos (hwalk.mpr h)]
    rfl
  · rw [if_neg h, if_neg fun hall => h (hwalk.mp hall)]
    rfl

theorem dump?_eq (info : DebugInfo) (idText : Guid → UInt32 → String) : dump? info idText
    = if ∀ method ∈ info.methods.toList, ∀ scope ∈ method.scope.walk, scope.Fits then
        some (ofInfo info none idText)
      else none := by
  unfold dump?
  rw [mapM_eq_ite (methodLines?_eq info)]
  by_cases h : ∀ method ∈ info.methods.toList, ∀ scope ∈ method.scope.walk, scope.Fits
  · rw [if_pos h, if_pos h]
    rfl
  · rw [if_neg h, if_neg h]
    rfl

/-- With a chosen method, only the scopes of that method count. -/
theorem dumpOf?_eq_of_method? {info : DebugInfo} {choice : String} {chosen : UInt32}
    {method : Method} (hchoice : parseToken choice = .ok chosen)
    (hmethod : info.method? chosen = some method) (idText : Guid → UInt32 → String) :
    dumpOf? info choice idText = if ∀ scope ∈ method.scope.walk, scope.Fits then
        some (ofInfo info (some choice) idText)
      else none := by
  simp only [dumpOf?, ofInfo, chosenLines, hchoice, hmethod, methodLines?_eq]
  by_cases h : ∀ scope ∈ method.scope.walk, scope.Fits
  · rw [if_pos h, if_pos h]
    rfl
  · rw [if_neg h, if_neg h]
    rfl

/-- Without a method, there is no sum. -/
theorem dumpOf?_eq_of_method?_none {info : DebugInfo} {choice : String} {chosen : UInt32}
    (hchoice : parseToken choice = .ok chosen) (hmethod : info.method? chosen = none)
    (idText : Guid → UInt32 → String) :
    dumpOf? info choice idText = some (ofInfo info (some choice) idText) := by
  simp only [dumpOf?, ofInfo, chosenLines, hchoice, hmethod]

/-- The line on a scope tells its end if the end fits. -/
theorem head?_scopeLines_iff (depth : Nat) (scope : Scope) :
    (scopeLines depth scope).head?
        = some (rangeLine depth scope.offset.toNat (scope.offset.toNat + scope.length.toNat)) ↔
      scope.Fits := by
  rw [scopeLines_eq, List.head?_cons, Option.some_inj, rangeLine_inj, toNat_end]
  by_cases h : scope.Fits
  · simp [h]
  · have hle : 2 ^ 32 ≤ scope.offset.toNat + scope.length.toNat := Nat.not_lt.mp h
    rw [if_neg h]
    exact iff_of_false (by omega) h

/-- An end that does not fit is shown in front of the start. -/
theorem end_lt_offset {scope : Scope} (h : ¬ scope.Fits) :
    scope.offset + scope.length < scope.offset := by
  have hend := toNat_end scope
  have hlength := scope.length.toNat_lt
  rw [if_neg h] at hend
  rw [UInt32.lt_iff_toNat_lt, hend]
  have hle : 2 ^ 32 ≤ scope.offset.toNat + scope.length.toNat := Nat.not_lt.mp h
  omega

end Report

namespace Command

/-- The report of a program that checks its sums. -/
def report? (command : Command) (image : ByteArray) (idText : Guid → UInt32 → String) :
    Option Report.Outcome :=
  match DebugInfo.decodeWith { applyTokenRemap := !command.rawTokens } image with
  | .ok info =>
    match command.token with
    | none => Report.dump? info idText
    | some choice => Report.dumpOf? info choice idText
  | .error error => some ⟨"", some error.message⟩

end Command

end ManagedPdb
