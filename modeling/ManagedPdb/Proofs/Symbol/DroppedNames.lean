import ManagedPdb.Proofs.Loops
import ManagedPdb.Proofs.Symbol.Frames

/-!
# Methods without names

The name stands at the end of a method record, whose end is announced.  So a decoder that does not
read names goes on behind the record where one that reads them does, and finds the same methods but
for their names (`readMethods_withoutName`).  Only the name itself can be in the way of the one that
reads it (`MethodNameFault`).
-/

namespace ManagedPdb

namespace Method

/-- The method as it is when names are dropped. -/
def withoutName (method : Method) : Method := { method with name := none }

/-- A method record up to the name, and the announced offset of the end record. -/
def readFields : Reader (Method × Nat) := do
  let _parent ← Reader.uint32
  let bodyStop ← Reader.uint32
  let _next ← Reader.uint32
  let length ← Reader.uint32
  let _debugStart ← Reader.uint32
  let _debugStop ← Reader.uint32
  let token ← Reader.uint32
  let address ← Reader.uint32
  let segment ← Reader.uint16
  let flags ← Reader.uint8
  let _returnRegister ← Reader.uint16
  let method := {
    token, segment, address, length, flags
    name := none
    scope := default
    usingCounts := []
    forwardToken := none
    forwardModuleToken := none
    iteratorClass := none
    iteratorScopes := []
    asyncInfo := none
    lines := [] }
  return (method, bodyStop.toNat)

/-- A method record is its fields and the name behind them. -/
theorem readStart_eq (stop : Nat) (keepNames : Bool) :
    readStart stop keepNames = (do
      let fields ← readFields
      let name ← readName keepNames
      Reader.seek stop
      return ({ fields.1 with name }, fields.2)) := by
  unfold readStart readFields
  simp only [bind_assoc, pure_bind]

@[simp] theorem apply_withoutName_item (item : MetadataItem) (method : Method) :
    item.apply method.withoutName = (item.apply method).withoutName := by
  cases item <;> rfl

theorem apply_withoutName (metadata : Metadata) (method : Method) :
    metadata.apply method.withoutName = (metadata.apply method).withoutName := by
  cases metadata with
  | items items =>
    show items.foldl (fun method item => item.apply method) method.withoutName
      = (items.foldl (fun method item => item.apply method) method).withoutName
    induction items generalizing method with
    | nil => rfl
    | cons item items ih => rw [List.foldl_cons, List.foldl_cons, apply_withoutName_item, ih]
  | asynchronous info => rfl
  | unknown name => rfl

end Method

/-- A method name in the symbol region that ends at `limit` cannot be read, and that is the error:
the records in front are decoded, and so are the fields in front of the name. -/
def MethodNameFault (limit : Nat) (content : ByteArray) (error : DecodeError) : Prop :=
  ∃ found position header inside fields after stopped,
    readSymbolSignature content 0 = .done () 4 ∧
    Reader.Reaches limit (readMethodOrSkip limit true) content #[] 4 found position ∧
    position < limit ∧
    RecordHeader.read limit content position = .done header inside ∧
    (header.kind = .globalMethod ∨ header.kind = .localMethod) ∧
    Method.readFields content inside = .done fields after ∧
    Reader.terminatedString content after = .failed error stopped

namespace OpenMethod

/-- The method without its name, with the same open scopes. -/
def withoutName (body : OpenMethod) : OpenMethod := { body with method := body.method.withoutName }

theorem add_withoutName (body : OpenMethod) (entry : Entry) :
    body.withoutName.add entry = (body.add entry).withoutName := by
  cases entry with
  | metadata metadata =>
    exact congrArg ({ body with method := · }) (Method.apply_withoutName metadata body.method)
  | block | slot | constant | importing | skipped => rfl

theorem closeInnermost_withoutName (body : OpenMethod) :
    body.withoutName.closeInnermost
      = Sum.map withoutName Method.withoutName body.closeInnermost := by
  obtain ⟨method, innermost, enclosing⟩ := body
  cases enclosing <;> rfl

theorem liftRel_map {α β γ δ : Type} (f : α → γ) (g : β → δ) (value : α ⊕ β) :
    Sum.LiftRel (fun left left' => left' = f left) (fun right right' => right' = g right) value
      (Sum.map f g value) := by
  cases value with
  | inl value => exact .inl rfl
  | inr value => exact .inr rfl

/-- No record of a body looks at the name. -/
theorem step_withoutName (limit : Nat) (body : OpenMethod) :
    ReaderSim NoExcuse (Sum.LiftRel (fun body body' => body' = body.withoutName)
        fun method method' => method' = method.withoutName)
      (step limit body) (step limit body.withoutName) := by
  refine .bind_same fun position => .ite ?_ (.ite ?_ ?_)
  · refine .bind_same fun header => ?_
    refine (ReaderSim.refl (body.readEntry position header)).bind ?_
    rintro entry _ rfl
    refine .bind_same fun _ => .pure ?_
    rw [add_withoutName]
    exact .inl rfl
  · refine .bind_same fun header => ?_
    have hclose : ReaderSim NoExcuse
        (Sum.LiftRel (fun body body' => body' = body.withoutName)
          fun method method' => method' = method.withoutName)
        (do Reader.seek header.stop; return body.closeInnermost)
        (do Reader.seek header.stop; return body.withoutName.closeInnermost) := by
      refine .bind_same fun _ => .pure ?_
      rw [closeInnermost_withoutName]
      exact liftRel_map _ _ _
    exact .ite (.bind_same fun _ => hclose) hclose
  · exact fun _ _ => .failed ..

end OpenMethod

section

variable {limit stop position : Nat} {content : ByteArray}

theorem Method.readStart_withoutName (hstop : stop ≤ content.size)
    (hname : ∀ error, (∃ fields after stopped,
      Method.readFields content position = .done fields after ∧
        Reader.terminatedString content after = .failed error stopped) → Excused error) :
    OutcomeSim Excused
      (fun started started' => started' = (started.1.withoutName, started.2))
      (Method.readStart stop true content position)
      (Method.readStart stop false content position) := by
  rw [readStart_eq, readStart_eq]
  refine .bind_same fun fields after hfields => ?_
  show OutcomeSim _ _ ((some <$> Reader.terminatedString >>= _) content after) _
  rw [Reader.bind_apply, Reader.map_apply]
  show OutcomeSim _ _ _ ((Reader.seek stop >>= _) content after)
  rw [Reader.bind_apply, Reader.seek_of_le hstop]
  -- the name is the only step that is not shared; behind it both stand at the announced end
  cases hread : Reader.terminatedString content after with
  | failed error stopped =>
    exact .excused _ _ (hname error ⟨fields, after, stopped, hfields, hread⟩)
  | done name middle =>
    dsimp only
    rw [Reader.bind_apply, Reader.seek_of_le hstop]
    exact .done _ rfl

theorem Method.read_withoutName (hstop : stop ≤ content.size)
    (hname : ∀ error, (∃ fields after stopped,
      Method.readFields content position = .done fields after ∧
        Reader.terminatedString content after = .failed error stopped) → Excused error) :
    OutcomeSim Excused (fun method method' => method' = method.withoutName)
      (Method.read stop limit true content position)
      (Method.read stop limit false content position) := by
  refine (readStart_withoutName hstop hname).bind ?_
  rintro ⟨method, bodyStop⟩ _ middle - rfl
  refine ReaderSim.outcome
    (.iterate (fun body body' (related : body' = body.withoutName) => ?_) rfl) content middle
  rw [related]
  exact body.step_withoutName limit

theorem readMethodOrSkip_withoutName (hlimit : limit ≤ content.size) (found : Array Method)
    (hname : ∀ error, (∃ header inside fields after stopped,
      RecordHeader.read limit content position = .done header inside ∧
        (header.kind = .globalMethod ∨ header.kind = .localMethod) ∧
        Method.readFields content inside = .done fields after ∧
        Reader.terminatedString content after = .failed error stopped) → Excused error) :
    OutcomeSim Excused (fun found found' => found' = found.map Method.withoutName)
      (readMethodOrSkip limit true found content position)
      (readMethodOrSkip limit false (found.map Method.withoutName) content position) := by
  refine .bind_same fun header inside hheader => ?_
  have hstop := (Descent.header_eq_done hheader).2.2.2
  have hmethod : (header.kind = .globalMethod ∨ header.kind = .localMethod) →
      OutcomeSim Excused (fun found found' => found' = found.map Method.withoutName)
        ((do return found.push (← Method.read header.stop limit true) : Reader (Array Method))
          content inside)
        ((do return (found.map Method.withoutName).push (← Method.read header.stop limit false) :
          Reader (Array Method)) content inside) := by
    intro hkind
    refine (Method.read_withoutName (by omega) ?_).bind ?_
    · rintro error ⟨fields, after, stopped, hfields, hread⟩
      exact hname error ⟨header, inside, fields, after, stopped, hheader, hkind, hfields, hread⟩
    · rintro method _ middle - rfl
      exact .done _ (Array.map_push ..).symm
  cases hkind : header.kind with
  | globalMethod => exact hmethod (.inl hkind)
  | localMethod => exact hmethod (.inr hkind)
  | scopeEnd | vendor | block | slot | importing | constant | other =>
    exact .bind_same fun _ _ _ => .done _ rfl

/-- Without names the same methods are found, unless one of the names cannot be read. -/
theorem readMethods_withoutName (hlimit : limit ≤ content.size) :
    OutcomeSim (MethodNameFault limit content)
      (fun methods methods' => methods' = methods.map Method.withoutName)
      (readMethods limit true content 0) (readMethods limit false content 0) := by
  refine .bind_same fun _ next hsignature => ?_
  obtain rfl := readSymbolSignature_eq_done hsignature
  have hrecords : OutcomeSim (MethodNameFault limit content)
      (fun found found' => found' = found.map Method.withoutName)
      (Reader.whileBelow limit (readMethodOrSkip limit true) #[] content 4)
      (Reader.whileBelow limit (readMethodOrSkip limit false) #[] content 4) := by
    refine .whileBelow ?_ .start Array.map_empty.symm
    rintro found _ position reaches hposition rfl
    refine readMethodOrSkip_withoutName hlimit found ?_
    rintro error ⟨header, inside, fields, after, stopped, hheader, hkind, hfields, hread⟩
    exact ⟨found, position, header, inside, fields, after, stopped, hsignature, reaches, hposition,
      hheader, hkind, hfields, hread⟩
  refine hrecords.bind ?_
  rintro found _ middle - rfl
  exact .done _ (Array.toList_map ..)

end

end ManagedPdb
