import ManagedPdb.Proofs.Draft.MethodDraft

/-!
# What custom metadata says

The items and records of custom metadata are entered into the method one after the other, and each
takes the place of what was said before about the same thing.  So what is known in the end is what
was said last (`foldl_apply_eq`).
-/

namespace ManagedPdb

/-! ### Items -/

/-- Metadata does not move a method. -/
@[simp] theorem Metadata.apply_address (method : Method) (said : Metadata) :
    (said.apply method).address = method.address := by
  cases said with
  | items items =>
    rw [Metadata.apply]
    induction items generalizing method with
    | nil => rfl
    | cons item rest ih =>
      rw [List.foldl_cons, ih]
      cases item <;> rfl
  | asynchronous info => rfl
  | unknown name => rfl

/-- The method with what the items say last. -/
def Method.withItems (method : Method) (items : List MetadataDraft) : Method :=
  { method with
    usingCounts := (items.filterMap MetadataDraft.counts?).getLast?.getD method.usingCounts
    forwardToken := (items.filterMap MetadataDraft.forward?).getLast?.or method.forwardToken
    forwardModuleToken :=
      (items.filterMap MetadataDraft.forwardToModule?).getLast?.or method.forwardModuleToken
    iteratorClass := (items.filterMap MetadataDraft.class?).getLast?.or method.iteratorClass
    iteratorScopes := (items.filterMap MetadataDraft.scopes?).getLast?.getD method.iteratorScopes }

theorem Method.withItems_cons (method : Method) (item : MetadataDraft) (rest : List MetadataDraft) :
    method.withItems (item :: rest) = (item.item.apply method).withItems rest := by
  cases item <;>
    simp [withItems, List.filterMap_cons, List.getLast?_cons, MetadataDraft.item,
      MetadataItem.apply, MetadataDraft.counts?, MetadataDraft.forward?,
      MetadataDraft.forwardToModule?, MetadataDraft.class?, MetadataDraft.scopes?]

/-- Entering items one after the other leaves what was said last. -/
theorem foldl_items (method : Method) (items : List MetadataDraft) :
    (items.map MetadataDraft.item).foldl MetadataItem.apply method = method.withItems items := by
  induction items generalizing method with
  | nil => rfl
  | cons item rest ih => rw [List.map_cons, List.foldl_cons, ih, Method.withItems_cons]

theorem Method.withItems_append (method : Method) (left right : List MetadataDraft) :
    method.withItems (left ++ right) = (method.withItems left).withItems right := by
  induction left generalizing method with
  | nil => rfl
  | cons item rest ih => rw [List.cons_append, withItems_cons, ih, withItems_cons]

/-! ### Records -/

/-- What the record says about the method. -/
def RecordDraft.metadata? : RecordDraft → Option Metadata
  | metadata items => some (.items (items.map MetadataDraft.item))
  | asynchronous kickoff catchHandler points =>
    some (.asynchronous ⟨kickoff, catchHandler,
      points.map fun (offset, method, target) => ⟨offset, method, target⟩⟩)
  | vendor name _ => some (.unknown name)
  | _ => none

/-- The method with what the records say last. -/
def Method.withRecords (method : Method) (records : List RecordDraft) : Method :=
  { method.withItems (records.flatMap RecordDraft.items) with
    asyncInfo := (records.filterMap RecordDraft.asyncInfo?).getLast?.or method.asyncInfo }

theorem foldl_apply_eq (method : Method) (records : List RecordDraft) :
    (records.filterMap RecordDraft.metadata?).foldl Metadata.apply method
      = method.withRecords records := by
  induction records generalizing method with
  | nil => rfl
  | cons first rest ih =>
    cases first with
    | metadata items =>
      rw [List.filterMap_cons, RecordDraft.metadata?, List.foldl_cons, Metadata.apply, foldl_items,
        ih]
      simp [Method.withRecords, RecordDraft.items, RecordDraft.asyncInfo?, Method.withItems_append]
      rfl
    | asynchronous kickoff catchHandler points =>
      rw [List.filterMap_cons, RecordDraft.metadata?, List.foldl_cons, Metadata.apply, ih]
      simp [Method.withRecords, RecordDraft.items, RecordDraft.asyncInfo?, Method.withItems,
        List.getLast?_cons]
    | vendor name body =>
      rw [List.filterMap_cons, RecordDraft.metadata?, List.foldl_cons, Metadata.apply, ih]
      simp [Method.withRecords, RecordDraft.items, RecordDraft.asyncInfo?]
    | slot | constant | importing | raw =>
      rw [List.filterMap_cons_none rfl, ih]
      simp [Method.withRecords, RecordDraft.items, RecordDraft.asyncInfo?]

end ManagedPdb
