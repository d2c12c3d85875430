import ManagedPdb.Names.InfoStream
import ManagedPdb.Names.NameTable
import ManagedPdb.Proofs.Machine.Field

/-!
# Names on a machine

A slot of the table of stream names is looked up in the bitmap by a shift in 32 bits, one slot after
the other.  The place of a name is a sum in 64 bits.
-/

namespace ManagedPdb

variable {α : Type}

namespace Machine

/-! ### Stream names -/

def bitmap : Machine Bitmap := do
  let count ← uint32
  return ⟨(← uint32s count.toNat).toArray⟩

/-- Whether the slot is in use.  A shift has to be by less than 32 bits. -/
def inUse (present : Bitmap) (slot : Nat) : Option Bool :=
  match present.words[slot / 32]? with
  | some word => do
    Checked.require (slot % 32 < 32)
    return word &&& (1 <<< UInt32.ofNat (slot % 32)) != 0
  | none => return false

def nameEntry (bufferStart bufferSize : Nat) : Machine (String × UInt32) := do
  let offset ← uint32
  let stream ← uint32
  if bufferSize ≤ offset.toNat then failAt .unexpectedEnd bufferStart
  let name ← terminatedStringAt (← Checked.add 64 bufferStart offset.toNat)
  return (name, stream)

/-- Adds the entries of the next `count` slots, of which `slot` is the first, to those `before`. -/
def slotsOnto (present : Bitmap) (bufferStart bufferSize : Nat) (before : Array (String × UInt32))
    (slot : Nat) : (count : Nat) → Machine (List (String × UInt32))
  | 0 => return before.toList
  | count + 1 => do
    if ← inUse present slot then
      let entry ← nameEntry bufferStart bufferSize
      slotsOnto present bufferStart bufferSize (before.push entry) (slot + 1) count
    else slotsOnto present bufferStart bufferSize before (slot + 1) count

def infoStream : Machine InfoStream := do
  let version ← uint32
  let signature ← uint32
  let age ← uint32
  let guid ← guid
  let bufferSize ← uint32
  let bufferStart ← skip bufferSize.toNat
  let count ← uint32
  let slotCount ← uint32
  let present ← bitmap
  let deleted ← bitmap
  if !deleted.isEmpty then failAt .deletedNamesNotEmpty (← position)
  let entries ← slotsOnto present bufferStart bufferSize.toNat #[] 0 slotCount.toNat
  let streams := entries.foldl InfoStream.enter ∅
  if streams.size ≠ count.toNat then
    fail (.ofKind (.nameCountMismatch (UInt32.ofNat streams.size) count))
  return { version, signature, age, guid, streams }

/-! ### Names of source files -/

def bucket (bufferStart bufferSize : Nat) : Machine (Option (UInt32 × String)) := do
  let id ← uint32
  if id = 0 then return none
  else
    if bufferSize ≤ id.toNat then fail (.ofKind (.unknownName id))
    let name ← terminatedStringAt (← Checked.add 64 bufferStart id.toNat)
    return some (id, name)

def nameTable : Machine NameTable := do
  let foundSignature ← uint32
  let foundVersion ← int32
  let bufferSize ← uint32
  if foundSignature ≠ NameTable.signature ∨ foundVersion ≠ NameTable.version then
    fail (.ofKind (.invalidNameTable foundSignature foundVersion))
  let bufferStart ← skip bufferSize.toNat
  let count ← uint32
  let buckets ← times count.toNat (bucket bufferStart bufferSize.toNat)
  return ⟨buckets.foldl (fun names bucket =>
    match bucket with
    | some (id, name) => names.insert id name
    | none => names) ∅⟩

theorem inUse_eq (present : Bitmap) (slot : Nat) :
    inUse present slot = some (present.contains slot) := by
  rw [inUse, Bitmap.contains, Checked.require_eq (Nat.mod_lt slot (by decide))]
  cases present.words[slot / 32]? <;> rfl

end Machine

/-- Behind its last word a bitmap has no members, so that a look at every number finds them all. -/
theorem Bitmap.membersBelow_eq (bitmap : Bitmap) (limit : Nat) :
    bitmap.membersBelow limit = (List.range limit).filter bitmap.contains := by
  rcases Nat.le_total limit (32 * bitmap.words.size) with h | h
  · rw [membersBelow, Nat.min_eq_left h]
  · obtain ⟨more, rfl⟩ := Nat.exists_eq_add_of_le h
    have hnone : (List.map (32 * bitmap.words.size + ·) (List.range more)).filter bitmap.contains
        = [] := by
      rw [List.filter_eq_nil_iff]
      intro number member
      obtain ⟨index, -, rfl⟩ := List.mem_map.mp member
      rw [contains, Array.getElem?_eq_none (by omega)]
      exact Bool.false_ne_true
    rw [membersBelow, Nat.min_eq_right h, List.range_add, List.filter_append, hnone,
      List.append_nil]

namespace Follows

theorem bitmap : Follows Machine.bitmap Bitmap.read :=
  uint32.bind fun count => (uint32s (by have := count.toNat_lt; omega)).map _

variable {bufferStart bufferSize : Nat}

theorem nameEntry (short : bufferStart < 2 ^ 32) :
    Follows (Machine.nameEntry bufferStart bufferSize)
      (InfoStream.readEntry bufferStart bufferSize) := by
  refine uint32.bind fun offset => uint32.bind fun stream => ?_
  refine .ite (fun _ => .failAt_bind _ _) fun _ => .lift_bind (Checked.add_eq ?_) ?_
  · have hoffset := offset.toNat_lt
    omega
  · exact (terminatedStringAt _).map _

theorem slotsOnto (present : Bitmap) (short : bufferStart < 2 ^ 32)
    (before : Array (String × UInt32)) (slot count : Nat) :
    Follows (Machine.slotsOnto present bufferStart bufferSize before slot count)
      (Reader.timesOnto (InfoStream.readEntry bufferStart bufferSize) before
        ((List.range' slot count).filter present.contains).length) := by
  induction count generalizing before slot with
  | zero => exact .pure _
  | succ count ih =>
    -- only a slot in use has an entry, and so adds one to the number of entries
    refine .lift_bind (Machine.inUse_eq present slot) ?_
    rw [List.range'_succ, List.filter_cons]
    cases present.contains slot with
    | true => exact (nameEntry short).bind fun entry => ih (before.push entry) (slot + 1)
    | false => exact ih before (slot + 1)

theorem infoStream : Follows Machine.infoStream InfoStream.read := by
  refine uint32.bind fun version => uint32.bind fun signature => uint32.bind fun age => ?_
  refine guid.bind fun guid => uint32.bind fun bufferSize => ?_
  refine Follows.skip_bind fun bufferStart short => ?_
  refine uint32.bind fun count => uint32.bind fun slotCount => ?_
  refine bitmap.bind fun present => bitmap.bind fun deleted => ?_
  refine .ite (fun _ => .position_bind fun _ _ => .failAt_bind _ _) fun _ => ?_
  rw [Bitmap.membersBelow_eq, List.range_eq_range']
  refine (slotsOnto present short #[] 0 slotCount.toNat).bind fun entries => ?_
  exact .ite (fun _ => .fail_bind _) fun _ => Follows.pure _

theorem bucket (short : bufferStart < 2 ^ 32) :
    Follows (Machine.bucket bufferStart bufferSize)
      (NameTable.readBucket bufferStart bufferSize) := by
  refine uint32.bind fun id => .ite (fun _ => Follows.pure none) fun _ => ?_
  refine .ite (fun _ => .fail_bind _) fun _ => .lift_bind (Checked.add_eq ?_) ?_
  · have hid := id.toNat_lt
    omega
  · exact (terminatedStringAt _).map _

theorem nameTable : Follows Machine.nameTable NameTable.read := by
  refine uint32.bind fun signature => int32.bind fun version => uint32.bind fun bufferSize => ?_
  refine .ite (fun _ => .fail_bind _) fun _ => Follows.skip_bind fun bufferStart short => ?_
  exact uint32.bind fun count => ((bucket short).times count.toNat).map _

end Follows

end ManagedPdb
