import ManagedPdb.Names.InfoStream
import ManagedPdb.Proofs.Machine.Names
import ManagedPdb.Proofs.Rows
import ManagedPdb.Proofs.Terminated
import Mathlib.Data.Finset.Card
import Mathlib.Data.List.Dedup
import Mathlib.Data.Nat.Bitwise

/-!
# The slots of the info stream

The table of named streams says twice how many names there are: its bitmap marks the slots in use,
and a count stands in front of it.  The count is compared with neither of the two directly, but with
the number of names that are left when all of them have been entered in upper case.  So it counts
slots only if their names are different in upper case (`InfoStream.read_tabulated`); otherwise slots
are lost (`InfoStream.read_lost_slot`).

Everything is said about places that are computed from the stream: the bitmaps (`Bitmap.markedAt`)
and the entries (`InfoStream.NamedSlot.IsAt`).
-/

namespace ManagedPdb

variable {content : ByteArray} {position next start : Nat}

/-- Related items, each of which has a value of its own. -/
theorem exists_forall₂_iff {α β γ : Type} {Related : α → γ → Prop} {Held : γ → Prop} {f : γ → β}
    {items : List α} {values : List β} :
    List.Forall₂ (fun item value => ∃ found, (Related item found ∧ Held found) ∧ value = f found)
        items values ↔
      ∃ all, List.Forall₂ Related items all ∧ (∀ found ∈ all, Held found) ∧ values = all.map f := by
  constructor
  · intro h
    induction h with
    | nil => exact ⟨[], .nil, by simp, rfl⟩
    | cons hfirst _ ih =>
      obtain ⟨found, ⟨hrelated, hheld⟩, rfl⟩ := hfirst
      obtain ⟨all, hall, hrest, rfl⟩ := ih
      exact ⟨found :: all, .cons hrelated hall, List.forall_mem_cons.mpr ⟨hheld, hrest⟩, rfl⟩
  · rintro ⟨all, hall, hheld, rfl⟩
    rw [List.forall₂_map_right_iff]
    induction hall with
    | nil => exact .nil
    | cons hrelated _ ih =>
      obtain ⟨hfirst, hrest⟩ := List.forall_mem_cons.mp hheld
      exact .cons ⟨_, ⟨hrelated, hfirst⟩, rfl⟩ (ih hrest)

/-! ### Bitmaps -/

namespace Bitmap

/-- The number of words of the bitmap at an offset. -/
def wordCountAt (content : ByteArray) (start : Nat) : Nat := LittleEndian.read content start 4

def wordAt (content : ByteArray) (start index : Nat) : Nat :=
  LittleEndian.read content (start + 4 + index * 4) 4

/-- Where the bitmap at an offset ends. -/
def stopAt (content : ByteArray) (start : Nat) : Nat := start + 4 + wordCountAt content start * 4

/-- Whether a number is in the bitmap at an offset. -/
def markedAt (content : ByteArray) (start number : Nat) : Bool :=
  decide (number / 32 < wordCountAt content start)
    && (wordAt content start (number / 32)).testBit (number % 32)

/-- All words of the bitmap at an offset. -/
def atOffset (content : ByteArray) (start : Nat) : Bitmap where
  words := ((List.range (wordCountAt content start)).map fun index =>
    UInt32.ofNat (wordAt content start index)).toArray

theorem le_stopAt : start + 4 ≤ stopAt content start := Nat.le_add_right _ _

theorem read_eq_done_iff {bitmap : Bitmap} :
    Bitmap.read content start = .done bitmap next ↔ stopAt content start ≤ content.size ∧
      bitmap = atOffset content start ∧ next = stopAt content start := by
  have hcount : (UInt32.ofNat (LittleEndian.read content start 4)).toNat
      = wordCountAt content start := LittleEndian.toNat_ofNat_read ..
  constructor
  · intro h
    obtain ⟨count, _, hread, h⟩ := Reader.bind_eq_done_iff.mp h
    obtain ⟨-, rfl, rfl⟩ := Reader.uint32_eq_done hread
    obtain ⟨words, _, hwords, h⟩ := Reader.bind_eq_done_iff.mp h
    rw [hcount] at hwords
    obtain ⟨hle, rfl, rfl⟩ := Reader.uint32s_eq_done_iff.mp hwords
    cases h
    exact ⟨hle, rfl, rfl⟩
  · rintro ⟨hle, rfl, rfl⟩
    have hfront : start + 4 ≤ content.size := Nat.le_trans le_stopAt hle
    refine Reader.bind_eq_done_iff.mpr ⟨_, _, Reader.uint32_of_le hfront, ?_⟩
    rw [hcount]
    exact Reader.bind_eq_done_iff.mpr ⟨_, _, Reader.uint32s_eq_done_iff.mpr ⟨hle, rfl, rfl⟩, rfl⟩

/-- A bit of a word, found by a shift. -/
theorem and_bit_ne_zero_iff {word index : Nat} (hword : word < 2 ^ 32) (hindex : index < 32) :
    (UInt32.ofNat word &&& (1 <<< UInt32.ofNat index) != 0) = word.testBit index := by
  have hbit : ((1 : UInt32) <<< UInt32.ofNat index).toNat = 2 ^ index := by
    rw [UInt32.toNat_shiftLeft, UInt32.toNat_ofNat_of_lt' (by simp only [UInt32.size]; omega),
      Nat.mod_eq_of_lt hindex, UInt32.toNat_one, Nat.shiftLeft_eq, Nat.one_mul]
    exact Nat.mod_eq_of_lt (Nat.pow_lt_pow_right (by decide) hindex)
  have hand : (UInt32.ofNat word &&& (1 <<< UInt32.ofNat index)).toNat
      = (word.testBit index).toNat * 2 ^ index := by
    rw [UInt32.toNat_and, hbit, UInt32.toNat_ofNat_of_lt' hword, Nat.and_two_pow]
  rw [Bool.eq_iff_iff, bne_iff_ne, Ne, ← UInt32.toNat_inj, hand]
  cases word.testBit index <;> simp

theorem contains_atOffset (number : Nat) :
    (atOffset content start).contains number = markedAt content start number := by
  rw [contains, atOffset, markedAt]
  simp only [List.getElem?_toArray, List.getElem?_map]
  rcases Nat.lt_or_ge (number / 32) (wordCountAt content start) with hlt | hge
  · rw [List.getElem?_range hlt, Option.map_some, decide_eq_true hlt, Bool.true_and]
    exact and_bit_ne_zero_iff (LittleEndian.read_lt ..) (Nat.mod_lt _ (by decide))
  · rw [List.getElem?_eq_none (by simpa using hge), Option.map_none,
      decide_eq_false (Nat.not_lt.mpr hge), Bool.false_and]

theorem isEmpty_atOffset_iff :
    (atOffset content start).isEmpty = true ↔ ∀ number, markedAt content start number = false := by
  have hwords : (atOffset content start).isEmpty = true ↔
      ∀ index < wordCountAt content start, wordAt content start index = 0 := by
    simp only [isEmpty, atOffset, List.all_toArray, List.all_map, List.all_eq_true,
      List.mem_range, Function.comp_apply, beq_iff_eq]
    refine forall₂_congr fun index _ => ?_
    rw [← UInt32.toNat_inj, wordAt, LittleEndian.toNat_ofNat_read, UInt32.toNat_zero]
  rw [hwords]
  constructor
  · intro hzero number
    by_cases hlt : number / 32 < wordCountAt content start
    · rw [markedAt, hzero _ hlt, Nat.zero_testBit, Bool.and_false]
    · rw [markedAt, decide_eq_false hlt, Bool.false_and]
  · intro hnone index hlt
    refine Nat.zero_of_testBit_eq_false fun bit => ?_
    rcases Nat.lt_or_ge bit 32 with hbit | hbit
    · have hmarked := hnone (32 * index + bit)
      rw [markedAt, show (32 * index + bit) / 32 = index by omega,
        show (32 * index + bit) % 32 = bit by omega, decide_eq_true hlt, Bool.true_and] at hmarked
      exact hmarked
    · have hword : wordAt content start index < 2 ^ 32 := LittleEndian.read_lt ..
      exact Nat.testBit_lt_two_pow
        (Nat.lt_of_lt_of_le hword (Nat.pow_le_pow_right (by decide) hbit))

end Bitmap

/-! ### Names in a buffer -/

/-- The name at an offset.  Its zero byte may be anywhere, or the name is held to the buffer that
ends at `bufferStop`. -/
def nameAt (held : Bool) (bufferStop target : Nat) : Reader String :=
  bif held then (Reader.terminatedStringAt target).within bufferStop
  else Reader.terminatedStringAt target

theorem nameAt_eq_done_iff {held : Bool} {bufferStop : Nat} {name : String} :
    nameAt held bufferStop start content position = .done name next ↔
      next = position ∧ ∃ stop, (held = true → stop < bufferStop) ∧
        TextAt content start stop name := by
  cases held with
  | false =>
    rw [nameAt, cond_false, Reader.terminatedStringAt_eq_done_iff]
    simp
  | true =>
    rw [nameAt, cond_true, Reader.within_terminatedStringAt_eq_done_iff]
    simp

namespace InfoStream

/-- An entry, as in `readEntry`, with its name held to the buffer or not. -/
def readEntryBy (held : Bool) (bufferStart bufferSize : Nat) : Reader (String × UInt32) := do
  let offset ← Reader.uint32
  let stream ← Reader.uint32
  if bufferSize ≤ offset.toNat then Reader.failAt .unexpectedEnd bufferStart
  let name ← nameAt held (bufferStart + bufferSize) (bufferStart + offset.toNat)
  return (name, stream)

/-- What stands in front of the entries. -/
structure Head where
  version : UInt32
  signature : UInt32
  age : UInt32
  guid : Guid
  bufferStart : Nat
  bufferSize : Nat
  /-- The number of names by the stream's own account. -/
  count : UInt32
  entryCount : Nat

def readHead : Reader Head := do
  let version ← Reader.uint32
  let signature ← Reader.uint32
  let age ← Reader.uint32
  let guid ← Reader.guid
  let bufferSize ← Reader.uint32
  let bufferStart ← Reader.skip bufferSize.toNat
  let count ← Reader.uint32
  let slotCount ← Reader.uint32
  let present ← Bitmap.read
  let deleted ← Bitmap.read
  if !deleted.isEmpty then Reader.failAt .deletedNamesNotEmpty (← Reader.position)
  let entryCount := (present.membersBelow slotCount.toNat).length
  return { version, signature, age, guid, bufferStart, bufferSize := bufferSize.toNat, count,
           entryCount }

def readEntries (held : Bool) (head : Head) : Reader InfoStream := do
  let entries ← Reader.times head.entryCount (readEntryBy held head.bufferStart head.bufferSize)
  let streams := entries.foldl enter ∅
  if streams.size ≠ head.count.toNat then
    Reader.fail (.ofKind (.nameCountMismatch (UInt32.ofNat streams.size) head.count))
  return { version := head.version, signature := head.signature, age := head.age,
           guid := head.guid, streams }

/-- The info stream, with its names held to their buffer or not. -/
def readBy (held : Bool) : Reader InfoStream := readHead >>= readEntries held

theorem read_eq_readBy : read = readBy false := by
  unfold read readBy readHead
  simp only [Reader.bind_assoc_eq]
  iterate 10 refine bind_congr fun _ => ?_
  split <;> rfl

/-! ### Places in the info stream -/

/-- Where the string buffer starts. -/
def bufferStart : Nat := 32

def bufferStop (content : ByteArray) : Nat := bufferStart + LittleEndian.read content 28 4

/-- The number of names by the stream's own account. -/
def countAt (content : ByteArray) : Nat := LittleEndian.read content (bufferStop content) 4

def slotCountAt (content : ByteArray) : Nat := LittleEndian.read content (bufferStop content + 4) 4

def presentAt (content : ByteArray) : Nat := bufferStop content + 8

def deletedAt (content : ByteArray) : Nat := Bitmap.stopAt content (presentAt content)

def entriesAt (content : ByteArray) : Nat := Bitmap.stopAt content (deletedAt content)

/-- The slots that are in use. -/
def presentSlots (content : ByteArray) : List Nat :=
  (List.range (slotCountAt content)).filter (Bitmap.markedAt content (presentAt content))

def headAt (content : ByteArray) : Head where
  version := UInt32.ofNat (LittleEndian.read content 0 4)
  signature := UInt32.ofNat (LittleEndian.read content 4 4)
  age := UInt32.ofNat (LittleEndian.read content 8 4)
  guid := Guid.ofBytes content 12
  bufferStart := bufferStart
  bufferSize := LittleEndian.read content 28 4
  count := UInt32.ofNat (countAt content)
  entryCount := (presentSlots content).length

theorem length_membersBelow :
    ((Bitmap.atOffset content (presentAt content)).membersBelow
      (UInt32.ofNat (slotCountAt content)).toNat).length = (presentSlots content).length := by
  rw [Bitmap.membersBelow_eq, presentSlots, slotCountAt, LittleEndian.toNat_ofNat_read,
    funext Bitmap.contains_atOffset]

theorem readHead_eq_done_iff {head : Head} :
    readHead content 0 = .done head next ↔ entriesAt content ≤ content.size ∧
      (∀ number, Bitmap.markedAt content (deletedAt content) number = false) ∧
      head = headAt content ∧ next = entriesAt content := by
  have hbuffer : (UInt32.ofNat (LittleEndian.read content 28 4)).toNat
      = LittleEndian.read content 28 4 := LittleEndian.toNat_ofNat_read ..
  constructor
  · intro h
    obtain ⟨version, _, hread, h⟩ := Reader.bind_eq_done_iff.mp h
    obtain ⟨-, rfl, rfl⟩ := Reader.uint32_eq_done hread
    obtain ⟨signature, _, hread, h⟩ := Reader.bind_eq_done_iff.mp h
    obtain ⟨-, rfl, rfl⟩ := Reader.uint32_eq_done hread
    obtain ⟨age, _, hread, h⟩ := Reader.bind_eq_done_iff.mp h
    obtain ⟨-, rfl, rfl⟩ := Reader.uint32_eq_done hread
    obtain ⟨guid, _, hread, h⟩ := Reader.bind_eq_done_iff.mp h
    obtain ⟨-, rfl, rfl⟩ := Reader.guid_eq_done_iff.mp hread
    obtain ⟨bufferSize, _, hread, h⟩ := Reader.bind_eq_done_iff.mp h
    obtain ⟨-, rfl, rfl⟩ := Reader.uint32_eq_done hread
    obtain ⟨bufferStart, _, hread, h⟩ := Reader.bind_eq_done_iff.mp h
    obtain ⟨-, rfl, rfl⟩ := Reader.Stable.skip_eq_done_iff.mp hread
    obtain ⟨count, _, hread, h⟩ := Reader.bind_eq_done_iff.mp h
    obtain ⟨-, rfl, rfl⟩ := Reader.uint32_eq_done hread
    obtain ⟨slotCount, _, hread, h⟩ := Reader.bind_eq_done_iff.mp h
    obtain ⟨-, rfl, rfl⟩ := Reader.uint32_eq_done hread
    obtain ⟨present, _, hread, h⟩ := Reader.bind_eq_done_iff.mp h
    obtain ⟨-, rfl, rfl⟩ := Bitmap.read_eq_done_iff.mp hread
    obtain ⟨deleted, _, hread, h⟩ := Reader.bind_eq_done_iff.mp h
    obtain ⟨hsize, rfl, rfl⟩ := Bitmap.read_eq_done_iff.mp hread
    simp only [hbuffer] at hsize h
    split at h
    · cases h
    · next hdeleted =>
      cases h
      rw [Bool.not_eq_true', Bool.not_eq_false] at hdeleted
      refine ⟨hsize, Bitmap.isEmpty_atOffset_iff.mp hdeleted, ?_, rfl⟩
      rw [headAt, ← length_membersBelow]
      rfl
  · rintro ⟨hsize, hnone, rfl, rfl⟩
    have hdeleted : deletedAt content + 4 ≤ entriesAt content := Bitmap.le_stopAt
    have hpresent : 32 + LittleEndian.read content 28 4 + 8 + 4 ≤ deletedAt content :=
      Bitmap.le_stopAt
    have hsizes : deletedAt content ≤ content.size := by omega
    have hnone : ¬ (!(Bitmap.atOffset content (deletedAt content)).isEmpty) = true := by
      rw [Bitmap.isEmpty_atOffset_iff.mpr hnone]
      decide
    have hplaces : 0 + 4 + 4 + 4 + 16 = 28 := rfl
    refine Reader.bind_eq_done_iff.mpr ⟨_, _, Reader.uint32_of_le (by omega), ?_⟩
    refine Reader.bind_eq_done_iff.mpr ⟨_, _, Reader.uint32_of_le (by omega), ?_⟩
    refine Reader.bind_eq_done_iff.mpr ⟨_, _, Reader.uint32_of_le (by omega), ?_⟩
    refine Reader.bind_eq_done_iff.mpr
      ⟨_, _, Reader.guid_eq_done_iff.mpr ⟨by omega, rfl, rfl⟩, ?_⟩
    refine Reader.bind_eq_done_iff.mpr ⟨_, _, Reader.uint32_of_le (by omega), ?_⟩
    rw [hplaces, hbuffer]
    refine Reader.bind_eq_done_iff.mpr
      ⟨_, _, Reader.Stable.skip_eq_done_iff.mpr ⟨by omega, rfl, rfl⟩, ?_⟩
    refine Reader.bind_eq_done_iff.mpr ⟨_, _, Reader.uint32_of_le (by omega), ?_⟩
    refine Reader.bind_eq_done_iff.mpr ⟨_, _, Reader.uint32_of_le (by omega), ?_⟩
    refine Reader.bind_eq_done_iff.mpr ⟨_, _, Bitmap.read_eq_done_iff.mpr ⟨hsizes, rfl, rfl⟩, ?_⟩
    refine Reader.bind_eq_done_iff.mpr ⟨_, _, Bitmap.read_eq_done_iff.mpr ⟨hsize, rfl, rfl⟩, ?_⟩
    split
    · next hdeleted => exact absurd hdeleted hnone
    · rw [headAt, ← length_membersBelow]
      rfl

/-! ### Slots -/

/-- A slot that is in use: its number, where its name starts and has its zero byte, its name, and
the number of the stream. -/
structure NamedSlot where
  number : Nat
  start : Nat
  stop : Nat
  name : String
  stream : UInt32

namespace NamedSlot

/-- Names that differ only in case have one key. -/
def key (slot : NamedSlot) : String := Upper.ofString slot.name

def entry (slot : NamedSlot) : String × UInt32 := (slot.name, slot.stream)

/-- The slot has the entry at an index, and its name starts in the string buffer. -/
structure IsAt (slot : NamedSlot) (content : ByteArray) (number index : Nat) : Prop where
  number : slot.number = number
  inside : entriesAt content + 8 * index + 8 ≤ content.size
  start : slot.start = bufferStart + LittleEndian.read content (entriesAt content + 8 * index) 4
  inBuffer : slot.start < bufferStop content
  stream : slot.stream
    = UInt32.ofNat (LittleEndian.read content (entriesAt content + 8 * index + 4) 4)
  text : TextAt content slot.start slot.stop slot.name

end NamedSlot

/-- The info stream has no deleted names, and the given slots are those in use. -/
structure Tabulates (content : ByteArray) (slots : List NamedSlot) : Prop where
  size : entriesAt content ≤ content.size
  noneDeleted : ∀ number, Bitmap.markedAt content (deletedAt content) number = false
  slots : List.Forall₂ (fun place slot => slot.IsAt content place.1 place.2)
    (presentSlots content).zipIdx slots

theorem readEntryBy_eq_done_iff {held : Bool} {bufferStart bufferSize : Nat}
    {entry : String × UInt32} :
    readEntryBy held bufferStart bufferSize content position = .done entry next ↔
      position + 8 ≤ content.size ∧ LittleEndian.read content position 4 < bufferSize ∧
      entry.2 = UInt32.ofNat (LittleEndian.read content (position + 4) 4) ∧ next = position + 8 ∧
      ∃ stop, (held = true → stop < bufferStart + bufferSize) ∧
        TextAt content (bufferStart + LittleEndian.read content position 4) stop entry.1 := by
  have hoffset : (UInt32.ofNat (LittleEndian.read content position 4)).toNat
      = LittleEndian.read content position 4 := LittleEndian.toNat_ofNat_read ..
  constructor
  · intro h
    obtain ⟨offset, _, hread, h⟩ := Reader.bind_eq_done_iff.mp h
    obtain ⟨-, rfl, rfl⟩ := Reader.uint32_eq_done hread
    obtain ⟨stream, _, hread, h⟩ := Reader.bind_eq_done_iff.mp h
    obtain ⟨hsize, rfl, rfl⟩ := Reader.uint32_eq_done hread
    rw [hoffset] at h
    split at h
    · cases h
    · next hlt =>
      obtain ⟨name, _, hname, h⟩ := Reader.bind_eq_done_iff.mp h
      obtain ⟨rfl, htext⟩ := nameAt_eq_done_iff.mp hname
      cases h
      exact ⟨hsize, Nat.lt_of_not_le hlt, rfl, rfl, htext⟩
  · rintro ⟨hsize, hlt, hstream, rfl, htext⟩
    obtain ⟨name, stream⟩ := entry
    cases hstream
    refine Reader.bind_eq_done_iff.mpr ⟨_, _, Reader.uint32_of_le (by omega), ?_⟩
    refine Reader.bind_eq_done_iff.mpr ⟨_, _, Reader.uint32_of_le (by omega), ?_⟩
    rw [hoffset, if_neg (Nat.not_le.mpr hlt)]
    exact Reader.bind_eq_done_iff.mpr ⟨name, _, nameAt_eq_done_iff.mpr ⟨rfl, htext⟩, rfl⟩

theorem width_readEntryBy {held : Bool} {bufferStart bufferSize : Nat} {position next : Nat}
    {entry : String × UInt32}
    (h : readEntryBy held bufferStart bufferSize content position = .done entry next) :
    next = position + 8 :=
  (readEntryBy_eq_done_iff.mp h).2.2.2.1

/-- Entries are read where slots have them. -/
theorem readEntryBy_eq_done_iff_isAt {held : Bool} {entry : String × UInt32} (number index : Nat) :
    readEntryBy held bufferStart (LittleEndian.read content 28 4) content
        (entriesAt content + 8 * index) = .done entry (entriesAt content + 8 * (index + 1)) ↔
      ∃ slot : NamedSlot, (slot.IsAt content number index ∧
        (held = true → slot.stop < bufferStop content)) ∧ entry = slot.entry := by
  rw [readEntryBy_eq_done_iff]
  constructor
  · rintro ⟨hsize, hlt, hstream, -, stop, hheld, htext⟩
    exact ⟨⟨number, _, stop, entry.1, entry.2⟩,
      ⟨⟨rfl, hsize, rfl, Nat.add_lt_add_left hlt _, hstream, htext⟩, hheld⟩, rfl⟩
  · rintro ⟨slot, ⟨hisAt, hheld⟩, rfl⟩
    have hlt := hisAt.inBuffer
    rw [hisAt.start] at hlt
    exact ⟨hisAt.inside, Nat.lt_of_add_lt_add_left hlt, hisAt.stream, by omega, slot.stop, hheld,
      hisAt.start ▸ hisAt.text⟩

/-- A row of entries is read from the slots in use. -/
theorem rowOf_readEntryBy_iff {held : Bool} {entries : List (String × UInt32)} :
    Reader.RowOf (readEntryBy held bufferStart (LittleEndian.read content 28 4)) 8 content
        (entriesAt content) 0 (presentSlots content).length entries ↔
      ∃ slots, List.Forall₂ (fun place slot => slot.IsAt content place.1 place.2)
          (presentSlots content).zipIdx slots ∧
        (∀ slot ∈ slots, held = true → slot.stop < bufferStop content) ∧
        entries = slots.map NamedSlot.entry := by
  rw [← exists_forall₂_iff, Reader.RowOf, ← List.zipIdx_map_snd 0, List.forall₂_map_left_iff]
  exact ⟨List.Forall₂.imp fun _ _ => (readEntryBy_eq_done_iff_isAt _ _).mp,
    List.Forall₂.imp fun _ _ => (readEntryBy_eq_done_iff_isAt _ _).mpr⟩

/-! ### Names that are entered -/

/-- Names in upper case, each of them once. -/
def distinctKeys (slots : List NamedSlot) : List String := (slots.map NamedSlot.key).dedup

theorem mem_foldl_enter_iff (entries : List (String × UInt32)) (key : String) :
    key ∈ entries.foldl enter ∅ ↔ key ∈ entries.map fun entry => Upper.ofString entry.1 := by
  -- from behind, for the entry that is inserted last stands last
  induction entries using List.reverseRecOn with
  | nil => simp
  | append_singleton entries entry ih =>
    rw [List.foldl_concat, enter, Std.HashMap.mem_insert, ih, List.map_append, List.mem_append,
      beq_iff_eq]
    simp [or_comm, eq_comm]

/-- There is one name for all that are the same in upper case. -/
theorem size_foldl_enter (entries : List (String × UInt32)) :
    (entries.foldl enter ∅).size
      = (entries.map fun entry => Upper.ofString entry.1).dedup.length := by
  rw [← List.card_toFinset]
  induction entries using List.reverseRecOn with
  | nil => simp
  | append_singleton entries entry ih =>
    rw [List.foldl_concat, enter, Std.HashMap.size_insert, ih, List.map_append, List.map_singleton,
      List.toFinset_append, List.toFinset_cons, List.toFinset_nil, Finset.union_insert,
      Finset.union_empty, Finset.card_insert_eq_ite]
    simp only [mem_foldl_enter_iff, List.mem_toFinset]

/-- Of names that are the same in upper case, the last one counts. -/
theorem getElem?_foldl_enter (entries : List (String × UInt32)) (key : String) :
    (entries.foldl enter ∅)[key]?
      = (entries.reverse.find? fun entry => Upper.ofString entry.1 = key).map Prod.snd := by
  induction entries using List.reverseRecOn with
  | nil => simp
  | append_singleton entries entry ih =>
    rw [List.foldl_concat, enter, Std.HashMap.getElem?_insert, ih, List.reverse_concat,
      List.find?_cons]
    by_cases hkey : Upper.ofString entry.1 = key
    · simp [hkey]
    · simp [hkey]

/-- What is read from slots. -/
def infoOf (content : ByteArray) (slots : List NamedSlot) : InfoStream where
  version := (headAt content).version
  signature := (headAt content).signature
  age := (headAt content).age
  guid := (headAt content).guid
  streams := (slots.map NamedSlot.entry).foldl enter ∅

theorem size_streams_infoOf (slots : List NamedSlot) :
    (infoOf content slots).streams.size = (distinctKeys slots).length := by
  rw [infoOf, size_foldl_enter, List.map_map]
  rfl

theorem stream?_infoOf (slots : List NamedSlot) (name : String) :
    (infoOf content slots).stream? name
      = (slots.reverse.find? (·.key = Upper.ofString name)).map NamedSlot.stream := by
  rw [stream?, infoOf, getElem?_foldl_enter, ← List.map_reverse, List.find?_map, Option.map_map]
  rfl

theorem stream?_infoOf_of_forall_ne {slots : List NamedSlot} {name : String}
    (h : ∀ slot ∈ slots, slot.key ≠ Upper.ofString name) :
    (infoOf content slots).stream? name = none := by
  rw [stream?_infoOf, Option.map_eq_none_iff, List.find?_eq_none]
  intro slot member
  simpa using h slot (List.mem_reverse.mp member)

/-- With a name of its own, a slot is found. -/
theorem stream?_infoOf_of_nodup {slots : List NamedSlot}
    (distinct : (slots.map NamedSlot.key).Nodup) {slot : NamedSlot} (member : slot ∈ slots)
    {name : String} (hname : Upper.ofString name = slot.key) :
    (infoOf content slots).stream? name = some slot.stream := by
  rw [stream?_infoOf]
  cases hfind : slots.reverse.find? (·.key = Upper.ofString name) with
  | none =>
    have hnot := List.find?_eq_none.mp hfind slot (List.mem_reverse.mpr member)
    simp [hname] at hnot
  | some found =>
    have hfound := List.mem_reverse.mp (List.mem_of_find?_eq_some hfind)
    have hkey : found.key = Upper.ofString name := by simpa using List.find?_some hfind
    rw [Option.map_some, List.inj_on_of_nodup_map distinct hfound member (hkey.trans hname)]

theorem length_distinctKeys_eq_iff {slots : List NamedSlot} :
    (distinctKeys slots).length = slots.length ↔ (slots.map NamedSlot.key).Nodup := by
  rw [← List.dedup_eq_self, ← @List.length_map _ _ slots NamedSlot.key]
  exact ⟨(List.dedup_sublist _).eq_of_length, congrArg List.length⟩

theorem Tabulates.length_eq {slots : List NamedSlot} (tabulates : Tabulates content slots) :
    (presentSlots content).length = slots.length := by
  rw [← tabulates.slots.length_eq, List.length_zipIdx]

/-! ### Reading slots -/

/-- All that is left to go wrong is the number of names. -/
theorem readBy_of_tabulates {held : Bool} {slots : List NamedSlot}
    (tabulates : Tabulates content slots)
    (hheld : ∀ slot ∈ slots, held = true → slot.stop < bufferStop content) :
    readBy held content 0 =
      if (distinctKeys slots).length = countAt content then
        .done (infoOf content slots) (entriesAt content + 8 * slots.length)
      else .failed (.ofKind (.nameCountMismatch (UInt32.ofNat (distinctKeys slots).length)
        (UInt32.ofNat (countAt content)))) (entriesAt content + 8 * slots.length) := by
  have hhead := readHead_eq_done_iff.mpr ⟨tabulates.size, tabulates.noneDeleted, rfl, rfl⟩
  -- the entries are read whatever the count says, which is looked at last
  have hentries : Reader.times (headAt content).entryCount
      (readEntryBy held (headAt content).bufferStart (headAt content).bufferSize) content
      (entriesAt content) = .done (slots.map NamedSlot.entry)
        (entriesAt content + 8 * slots.length) := by
    have hrow := rowOf_readEntryBy_iff.mpr ⟨slots, tabulates.slots, hheld, rfl⟩
    rw [← tabulates.length_eq]
    exact (Reader.times_eq_done_iff width_readEntryBy).mpr ⟨hrow, rfl⟩
  have hcount : (headAt content).count.toNat = countAt content :=
    LittleEndian.toNat_ofNat_read ..
  rw [readBy, Reader.bind_apply, hhead]
  dsimp only
  rw [readEntries, Reader.bind_apply, hentries]
  dsimp only
  have hstreams : (slots.map NamedSlot.entry).foldl enter ∅ = (infoOf content slots).streams := rfl
  rw [hcount, hstreams, ← @size_streams_infoOf content]
  by_cases hsize : (infoOf content slots).streams.size = countAt content
  · rw [if_neg (not_not.mpr hsize), if_pos hsize]
    rfl
  · rw [if_pos hsize, if_neg hsize]
    rfl

theorem exists_slots_of_readBy {held : Bool} {info : InfoStream}
    (h : readBy held content 0 = .done info next) :
    ∃ slots, Tabulates content slots ∧
      (∀ slot ∈ slots, held = true → slot.stop < bufferStop content) ∧
      countAt content = (distinctKeys slots).length ∧ info = infoOf content slots := by
  obtain ⟨head, _, hhead, hentries⟩ := Reader.bind_eq_done_iff.mp h
  obtain ⟨hsize, hnone, rfl, rfl⟩ := readHead_eq_done_iff.mp hhead
  obtain ⟨entries, _, hentries, -⟩ := Reader.bind_eq_done_iff.mp hentries
  obtain ⟨hrow, -⟩ := (Reader.times_eq_done_iff width_readEntryBy).mp hentries
  obtain ⟨slots, hslots, hheld, -⟩ := rowOf_readEntryBy_iff.mp hrow
  have tabulates : Tabulates content slots := ⟨hsize, hnone, hslots⟩
  rw [readBy_of_tabulates tabulates hheld] at h
  split at h
  · next hcount =>
    cases h
    exact ⟨slots, tabulates, hheld, hcount.symm, rfl⟩
  · cases h

/-- An info stream that is accepted has slots.  They make an info stream that is accepted if the
number of names by its own account is the number of its names that are different in upper case.  If
it is the number of slots instead, the names have to be different from each other in upper case;
only then is every slot found by its name. -/
theorem read_tabulated (content : ByteArray) :
    (∀ info next, read content 0 = .done info next → ∃ slots, Tabulates content slots) ∧
    ∀ slots, Tabulates content slots →
      (∀ info next, read content 0 = .done info next →
        countAt content = (distinctKeys slots).length ∧
        ((presentSlots content).length = countAt content ↔ (slots.map NamedSlot.key).Nodup) ∧
        (∀ name, info.stream? name
          = (slots.reverse.find? (·.key = Upper.ofString name)).map NamedSlot.stream) ∧
        (∀ name, (∀ slot ∈ slots, slot.key ≠ Upper.ofString name) → info.stream? name = none) ∧
        ((slots.map NamedSlot.key).Nodup → ∀ slot ∈ slots, ∀ name,
          Upper.ofString name = slot.key → info.stream? name = some slot.stream)) ∧
      (countAt content = (distinctKeys slots).length → ∃ info next,
        read content 0 = .done info next) ∧
      (countAt content ≠ (distinctKeys slots).length → ∃ stopped, read content 0
        = .failed (.ofKind (.nameCountMismatch (UInt32.ofNat (distinctKeys slots).length)
          (UInt32.ofNat (countAt content)))) stopped) ∧
      ((presentSlots content).length = countAt content →
        ((∃ info next, read content 0 = .done info next) ↔ (slots.map NamedSlot.key).Nodup)) := by
  rw [read_eq_readBy]
  constructor
  · intro info next h
    obtain ⟨slots, tabulates, -⟩ := exists_slots_of_readBy h
    exact ⟨slots, tabulates⟩
  intro slots tabulates
  have hread := @readBy_of_tabulates content false slots tabulates (by simp)
  have haccepted : (∃ info next, readBy false content 0 = .done info next) ↔
      countAt content = (distinctKeys slots).length := by
    rw [hread]
    split
    · next hcount => simp [hcount]
    · next hcount => simpa using Ne.symm hcount
  refine ⟨fun info next h => ?_, haccepted.mpr, fun hcount => ?_, fun hcount => ?_⟩
  · have hcount := haccepted.mp ⟨info, next, h⟩
    rw [hread, if_pos hcount.symm] at h
    cases h
    refine ⟨hcount, ?_, stream?_infoOf slots, fun name => stream?_infoOf_of_forall_ne,
      fun distinct slot member name => stream?_infoOf_of_nodup distinct member⟩
    rw [tabulates.length_eq, hcount, ← length_distinctKeys_eq_iff, eq_comm]
  · rw [hread, if_neg (Ne.symm hcount)]
    exact ⟨_, rfl⟩
  · rw [haccepted, ← hcount, tabulates.length_eq, eq_comm, length_distinctKeys_eq_iff]

/-- Two slots, with the names "a" and another one of a single letter. -/
def twoNames (count letter : UInt8) : ByteArray := ⟨#[
  0, 0, 0, 0, 0, 0, 0, 0, 0, 0, 0, 0, 0, 0, 0, 0, 0, 0, 0, 0, 0, 0, 0, 0, 0, 0, 0, 0,
  4, 0, 0, 0, 0x61, 0, letter, 0,
  count, 0, 0, 0, 2, 0, 0, 0, 1, 0, 0, 0, 3, 0, 0, 0, 0, 0, 0, 0,
  0, 0, 0, 0, 7, 0, 0, 0, 2, 0, 0, 0, 8, 0, 0, 0]⟩

def twoSlots (name : String) : List NamedSlot := [⟨0, 32, 33, "a", 7⟩, ⟨1, 34, 35, name, 8⟩]

theorem tabulates_twoNames {entry : UInt8 × UInt8 × String}
    (member : entry ∈ [(2, 0x62, "b"), (2, 0x41, "A"), (1, 0x41, "A")]) :
    Tabulates (twoNames entry.1 entry.2.1) (twoSlots entry.2.2) := by
  have hpresent : (presentSlots (twoNames entry.1 entry.2.1)).zipIdx = [(0, 0), (1, 1)] := by
    revert entry
    decide +kernel
  refine ⟨?_, ?_, ?_⟩
  · revert entry
    decide +kernel
  · apply Bitmap.isEmpty_atOffset_iff.mp
    revert entry
    decide +kernel
  · rw [hpresent]
    clear hpresent
    simp only [List.mem_cons, List.not_mem_nil, or_false] at member
    rcases member with rfl | rfl | rfl
    all_goals
      refine .cons ?_ (.cons ?_ .nil)
      all_goals
        exact ⟨rfl, by decide +kernel, by decide +kernel, by decide +kernel, by decide +kernel,
          by decide, by decide, by decide +kernel, by decide +kernel, by decide +kernel⟩

/-- Different names are found in any case. -/
theorem read_tabulated_twoNames :
    Tabulates (twoNames 2 0x62) (twoSlots "b") ∧
    ∃ info next, read (twoNames 2 0x62) 0 = .done info next ∧
      info.stream? "A" = some 7 ∧ info.stream? "B" = some 8 := by
  have tabulates : Tabulates (twoNames 2 0x62) (twoSlots "b") :=
    @tabulates_twoNames (2, 0x62, "b") (by simp)
  have hkeys : (twoSlots "b").map NamedSlot.key = ["A", "B"] := by
    decide +kernel
  have hdistinct : ((twoSlots "b").map NamedSlot.key).Nodup := by
    rw [hkeys]
    simp
  obtain ⟨hread, -, -, haccepted⟩ := (read_tabulated _).2 _ tabulates
  obtain ⟨info, next, h⟩ := (haccepted (by decide +kernel)).mpr hdistinct
  obtain ⟨-, -, -, -, hfound⟩ := hread info next h
  refine ⟨tabulates, info, next, h, ?_, ?_⟩
  · exact hfound hdistinct ⟨0, 32, 33, "a", 7⟩ (by simp [twoSlots]) "A" (by decide +kernel)
  · exact hfound hdistinct ⟨1, 34, 35, "b", 8⟩ (by simp [twoSlots]) "B" (by decide +kernel)

/-- Of two slots with the names "a" and "A" the first one is lost.  The info stream is refused if it
counts both of them, and accepted if it counts one. -/
theorem read_lost_slot :
    Tabulates (twoNames 2 0x41) (twoSlots "A") ∧ Tabulates (twoNames 1 0x41) (twoSlots "A") ∧
    ((presentSlots (twoNames 2 0x41)).length = 2 ∧ countAt (twoNames 2 0x41) = 2 ∧
      ∃ stopped, read (twoNames 2 0x41) 0
        = .failed (.ofKind (.nameCountMismatch 1 2)) stopped) ∧
    (presentSlots (twoNames 1 0x41)).length = 2 ∧ countAt (twoNames 1 0x41) = 1 ∧
      (∃ slot ∈ twoSlots "A", slot.name = "a" ∧ slot.stream = 7) ∧
      ∃ info next, read (twoNames 1 0x41) 0 = .done info next ∧ info.stream? "a" = some 8 := by
  have hlength : (distinctKeys (twoSlots "A")).length = 1 := by
    have hkeys : (twoSlots "A").map NamedSlot.key = ["A", "A"] := by decide +kernel
    rw [distinctKeys, hkeys]
    simp
  have htwo : Tabulates (twoNames 2 0x41) (twoSlots "A") :=
    @tabulates_twoNames (2, 0x41, "A") (by simp)
  have hone : Tabulates (twoNames 1 0x41) (twoSlots "A") :=
    @tabulates_twoNames (1, 0x41, "A") (by simp)
  rw [read_eq_readBy]
  refine ⟨htwo, hone, ⟨by decide +kernel, by decide +kernel, ?_⟩, by decide +kernel,
    by decide +kernel, ⟨⟨0, 32, 33, "a", 7⟩, by simp [twoSlots], rfl, rfl⟩, ?_⟩
  · have hcount : countAt (twoNames 2 0x41) = 2 := by decide +kernel
    have hread := @readBy_of_tabulates _ false _ htwo (by simp)
    rw [hlength, hcount, if_neg (by decide)] at hread
    exact ⟨_, hread⟩
  · have hcount : countAt (twoNames 1 0x41) = 1 := by decide +kernel
    have hread := @readBy_of_tabulates _ false _ hone (by simp)
    rw [hlength, hcount, if_pos rfl] at hread
    refine ⟨_, _, hread, ?_⟩
    rw [stream?_infoOf]
    decide +kernel

end InfoStream

end ManagedPdb
