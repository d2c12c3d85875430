import ManagedPdb.Names.NameTable
import ManagedPdb.Proofs.Loops
import ManagedPdb.Proofs.Names.Slots
import Mathlib.Data.List.ReduceOption

/-!
# Names and their buffers

Both the info stream and the name table have a string buffer, and in both a name is an offset in it.
Only that offset is compared with the size of the buffer.  The end of the name is searched for in
the whole stream, so that the last name of a buffer goes on behind it if the buffer does not end
with a zero byte.  Held to their buffers, both decoders do the same as long as every name has its
zero byte there, and refuse the first name that has not (`FindsNames`, `names_in_buffer`).
-/

namespace ManagedPdb

variable {content : ByteArray} {position next start : Nat}

/-- A name, where it starts and where its zero byte is. -/
structure BufferName where
  start : Nat
  stop : Nat
  name : String

/-- A decoder finds names that start in a buffer.  The other decoder is the same one, held to the
buffer. -/
structure FindsNames {α : Type} (read held : Reader α) (content : ByteArray)
    (bufferStart bufferStop : Nat) (names : List BufferName) : Prop where
  starts : ∀ name ∈ names, bufferStart ≤ name.start ∧ name.start < bufferStop
  /-- A name ends with the first zero byte, in the buffer or behind it. -/
  texts : ∀ name ∈ names, TextAt content name.start name.stop name.name
  /-- A zero byte at the end of the buffer ends all of its names. -/
  terminated : byteAt content (bufferStop - 1) = 0 → ∀ name ∈ names, name.stop < bufferStop
  /-- If all names end in the buffer, the decoder may be held to it. -/
  same : (∀ name ∈ names, name.stop < bufferStop) → held content 0 = read content 0
  /-- Otherwise the first name that does not end in the buffer is refused. -/
  refused : ∀ earlier name later, names = earlier ++ name :: later →
    (∀ name ∈ earlier, name.stop < bufferStop) → bufferStop ≤ name.stop →
      ∃ stopped, held content 0 = .failed (.ofKindAt .unexpectedEnd name.start) stopped

theorem TextAt.stop_lt_of_terminated {stop bufferStop : Nat} {text : String}
    (h : TextAt content start stop text) (hstart : start < bufferStop)
    (hzero : byteAt content (bufferStop - 1) = 0) : stop < bufferStop := by
  have hle := h.stop_le (Nat.le_sub_one_of_lt hstart) hzero
  omega

/-- A name that is held to a buffer in which it does not end. -/
theorem nameAt_held_of_le {stop bufferStop : Nat} {name : String}
    (h : TextAt content start stop name) (hstart : start < bufferStop) (hstop : bufferStop ≤ stop) :
    nameAt true bufferStop start content position
      = .failed (.ofKindAt .unexpectedEnd start) position := by
  rw [nameAt, cond_true]
  exact Reader.within_terminatedStringAt_of_le h (Nat.le_of_lt hstart) hstop

/-! ### The info stream -/

namespace InfoStream

def NamedSlot.bufferName (slot : NamedSlot) : BufferName := ⟨slot.start, slot.stop, slot.name⟩

theorem Tabulates.exists_isAt {slots : List NamedSlot} (tabulates : Tabulates content slots) :
    ∀ slot ∈ slots, ∃ number index, slot.IsAt content number index := by
  intro slot member
  obtain ⟨place, -, hisAt⟩ := exists_of_mem_of_forall₂ tabulates.slots.flip member
  exact ⟨place.1, place.2, hisAt⟩

theorem readEntryBy_held_of_le {slot : NamedSlot} {number index : Nat}
    (hisAt : slot.IsAt content number index) (hstop : bufferStop content ≤ slot.stop) :
    ∃ stopped, readEntryBy true bufferStart (LittleEndian.read content 28 4) content
      (entriesAt content + 8 * index)
        = .failed (.ofKindAt .unexpectedEnd slot.start) stopped := by
  have hinside := hisAt.inside
  have hlt := hisAt.inBuffer
  have hoffset : (UInt32.ofNat (LittleEndian.read content (entriesAt content + 8 * index) 4)).toNat
      = LittleEndian.read content (entriesAt content + 8 * index) 4 :=
    LittleEndian.toNat_ofNat_read ..
  have hname := @nameAt_held_of_le content (entriesAt content + 8 * index + 4 + 4) _ _ _ _
    hisAt.text hlt hstop
  rw [hisAt.start] at hlt
  rw [readEntryBy, Reader.bind_apply, Reader.uint32_of_le (by omega)]
  dsimp only
  rw [Reader.bind_apply, Reader.uint32_of_le (by omega)]
  dsimp only
  rw [hoffset, if_neg (Nat.not_le.mpr (Nat.lt_of_add_lt_add_left hlt)), Reader.bind_apply,
    ← hisAt.start]
  exact ⟨_, by rw [← bufferStop, hname]⟩

/-- Held to the buffer, the first name that does not end there is refused. -/
theorem readBy_held_of_le {earlier later : List NamedSlot} {slot : NamedSlot}
    (tabulates : Tabulates content (earlier ++ slot :: later))
    (hearlier : ∀ slot ∈ earlier, slot.stop < bufferStop content)
    (hstop : bufferStop content ≤ slot.stop) :
    ∃ stopped, readBy true content 0 = .failed (.ofKindAt .unexpectedEnd slot.start) stopped := by
  have hslots : List.Forall₂ (fun index slot => ∃ number, slot.IsAt content number index)
      (List.range' 0 (presentSlots content).length) (earlier ++ slot :: later) := by
    rw [← List.zipIdx_map_snd 0, List.forall₂_map_left_iff]
    exact tabulates.slots.imp fun place _ hisAt => ⟨place.1, hisAt⟩
  have hhead := readHead_eq_done_iff.mpr ⟨tabulates.size, tabulates.noneDeleted, rfl, rfl⟩
  obtain ⟨stopped, hentries⟩ : ∃ stopped, Reader.times (headAt content).entryCount
      (readEntryBy true (headAt content).bufferStart (headAt content).bufferSize) content
      (entriesAt content) = .failed (.ofKindAt .unexpectedEnd slot.start) stopped := by
    refine Reader.exists_times_eq_failed 8 hslots ?_ ?_
    · rintro index other member ⟨number, hisAt⟩
      exact ⟨_, (readEntryBy_eq_done_iff_isAt number index).mpr
        ⟨other, ⟨hisAt, fun _ => hearlier other member⟩, rfl⟩⟩
    · rintro index ⟨number, hisAt⟩
      exact readEntryBy_held_of_le hisAt hstop
  refine ⟨stopped, Reader.bind_eq_failed_iff.mpr (.inr ⟨_, _, hhead, ?_⟩)⟩
  exact Reader.bind_eq_failed_iff.mpr (.inl hentries)

theorem Tabulates.findsNames {slots : List NamedSlot} (tabulates : Tabulates content slots) :
    FindsNames read (readBy true) content bufferStart (bufferStop content)
      (slots.map NamedSlot.bufferName) := by
  have hisAt := tabulates.exists_isAt
  constructor
  case starts =>
    rw [List.forall_mem_map]
    intro slot member
    obtain ⟨number, index, hisAt⟩ := hisAt slot member
    have hstart : bufferStart ≤ slot.start := by
      rw [hisAt.start]
      exact Nat.le_add_right _ _
    exact ⟨hstart, hisAt.inBuffer⟩
  case texts =>
    rw [List.forall_mem_map]
    intro slot member
    obtain ⟨number, index, hisAt⟩ := hisAt slot member
    exact hisAt.text
  case terminated =>
    rw [List.forall_mem_map]
    intro hzero slot member
    obtain ⟨number, index, hisAt⟩ := hisAt slot member
    exact hisAt.text.stop_lt_of_terminated hisAt.inBuffer hzero
  case same =>
    rw [List.forall_mem_map]
    intro hstops
    rw [read_eq_readBy]
    have hheld := @readBy_of_tabulates content true slots tabulates
      fun slot member _ => hstops slot member
    exact hheld.trans (@readBy_of_tabulates content false slots tabulates (by simp)).symm
  case refused =>
    intro earlier name later hnames hearlier hstop
    obtain ⟨before, rest, rfl, rfl, hrest⟩ := List.map_eq_append_iff.mp hnames
    obtain ⟨slot, after, rfl, rfl, rfl⟩ := List.map_eq_cons_iff.mp hrest
    exact readBy_held_of_le tabulates (List.forall_mem_map.mp hearlier) hstop

end InfoStream

/-! ### The name table -/

namespace NameTable

/-- A bucket, as in `readBucket`, with its name held to the buffer or not. -/
def readBucketBy (held : Bool) (bufferStart bufferSize : Nat) :
    Reader (Option (UInt32 × String)) := do
  let id ← Reader.uint32
  if id = 0 then return none
  else
    if bufferSize ≤ id.toNat then Reader.fail (.ofKind (.unknownName id))
    let name ← nameAt held (bufferStart + bufferSize) (bufferStart + id.toNat)
    return some (id, name)

/-- Enters the name of a bucket that is not empty. -/
def enterBucket (names : Std.HashMap UInt32 String) (bucket : Option (UInt32 × String)) :
    Std.HashMap UInt32 String :=
  match bucket with
  | some (id, name) => names.insert id name
  | none => names

/-- Moves to the buckets, whose number is given with the place and the size of the buffer. -/
def readHead : Reader (Nat × Nat × Nat) := do
  let foundSignature ← Reader.uint32
  let foundVersion ← Reader.int32
  let bufferSize ← Reader.uint32
  if foundSignature ≠ signature ∨ foundVersion ≠ version then
    Reader.fail (.ofKind (.invalidNameTable foundSignature foundVersion))
  let bufferStart ← Reader.skip bufferSize.toNat
  let count ← Reader.uint32
  return (bufferStart, bufferSize.toNat, count.toNat)

def readBuckets (held : Bool) (head : Nat × Nat × Nat) : Reader NameTable := do
  let buckets ← Reader.times head.2.2 (readBucketBy held head.1 head.2.1)
  return ⟨buckets.foldl enterBucket ∅⟩

/-- The name table, with its names held to their buffer or not. -/
def readBy (held : Bool) : Reader NameTable := readHead >>= readBuckets held

theorem read_eq_readBy : read = readBy false := by
  unfold read readBy readHead
  simp only [Reader.bind_assoc_eq]
  iterate 3 refine bind_congr fun _ => ?_
  split
  · rfl
  · simp only [Reader.bind_assoc_eq]
    rfl

/-! ### Places in the name table -/

def bufferStart : Nat := 12

def bufferStop (content : ByteArray) : Nat := bufferStart + LittleEndian.read content 8 4

def countAt (content : ByteArray) : Nat := LittleEndian.read content (bufferStop content) 4

def bucketsAt (content : ByteArray) : Nat := bufferStop content + 4

/-- The offset in a bucket. -/
def idAt (content : ByteArray) (index : Nat) : Nat :=
  LittleEndian.read content (bucketsAt content + 4 * index) 4

/-- The bucket at an index is empty, or it has a name that starts in the string buffer. -/
structure BucketAt (content : ByteArray) (index : Nat) (bucket : Option BufferName) : Prop where
  inside : bucketsAt content + 4 * index + 4 ≤ content.size
  empty : bucket = none ↔ idAt content index = 0
  start : ∀ name ∈ bucket, name.start = bufferStart + idAt content index
  inBuffer : ∀ name ∈ bucket, name.start < bufferStop content
  text : ∀ name ∈ bucket, TextAt content name.start name.stop name.name

/-- The name table has the given buckets. -/
structure Lists (content : ByteArray) (buckets : List (Option BufferName)) : Prop where
  signature : UInt32.ofNat (LittleEndian.read content 0 4) = signature
  version : (UInt32.ofNat (LittleEndian.read content 4 4)).toInt32 = version
  size : bucketsAt content ≤ content.size
  buckets : List.Forall₂ (BucketAt content) (List.range' 0 (countAt content)) buckets

theorem readHead_eq_done_iff {head : Nat × Nat × Nat} :
    readHead content 0 = .done head next ↔
      UInt32.ofNat (LittleEndian.read content 0 4) = signature ∧
      (UInt32.ofNat (LittleEndian.read content 4 4)).toInt32 = version ∧
      bucketsAt content ≤ content.size ∧
      head = (bufferStart, LittleEndian.read content 8 4, countAt content) ∧
      next = bucketsAt content := by
  have hbuffer : (UInt32.ofNat (LittleEndian.read content 8 4)).toNat
      = LittleEndian.read content 8 4 := LittleEndian.toNat_ofNat_read ..
  constructor
  · intro h
    obtain ⟨foundSignature, _, hread, h⟩ := Reader.bind_eq_done_iff.mp h
    obtain ⟨-, rfl, rfl⟩ := Reader.uint32_eq_done hread
    obtain ⟨foundVersion, _, hread, h⟩ := Reader.bind_eq_done_iff.mp h
    obtain ⟨word, _, hread, hversion⟩ := Reader.bind_eq_done_iff.mp hread
    obtain ⟨-, rfl, rfl⟩ := Reader.uint32_eq_done hread
    cases hversion
    obtain ⟨bufferSize, _, hread, h⟩ := Reader.bind_eq_done_iff.mp h
    obtain ⟨-, rfl, rfl⟩ := Reader.uint32_eq_done hread
    split at h
    · cases h
    · next hsame =>
      obtain ⟨hsignature, hversion⟩ := not_or.mp hsame
      obtain ⟨bufferStart, _, hread, h⟩ := Reader.bind_eq_done_iff.mp h
      obtain ⟨-, rfl, rfl⟩ := Reader.Stable.skip_eq_done_iff.mp hread
      obtain ⟨count, _, hread, h⟩ := Reader.bind_eq_done_iff.mp h
      obtain ⟨hsize, rfl, rfl⟩ := Reader.uint32_eq_done hread
      simp only [hbuffer] at hsize h
      cases h
      have hcount : (UInt32.ofNat (countAt content)).toNat = countAt content :=
        LittleEndian.toNat_ofNat_read ..
      exact ⟨not_not.mp hsignature, not_not.mp hversion, hsize, by rw [← hcount]; rfl, rfl⟩
  · rintro ⟨hsignature, hversion, hsize, rfl, rfl⟩
    have hplaces : bucketsAt content = 12 + LittleEndian.read content 8 4 + 4 := rfl
    have hcount : (UInt32.ofNat (LittleEndian.read content (bufferStop content) 4)).toNat
        = countAt content := LittleEndian.toNat_ofNat_read ..
    refine Reader.bind_eq_done_iff.mpr ⟨_, _, Reader.uint32_of_le (by omega), ?_⟩
    refine Reader.bind_eq_done_iff.mpr ⟨_, _,
      Reader.bind_eq_done_iff.mpr ⟨_, _, Reader.uint32_of_le (by omega), rfl⟩, ?_⟩
    refine Reader.bind_eq_done_iff.mpr ⟨_, _, Reader.uint32_of_le (by omega), ?_⟩
    rw [if_neg (not_or.mpr ⟨not_not.mpr hsignature, not_not.mpr hversion⟩), hbuffer]
    refine Reader.bind_eq_done_iff.mpr
      ⟨_, _, Reader.Stable.skip_eq_done_iff.mpr ⟨by omega, rfl, rfl⟩, ?_⟩
    refine Reader.bind_eq_done_iff.mpr ⟨_, _, Reader.uint32_of_le (by omega), ?_⟩
    rw [← hcount]
    rfl

/-- The offset of a name in the buffer, and the name. -/
def entryOf (name : BufferName) : UInt32 × String :=
  (UInt32.ofNat (name.start - bufferStart), name.name)

theorem width_readBucketBy {held : Bool} {bufferStart bufferSize : Nat} {position next : Nat}
    {bucket : Option (UInt32 × String)}
    (h : readBucketBy held bufferStart bufferSize content position = .done bucket next) :
    next = position + 4 := by
  obtain ⟨id, _, hread, h⟩ := Reader.bind_eq_done_iff.mp h
  obtain ⟨-, rfl, rfl⟩ := Reader.uint32_eq_done hread
  split at h
  · cases h
    rfl
  · split at h
    · cases h
    · obtain ⟨name, _, hname, h⟩ := Reader.bind_eq_done_iff.mp h
      obtain ⟨rfl, -⟩ := nameAt_eq_done_iff.mp hname
      cases h
      rfl

/-- Buckets are read where the table has them. -/
theorem readBucketBy_eq_done_iff {held : Bool} {value : Option (UInt32 × String)} {index : Nat} :
    readBucketBy held bufferStart (LittleEndian.read content 8 4) content
        (bucketsAt content + 4 * index) = .done value (bucketsAt content + 4 * (index + 1)) ↔
      ∃ bucket, (BucketAt content index bucket ∧
        ∀ name ∈ bucket, held = true → name.stop < bufferStop content) ∧
        value = bucket.map entryOf := by
  have hid : (UInt32.ofNat (LittleEndian.read content (bucketsAt content + 4 * index) 4)).toNat
      = idAt content index := LittleEndian.toNat_ofNat_read ..
  have hzero : UInt32.ofNat (LittleEndian.read content (bucketsAt content + 4 * index) 4) = 0 ↔
      idAt content index = 0 := by
    rw [← UInt32.toNat_inj, hid, UInt32.toNat_zero]
  constructor
  · intro h
    obtain ⟨id, _, hread, h⟩ := Reader.bind_eq_done_iff.mp h
    obtain ⟨hsize, rfl, rfl⟩ := Reader.uint32_eq_done hread
    split at h
    · next hempty =>
      cases h
      exact ⟨none, ⟨⟨hsize, by simp [hzero.mp hempty], nofun, nofun, nofun⟩, nofun⟩, rfl⟩
    · next hused =>
      rw [hid] at h
      split at h
      · cases h
      · next hlt =>
        obtain ⟨name, _, hname, h⟩ := Reader.bind_eq_done_iff.mp h
        obtain ⟨-, stop, hheld, htext⟩ := nameAt_eq_done_iff.mp hname
        cases h
        refine ⟨some ⟨bufferStart + idAt content index, stop, name⟩, ⟨⟨hsize, ?_, ?_, ?_, ?_⟩, ?_⟩,
          ?_⟩
        · simp [mt hzero.mpr hused]
        · simp
        · simpa [bufferStop] using hlt
        · simpa using htext
        · simpa [bufferStop] using hheld
        · rw [Option.map_some, entryOf, Nat.add_sub_cancel_left, idAt]
  · rintro ⟨bucket, ⟨hbucket, hheld⟩, rfl⟩
    have hsize := hbucket.inside
    refine Reader.bind_eq_done_iff.mpr ⟨_, _, Reader.uint32_of_le (by omega), ?_⟩
    cases bucket with
    | none =>
      rw [if_pos (hzero.mpr (hbucket.empty.mp rfl))]
      rfl
    | some name =>
      have hstart := hbucket.start name rfl
      have hlt := hbucket.inBuffer name rfl
      have hused : idAt content index ≠ 0 := fun hempty =>
        absurd (hbucket.empty.mpr hempty) (Option.some_ne_none name)
      rw [hstart, bufferStop] at hlt
      rw [if_neg (mt hzero.mp hused), hid, if_neg (Nat.not_le.mpr (Nat.lt_of_add_lt_add_left hlt))]
      refine Reader.bind_eq_done_iff.mpr ⟨name.name, _, nameAt_eq_done_iff.mpr
        ⟨rfl, name.stop, hheld name rfl, hstart ▸ hbucket.text name rfl⟩, ?_⟩
      rw [Option.map_some, entryOf, hstart, Nat.add_sub_cancel_left, idAt]
      rfl

/-- A row of buckets is read from those of the table. -/
theorem rowOf_readBucketBy_iff {held : Bool} {values : List (Option (UInt32 × String))} :
    Reader.RowOf (readBucketBy held bufferStart (LittleEndian.read content 8 4)) 4 content
        (bucketsAt content) 0 (countAt content) values ↔
      ∃ buckets, List.Forall₂ (BucketAt content) (List.range' 0 (countAt content)) buckets ∧
        (∀ bucket ∈ buckets, ∀ name ∈ bucket, held = true → name.stop < bufferStop content) ∧
        values = buckets.map (Option.map entryOf) := by
  rw [← exists_forall₂_iff, Reader.RowOf]
  exact ⟨List.Forall₂.imp fun _ _ => readBucketBy_eq_done_iff.mp,
    List.Forall₂.imp fun _ _ => readBucketBy_eq_done_iff.mpr⟩

/-! ### Names by their offsets -/

/-- The table of the given buckets. -/
def tableOf (buckets : List (Option BufferName)) : NameTable where
  names := (buckets.map (Option.map entryOf)).foldl enterBucket ∅

theorem getElem?_foldl_enterBucket (values : List (Option (UInt32 × String))) (id : UInt32) :
    (values.foldl enterBucket ∅)[id]?
      = (values.reduceOption.reverse.find? fun entry => entry.1 = id).map Prod.snd := by
  induction values using List.reverseRecOn with
  | nil => simp
  | append_singleton values value ih =>
    rw [List.foldl_concat, List.reduceOption_append]
    cases value with
    | none => simpa [enterBucket] using ih
    | some entry =>
      rw [enterBucket, Std.HashMap.getElem?_insert, ih]
      by_cases hid : entry.1 = id
      · simp [hid]
      · simp [hid]

theorem Lists.exists_bucketAt {buckets : List (Option BufferName)} (lists : Lists content buckets) :
    ∀ name ∈ buckets.reduceOption, ∃ index, BucketAt content index (some name) := by
  intro name member
  obtain ⟨index, -, hbucket⟩ :=
    exists_of_mem_of_forall₂ lists.buckets.flip (List.reduceOption_mem_iff.mp member)
  exact ⟨index, hbucket⟩

/-- Equal offsets have equal names. -/
theorem Lists.eq_of_entryOf {buckets : List (Option BufferName)} (lists : Lists content buckets)
    {name name' : BufferName} (member : name ∈ buckets.reduceOption)
    (member' : name' ∈ buckets.reduceOption) (h : (entryOf name).1 = (entryOf name').1) :
    name.name = name'.name := by
  obtain ⟨index, hbucket⟩ := lists.exists_bucketAt name member
  obtain ⟨index', hbucket'⟩ := lists.exists_bucketAt name' member'
  have hstart := hbucket.start name rfl
  have hstart' := hbucket'.start name' rfl
  have hids : idAt content index = idAt content index' := by
    rw [entryOf, entryOf, hstart, hstart', Nat.add_sub_cancel_left, Nat.add_sub_cancel_left,
      ← UInt32.toNat_inj, idAt, idAt, LittleEndian.toNat_ofNat_read,
      LittleEndian.toNat_ofNat_read] at h
    exact h
  have htext := hbucket.text name rfl
  rw [hstart, hids, ← hstart'] at htext
  exact (htext.unique (hbucket'.text name' rfl)).2

/-- The table gives the names of its buckets by their offsets, and no others. -/
theorem Lists.name?_tableOf_eq_some_iff {buckets : List (Option BufferName)}
    (lists : Lists content buckets) {id : UInt32} {name : String} :
    (tableOf buckets).name? id = some name ↔
      ∃ found ∈ buckets.reduceOption, entryOf found = (id, name) := by
  rw [name?, tableOf, getElem?_foldl_enterBucket, List.reduceOption_map, ← List.map_reverse,
    List.find?_map, Option.map_map, Option.map_eq_some_iff]
  constructor
  · rintro ⟨found, hfind, rfl⟩
    have hid : (entryOf found).1 = id := by simpa using List.find?_some hfind
    exact ⟨found, List.mem_reverse.mp (List.mem_of_find?_eq_some hfind), by rw [← hid]; rfl⟩
  · rintro ⟨found, member, hentry⟩
    cases hfind : buckets.reduceOption.reverse.find?
        ((fun entry => decide (entry.1 = id)) ∘ entryOf) with
    | none =>
      have hnot := List.find?_eq_none.mp hfind found (List.mem_reverse.mpr member)
      simp [hentry] at hnot
    | some other =>
      have hid : (entryOf other).1 = id := by simpa using List.find?_some hfind
      have hother := List.mem_reverse.mp (List.mem_of_find?_eq_some hfind)
      -- another bucket may be found, but its name has the same offset
      refine ⟨other, rfl, ?_⟩
      show other.name = name
      rw [lists.eq_of_entryOf hother member (hid.trans (congrArg Prod.fst hentry).symm)]
      exact congrArg Prod.snd hentry

/-! ### Reading buckets -/

theorem readBy_of_lists {held : Bool} {buckets : List (Option BufferName)}
    (lists : Lists content buckets)
    (hheld : ∀ bucket ∈ buckets, ∀ name ∈ bucket, held = true → name.stop < bufferStop content) :
    readBy held content 0 = .done (tableOf buckets) (bucketsAt content + 4 * countAt content) := by
  have hhead := readHead_eq_done_iff.mpr ⟨lists.signature, lists.version, lists.size, rfl, rfl⟩
  have hrow := rowOf_readBucketBy_iff.mpr ⟨buckets, lists.buckets, hheld, rfl⟩
  refine Reader.bind_eq_done_iff.mpr ⟨_, _, hhead, ?_⟩
  exact Reader.bind_eq_done_iff.mpr
    ⟨_, _, (Reader.times_eq_done_iff width_readBucketBy).mpr ⟨hrow, rfl⟩, rfl⟩

theorem exists_lists_of_readBy {held : Bool} {table : NameTable}
    (h : readBy held content 0 = .done table next) :
    ∃ buckets, Lists content buckets ∧
      (∀ bucket ∈ buckets, ∀ name ∈ bucket, held = true → name.stop < bufferStop content) ∧
      table = tableOf buckets := by
  obtain ⟨head, _, hhead, hbuckets⟩ := Reader.bind_eq_done_iff.mp h
  obtain ⟨hsignature, hversion, hsize, rfl, rfl⟩ := readHead_eq_done_iff.mp hhead
  obtain ⟨values, _, hvalues, -⟩ := Reader.bind_eq_done_iff.mp hbuckets
  obtain ⟨hrow, -⟩ := (Reader.times_eq_done_iff width_readBucketBy).mp hvalues
  obtain ⟨buckets, hlisted, hheld, -⟩ := rowOf_readBucketBy_iff.mp hrow
  have lists : Lists content buckets := ⟨hsignature, hversion, hsize, hlisted⟩
  rw [readBy_of_lists lists hheld] at h
  cases h
  exact ⟨buckets, lists, hheld, rfl⟩

theorem readBucketBy_held_of_le {index : Nat} {name : BufferName}
    (hbucket : BucketAt content index (some name)) (hstop : bufferStop content ≤ name.stop) :
    ∃ stopped, readBucketBy true bufferStart (LittleEndian.read content 8 4) content
      (bucketsAt content + 4 * index)
        = .failed (.ofKindAt .unexpectedEnd name.start) stopped := by
  have hinside := hbucket.inside
  have hstart := hbucket.start name rfl
  have hlt := hbucket.inBuffer name rfl
  have hid : (UInt32.ofNat (LittleEndian.read content (bucketsAt content + 4 * index) 4)).toNat
      = idAt content index := LittleEndian.toNat_ofNat_read ..
  have hused : UInt32.ofNat (LittleEndian.read content (bucketsAt content + 4 * index) 4) ≠ 0 := by
    intro hzero
    rw [← UInt32.toNat_inj, hid, UInt32.toNat_zero] at hzero
    exact absurd (hbucket.empty.mpr hzero) (Option.some_ne_none name)
  have hname := @nameAt_held_of_le content (bucketsAt content + 4 * index + 4) _ _ _ _
    (hbucket.text name rfl) hlt hstop
  rw [hstart, bufferStop] at hlt
  rw [readBucketBy, Reader.bind_apply, Reader.uint32_of_le (by omega)]
  dsimp only
  rw [if_neg hused, hid, if_neg (Nat.not_le.mpr (Nat.lt_of_add_lt_add_left hlt)),
    Reader.bind_apply, ← hstart]
  exact ⟨_, by rw [← bufferStop, hname]⟩

/-- Held to the buffer, the first name that does not end there is refused. -/
theorem readBy_held_of_le {earlier later : List (Option BufferName)} {name : BufferName}
    (lists : Lists content (earlier ++ some name :: later))
    (hearlier : ∀ bucket ∈ earlier, ∀ name ∈ bucket, name.stop < bufferStop content)
    (hstop : bufferStop content ≤ name.stop) :
    ∃ stopped, readBy true content 0 = .failed (.ofKindAt .unexpectedEnd name.start) stopped := by
  have hhead := readHead_eq_done_iff.mpr ⟨lists.signature, lists.version, lists.size, rfl, rfl⟩
  obtain ⟨stopped, hbuckets⟩ : ∃ stopped, Reader.times (countAt content)
      (readBucketBy true bufferStart (LittleEndian.read content 8 4)) content (bucketsAt content)
        = .failed (.ofKindAt .unexpectedEnd name.start) stopped := by
    refine Reader.exists_times_eq_failed 4 lists.buckets ?_ ?_
    · intro index bucket member hbucket
      exact ⟨_, readBucketBy_eq_done_iff.mpr
        ⟨bucket, ⟨hbucket, fun name hname _ => hearlier bucket member name hname⟩, rfl⟩⟩
    · intro index hbucket
      exact readBucketBy_held_of_le hbucket hstop
  refine ⟨stopped, Reader.bind_eq_failed_iff.mpr (.inr ⟨_, _, hhead, ?_⟩)⟩
  exact Reader.bind_eq_failed_iff.mpr (.inl hbuckets)

theorem Lists.findsNames {buckets : List (Option BufferName)} (lists : Lists content buckets) :
    FindsNames read (readBy true) content bufferStart (bufferStop content)
      buckets.reduceOption := by
  have hbucketAt := lists.exists_bucketAt
  constructor
  case starts =>
    intro name member
    obtain ⟨index, hbucket⟩ := hbucketAt name member
    have hstart : bufferStart ≤ name.start := by
      rw [hbucket.start name rfl]
      exact Nat.le_add_right _ _
    exact ⟨hstart, hbucket.inBuffer name rfl⟩
  case texts =>
    intro name member
    obtain ⟨index, hbucket⟩ := hbucketAt name member
    exact hbucket.text name rfl
  case terminated =>
    intro hzero name member
    obtain ⟨index, hbucket⟩ := hbucketAt name member
    exact (hbucket.text name rfl).stop_lt_of_terminated (hbucket.inBuffer name rfl) hzero
  case same =>
    intro hstops
    have hheld : ∀ bucket ∈ buckets, ∀ name ∈ bucket, name.stop < bufferStop content := by
      rintro bucket member name rfl
      exact hstops name (List.reduceOption_mem_iff.mpr member)
    rw [read_eq_readBy]
    have htrue := @readBy_of_lists content true buckets lists
      fun bucket member name hname _ => hheld bucket member name hname
    exact htrue.trans (@readBy_of_lists content false buckets lists (by simp)).symm
  case refused =>
    intro earlier name later hnames hearlier hstop
    obtain ⟨before, rest, rfl, rfl, hrest⟩ := List.filterMap_eq_append_iff.mp hnames
    -- between two names, all buckets are empty
    obtain ⟨empty, bucket, after, rfl, hempty, rfl, rfl⟩ := List.filterMap_eq_cons_iff.mp hrest
    rw [← List.append_assoc] at lists
    refine readBy_held_of_le lists (fun bucket member other hother => ?_) hstop
    cases hother
    rcases List.mem_append.mp member with member | member
    · exact hearlier other (List.reduceOption_mem_iff.mpr member)
    · exact absurd (hempty _ member) (Option.some_ne_none other)

end NameTable

/-! ### Both -/

/-- A name of a stream or of a source file starts in its string buffer and ends with the first zero
byte, which may be behind the buffer.  A decoder that is held to the buffer refuses the first name
that ends behind it, and otherwise does the same; so it accepts less and gives the same. -/
theorem names_in_buffer (content : ByteArray) :
    (∀ info next, InfoStream.read content 0 = .done info next →
      ∃ slots, InfoStream.Tabulates content slots ∧
        FindsNames InfoStream.read (InfoStream.readBy true) content InfoStream.bufferStart
          (InfoStream.bufferStop content) (slots.map InfoStream.NamedSlot.bufferName) ∧
        ∀ name stream, info.stream? name = some stream →
          ∃ slot ∈ slots, slot.key = Upper.ofString name ∧ slot.stream = stream) ∧
    (∀ table next, NameTable.read content 0 = .done table next →
      ∃ buckets, NameTable.Lists content buckets ∧
        FindsNames NameTable.read (NameTable.readBy true) content NameTable.bufferStart
          (NameTable.bufferStop content) buckets.reduceOption ∧
        ∀ id name, table.name? id = some name ↔
          ∃ found ∈ buckets.reduceOption, NameTable.entryOf found = (id, name)) ∧
    (∀ info next, InfoStream.readBy true content 0 = .done info next →
      InfoStream.read content 0 = .done info next ∧
      ∃ slots, InfoStream.Tabulates content slots ∧
        ∀ slot ∈ slots, slot.stop < InfoStream.bufferStop content) ∧
    ∀ table next, NameTable.readBy true content 0 = .done table next →
      NameTable.read content 0 = .done table next ∧
      ∃ buckets, NameTable.Lists content buckets ∧
        ∀ found ∈ buckets.reduceOption, found.stop < NameTable.bufferStop content := by
  refine ⟨fun info next h => ?_, fun table next h => ?_, fun info next h => ?_,
    fun table next h => ?_⟩
  · rw [InfoStream.read_eq_readBy] at h
    obtain ⟨slots, tabulates, -, -, rfl⟩ := InfoStream.exists_slots_of_readBy h
    refine ⟨slots, tabulates, tabulates.findsNames, fun name stream hstream => ?_⟩
    rw [InfoStream.stream?_infoOf] at hstream
    obtain ⟨slot, hfind, hslot⟩ := Option.map_eq_some_iff.mp hstream
    exact ⟨slot, List.mem_reverse.mp (List.mem_of_find?_eq_some hfind),
      by simpa using List.find?_some hfind, hslot⟩
  · rw [NameTable.read_eq_readBy] at h
    obtain ⟨buckets, lists, -, rfl⟩ := NameTable.exists_lists_of_readBy h
    exact ⟨buckets, lists, lists.findsNames, fun _ _ => lists.name?_tableOf_eq_some_iff⟩
  · obtain ⟨slots, tabulates, hheld, -, -⟩ := InfoStream.exists_slots_of_readBy h
    have hstops : ∀ slot ∈ slots, slot.stop < InfoStream.bufferStop content :=
      fun slot member => hheld slot member rfl
    refine ⟨?_, slots, tabulates, hstops⟩
    rw [← tabulates.findsNames.same (List.forall_mem_map.mpr hstops), h]
  · obtain ⟨buckets, lists, hheld, -⟩ := NameTable.exists_lists_of_readBy h
    have hstops : ∀ found ∈ buckets.reduceOption, found.stop < NameTable.bufferStop content :=
      fun found member => hheld _ (List.reduceOption_mem_iff.mp member) found rfl rfl
    refine ⟨?_, buckets, lists, hstops⟩
    rw [← lists.findsNames.same hstops, h]

/-- A stream name and the zero byte behind it, which fill a buffer of two bytes. -/
def closedNames : ByteArray := ⟨#[
  0, 0, 0, 0, 0, 0, 0, 0, 0, 0, 0, 0, 0, 0, 0, 0, 0, 0, 0, 0, 0, 0, 0, 0, 0, 0, 0, 0,
  2, 0, 0, 0, 0x61, 0,
  1, 0, 0, 0, 1, 0, 0, 0, 1, 0, 0, 0, 1, 0, 0, 0, 0, 0, 0, 0, 0, 0, 0, 0, 7, 0, 0, 0]⟩

/-- The name of a source file and the zero byte behind it, at the end of a buffer. -/
def closedTable : ByteArray := ⟨#[
  0xfe, 0xef, 0xfe, 0xef, 1, 0, 0, 0, 6, 0, 0, 0, 0, 0x61, 0x2e, 0x63, 0x73, 0,
  1, 0, 0, 0, 1, 0, 0, 0]⟩

theorem tabulates_closedNames : InfoStream.Tabulates closedNames [⟨0, 32, 33, "a", 7⟩] := by
  refine ⟨by decide +kernel, Bitmap.isEmpty_atOffset_iff.mp (by decide +kernel), ?_⟩
  have hpresent : (InfoStream.presentSlots closedNames).zipIdx = [(0, 0)] := by decide
  rw [hpresent]
  exact .cons ⟨rfl, by decide, by decide, by decide, by decide,
    ⟨by decide, by decide, by decide, by decide, by decide⟩⟩ .nil

theorem lists_closedTable : NameTable.Lists closedTable [some ⟨13, 17, "a.cs"⟩] := by
  refine ⟨by decide, by decide, by decide, ?_⟩
  have hcount : List.range' 0 (NameTable.countAt closedTable) = [0] := by decide
  have hid : NameTable.idAt closedTable 0 = 1 := by decide
  rw [hcount]
  refine .cons ⟨by decide, by simp [hid], ?_, ?_, ?_⟩ .nil
  · rintro name ⟨⟩
    rw [hid]
    rfl
  · rintro name ⟨⟩
    decide
  · rintro name ⟨⟩
    exact ⟨by decide, by decide, by decide, by decide, by decide⟩

/-- Both names end in their buffers, so that being held to the buffers changes nothing. -/
theorem names_in_buffer_closed :
    (∃ info next, InfoStream.readBy true closedNames 0 = .done info next ∧
      InfoStream.read closedNames 0 = .done info next ∧ info.stream? "a" = some 7) ∧
    ∃ table next, NameTable.readBy true closedTable 0 = .done table next ∧
      NameTable.read closedTable 0 = .done table next ∧ table.name? 1 = some "a.cs" := by
  constructor
  · have hkeys : (InfoStream.distinctKeys [⟨0, 32, 33, "a", 7⟩]).length = 1 := by
      simp [InfoStream.distinctKeys]
    have hcount : InfoStream.countAt closedNames = 1 := by decide +kernel
    have hheld := @InfoStream.readBy_of_tabulates _ true _ tabulates_closedNames (by decide +kernel)
    rw [hkeys, hcount, if_pos rfl] at hheld
    obtain ⟨hread, -⟩ := (names_in_buffer closedNames).2.2.1 _ _ hheld
    refine ⟨_, _, hheld, hread, ?_⟩
    rw [InfoStream.stream?_infoOf]
    decide +kernel
  · have hheld := @NameTable.readBy_of_lists _ true _ lists_closedTable (by decide +kernel)
    obtain ⟨hread, -⟩ := (names_in_buffer closedTable).2.2.2 _ _ hheld
    refine ⟨_, _, hheld, hread, lists_closedTable.name?_tableOf_eq_some_iff.mpr
      ⟨⟨13, 17, "a.cs"⟩, by simp, by decide +kernel⟩⟩

/-- A stream name in a buffer of one byte, without a zero byte.  The number of names follows. -/
def openNames : ByteArray := ⟨#[
  0, 0, 0, 0, 0, 0, 0, 0, 0, 0, 0, 0, 0, 0, 0, 0, 0, 0, 0, 0, 0, 0, 0, 0, 0, 0, 0, 0,
  1, 0, 0, 0, 0x61,
  1, 0, 0, 0, 1, 0, 0, 0, 1, 0, 0, 0, 1, 0, 0, 0, 0, 0, 0, 0, 0, 0, 0, 0, 7, 0, 0, 0]⟩

/-- The name of a source file at the end of a buffer, without a zero byte.  The number of buckets
follows. -/
def openTable : ByteArray := ⟨#[
  0xfe, 0xef, 0xfe, 0xef, 1, 0, 0, 0, 5, 0, 0, 0, 0, 0x61, 0x2e, 0x63, 0x73,
  1, 0, 0, 0, 1, 0, 0, 0]⟩

/-- A byte of the number behind the buffer belongs to the name. -/
theorem textAt_open :
    TextAt openNames 32 34 "a\x01" ∧ TextAt openTable 13 18 "a.cs\x01" :=
  ⟨⟨by decide, by decide, by decide, by decide, by decide⟩,
    ⟨by decide, by decide, by decide, by decide, by decide⟩⟩

theorem tabulates_openNames :
    InfoStream.Tabulates openNames [⟨0, 32, 34, "a\x01", 7⟩] := by
  refine ⟨by decide +kernel, Bitmap.isEmpty_atOffset_iff.mp (by decide +kernel), ?_⟩
  have hpresent : (InfoStream.presentSlots openNames).zipIdx = [(0, 0)] := by decide
  rw [hpresent]
  exact .cons ⟨rfl, by decide, by decide, by decide, by decide,
    textAt_open.1⟩ .nil

theorem lists_openTable : NameTable.Lists openTable [some ⟨13, 18, "a.cs\x01"⟩] := by
  refine ⟨by decide, by decide, by decide, ?_⟩
  have hcount : List.range' 0 (NameTable.countAt openTable) = [0] := by decide
  have hid : NameTable.idAt openTable 0 = 1 := by decide
  rw [hcount]
  refine .cons ⟨by decide, by simp [hid], ?_, ?_, ?_⟩ .nil
  · rintro name ⟨⟩
    rw [hid]
    rfl
  · rintro name ⟨⟩
    decide
  · rintro name ⟨⟩
    exact textAt_open.2

/-- Both names go on behind their buffers, and are accepted.  Held to the buffers, they are
refused. -/
theorem names_behind_buffer :
    (InfoStream.bufferStop openNames = 33 ∧ TextAt openNames 32 34 "a\x01" ∧
      (∃ info next, InfoStream.read openNames 0 = .done info next ∧
        info.stream? "a\x01" = some 7) ∧
      ∃ stopped, InfoStream.readBy true openNames 0
        = .failed (.ofKindAt .unexpectedEnd 32) stopped) ∧
    NameTable.bufferStop openTable = 17 ∧ TextAt openTable 13 18 "a.cs\x01" ∧
      (∃ table next, NameTable.read openTable 0 = .done table next ∧
        table.name? 1 = some "a.cs\x01") ∧
      ∃ stopped, NameTable.readBy true openTable 0
        = .failed (.ofKindAt .unexpectedEnd 13) stopped := by
  refine ⟨⟨by decide +kernel, textAt_open.1, ?_, ?_⟩, by decide +kernel, textAt_open.2, ?_, ?_⟩
  · have hkeys : (InfoStream.distinctKeys [⟨0, 32, 34, "a\x01", 7⟩]).length = 1 := by
      simp [InfoStream.distinctKeys]
    have hcount : InfoStream.countAt openNames = 1 := by decide +kernel
    have hread := @InfoStream.readBy_of_tabulates _ false _ tabulates_openNames (by simp)
    rw [hkeys, hcount, if_pos rfl, ← InfoStream.read_eq_readBy] at hread
    refine ⟨_, _, hread, ?_⟩
    rw [InfoStream.stream?_infoOf]
    decide +kernel
  · exact @InfoStream.readBy_held_of_le _ [] _ _ tabulates_openNames nofun (by decide +kernel)
  · have hread := @NameTable.readBy_of_lists _ false _ lists_openTable (by simp)
    rw [← NameTable.read_eq_readBy] at hread
    refine ⟨_, _, hread, lists_openTable.name?_tableOf_eq_some_iff.mpr
      ⟨⟨13, 18, "a.cs\x01"⟩, by simp, by decide +kernel⟩⟩
  · exact @NameTable.readBy_held_of_le _ [] _ _ lists_openTable nofun (by decide +kernel)

end ManagedPdb
