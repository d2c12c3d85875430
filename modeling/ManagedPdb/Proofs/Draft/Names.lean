import ManagedPdb.Draft.Image
import ManagedPdb.Names.InfoStream
import ManagedPdb.Names.NameTable
import ManagedPdb.Proofs.Guid
import ManagedPdb.Proofs.Text

/-!
# Names that were written

A file names streams in its info stream and source files in its name table.  Both are read back as
they were written: the info stream gives the number of every named stream (`reads_identity`), and
the name table gives every name for the offset at which it stands (`reads_nameTable`).  In both, the
names stand one after the other in a buffer, and readers look them up by their offsets.
-/

namespace ManagedPdb

/-! ### Texts in a buffer -/

/-- The next zero byte from the start of a text on is the one that ends it. -/
theorem zeroFrom_of_standsAt {text : String} (htext : ZeroFree text) {content : ByteArray}
    {start : Nat} (h : StandsAt (Bytes.terminated text) content start) :
    Reader.zeroFrom content start = some (start + text.toUTF8.size) := by
  have hread := Reads.terminatedBytes (fun _ => ne_zero_of_getElem_toUTF8 htext) content h
  rw [Reader.terminatedBytes] at hread
  cases hstop : Reader.zeroFrom content start with
  | none =>
    rw [hstop] at hread
    cases hread
  | some stop =>
    rw [hstop, Outcome.done.injEq, ByteArray.size_append, Bytes.size_uint8] at hread
    congr 1
    omega

/-- A text that stands elsewhere is read without a move. -/
theorem terminatedStringAt_of_standsAt {text : String} (htext : ZeroFree text)
    {content : ByteArray} {target : Nat} (h : StandsAt (Bytes.terminated text) content target)
    (position : Nat) :
    Reader.terminatedStringAt target content position = .done text position := by
  have hle := h.le_size
  rw [Reader.terminatedStringAt, Reader.seek_of_le (by omega)]
  simp only [Reads.terminatedString htext content h]

namespace ImageDraft

@[simp] theorem length_textOffsets (start : Nat) (texts : List String) :
    (textOffsets start texts).length = texts.length := by
  induction texts generalizing start with
  | nil => rfl
  | cons text texts ih => rw [textOffsets, List.length_cons, ih, List.length_cons]

/-- A text stands in the buffer at its offset. -/
theorem standsAt_of_mem_textOffsets {α : Type} (text : α → String) {content : ByteArray}
    {base start : Nat} {items : List α}
    (h : StandsAt (Bytes.concat (items.map fun item => Bytes.terminated (text item))) content
      (base + start)) :
    ∀ entry ∈ (textOffsets start (items.map text)).zip items,
      StandsAt (Bytes.terminated (text entry.2)) content (base + entry.1) := by
  induction items generalizing start with
  | nil => intro entry member; cases member
  | cons item items ih =>
    intro entry member
    rw [List.map_cons, Bytes.concat_cons] at h
    rw [List.map_cons, textOffsets, List.zip_cons_cons, List.mem_cons] at member
    rcases member with rfl | member
    · exact h.append_left
    · apply ih ?_ entry member
      rw [← Nat.add_assoc]
      exact h.append_right

theorem le_of_mem_textOffsets {start : Nat} {texts : List String} :
    ∀ offset ∈ textOffsets start texts, start ≤ offset := by
  induction texts generalizing start with
  | nil => intro offset member; cases member
  | cons text texts ih =>
    intro offset member
    rw [textOffsets, List.mem_cons] at member
    rcases member with rfl | member
    · exact Nat.le_refl _
    · have hrest := ih offset member
      omega

/-- The offset of a text is inside the buffer. -/
theorem lt_of_mem_textOffsets {start : Nat} {texts : List String} :
    ∀ offset ∈ textOffsets start texts,
      offset < start + (Bytes.concat (texts.map Bytes.terminated)).size := by
  induction texts generalizing start with
  | nil => intro offset member; cases member
  | cons text texts ih =>
    intro offset member
    rw [List.map_cons, Bytes.concat_cons, ByteArray.size_append]
    have hpos : 0 < (Bytes.terminated text).size := by simp [Bytes.terminated]
    rw [textOffsets, List.mem_cons] at member
    rcases member with rfl | member
    · omega
    · have hrest := ih offset member
      omega

end ImageDraft

/-! ### Bitmaps -/

namespace Bitmap

/-- The numbers below `count`. -/
def full (count : Nat) : Bitmap where
  words := ((List.range ((count + 31) / 32)).map fun word =>
    UInt32.ofNat ((1 <<< min (count - word * 32) 32) - 1)).toArray

/-- Words that are written behind their number. -/
theorem reads {start : Nat} (words : List UInt32) (hwords : words.length < 2 ^ 32) :
    Reads Bitmap.read start (Bytes.uint32s (UInt32.ofNat words.length :: words))
      ⟨words.toArray⟩ := by
  rw [Bytes.uint32s_cons]
  refine .bind (.uint32 _) ?_
  apply Reads.bind_pure fun words : List UInt32 => (⟨words.toArray⟩ : Bitmap)
  rw [UInt32.toNat_ofNat_of_lt' hwords]
  exact .uint32s words

theorem reads_full {start count : Nat} (hcount : count < 2 ^ 32) :
    Reads Bitmap.read start (ImageDraft.fullBitmap count) (full count) := by
  have h := @reads start ((List.range ((count + 31) / 32)).map fun word =>
    UInt32.ofNat ((1 <<< min (count - word * 32) 32) - 1))
    (by rw [List.length_map, List.length_range]; omega)
  rw [List.length_map, List.length_range] at h
  exact h

/-- The low bits of a word are set. -/
theorem and_bit_ne_zero {bits index : Nat} (hbits : bits ≤ 32) (hindex : index < bits) :
    UInt32.ofNat ((1 <<< bits) - 1) &&& (1 <<< UInt32.ofNat index) ≠ 0 := by
  have hall : ∀ bits ∈ List.range 33, ∀ index ∈ List.range bits,
      UInt32.ofNat ((1 <<< bits) - 1) &&& (1 <<< UInt32.ofNat index) ≠ 0 := by decide +kernel
  exact hall bits (List.mem_range.mpr (by omega)) index (List.mem_range.mpr hindex)

theorem contains_full {count number : Nat} (h : number < count) :
    (full count).contains number = true := by
  have hword : number / 32 < (count + 31) / 32 := by omega
  rw [contains, full]
  simp only [List.getElem?_toArray, List.getElem?_map, List.getElem?_range hword,
    Option.map_some, bne_iff_ne]
  apply and_bit_ne_zero <;> omega

theorem membersBelow_full (count : Nat) :
    (full count).membersBelow (max count 1) = List.range count := by
  have hsize : (full count).words.size = (count + 31) / 32 := by simp [full]
  -- every slot of the table is in its words, and the only slot of an empty table is not
  have hlimit : min (max count 1) (32 * ((count + 31) / 32)) = count := by omega
  rw [membersBelow, hsize, hlimit, List.filter_eq_self]
  intro number member
  exact contains_full (List.mem_range.mp member)

end Bitmap

/-! ### The info stream -/

namespace InfoStream

/-- Names that are different in upper case are entered one beside the other. -/
theorem foldl_enter (entries : List (String × UInt32)) :
    entries.foldl enter ∅
      = Std.HashMap.ofList (entries.map fun entry => (Upper.ofString entry.1, entry.2)) := by
  have hfold : ∀ streams : Std.HashMap String UInt32, entries.foldl enter streams
      = streams.insertMany (entries.map fun entry => (Upper.ofString entry.1, entry.2)) := by
    induction entries with
    | nil =>
      intro streams
      simp only [List.map_nil, List.foldl_nil, Std.HashMap.insertMany_nil]
    | cons entry entries ih =>
      intro streams
      rw [List.foldl_cons, ih, List.map_cons, Std.HashMap.insertMany_cons]
      rfl
  exact hfold ∅

end InfoStream

namespace ImageDraft

/-- The parts of an entry in the table of named streams. -/
theorem readsIn_entry {content : ByteArray} {bufferStart bufferSize offset : Nat} {name : String}
    (hname : ZeroFree name) (hoffset : offset < bufferSize) (hsize : bufferSize < 2 ^ 32)
    (hstands : StandsAt (Bytes.terminated name) content (bufferStart + offset)) (stream : UInt32)
    (start : Nat) :
    ReadsIn content (InfoStream.readEntry bufferStart bufferSize) start
      (Bytes.uint32s [UInt32.ofNat offset, stream]) (name, stream) := by
  have hnat : (UInt32.ofNat offset).toNat = offset :=
    UInt32.toNat_ofNat_of_lt' (Nat.lt_trans hoffset hsize)
  rw [Bytes.uint32s_cons, Bytes.uint32s_cons]
  refine .bind (Reads.uint32 _ content) fun _ => ?_
  refine .bind (Reads.uint32 _ content) fun _ => ?_
  intro _
  simp only [hnat, if_neg (Nat.not_le.mpr hoffset), Reader.bind_apply, Reader.pure_apply,
    terminatedStringAt_of_standsAt hname hstands]
  rfl

/-- What is said about the file, and the numbers of the named streams by their names in upper
case. -/
def identity (draft : ImageDraft) (named : List (String × UInt32)) : InfoStream where
  version := 20000404
  signature := draft.signature
  age := draft.age
  guid := draft.guid
  streams := .ofList (named.map fun stream => (Upper.ofString stream.1, stream.2))

theorem pairwise_keys {named : List (String × UInt32)}
    (hdistinct : (named.map fun stream => Upper.ofString stream.1).Nodup) :
    (named.map fun stream => (Upper.ofString stream.1, stream.2)).Pairwise
      fun left right => (left.1 == right.1) = false := by
  rw [List.Nodup, List.pairwise_map] at hdistinct
  rw [List.pairwise_map]
  exact hdistinct.imp beq_false_of_ne

/-- A stream is found by its name in any case. -/
theorem stream?_identity_of_mem (draft : ImageDraft) {named : List (String × UInt32)}
    (hdistinct : (named.map fun stream => Upper.ofString stream.1).Nodup)
    {stream : String × UInt32} (member : stream ∈ named) {name : String}
    (hname : Upper.ofString stream.1 = Upper.ofString name) :
    (draft.identity named).stream? name = some stream.2 := by
  rw [InfoStream.stream?, identity, ← hname]
  apply Std.HashMap.getElem?_ofList_of_mem (beq_self_eq_true _) (pairwise_keys hdistinct)
  exact List.mem_map_of_mem member

/-- No stream is found by a name that none has. -/
theorem stream?_identity_of_not_mem (draft : ImageDraft) {named : List (String × UInt32)}
    {name : String}
    (hname : ∀ stream ∈ named, Upper.ofString stream.1 ≠ Upper.ofString name) :
    (draft.identity named).stream? name = none := by
  rw [InfoStream.stream?, identity]
  apply Std.HashMap.getElem?_ofList_of_contains_eq_false
  rw [List.map_map, Bool.eq_false_iff, Ne, List.contains_iff_mem, List.mem_map]
  rintro ⟨stream, member, heq⟩
  exact hname stream member heq

/-- The entries of the table, of which each has the offset of its name. -/
def namedEntries (named : List (String × UInt32)) : List (Nat × String × UInt32) :=
  (textOffsets 0 (named.map Prod.fst)).zip named

/-- The names of the streams. -/
def namedBuffer (named : List (String × UInt32)) : ByteArray :=
  Bytes.concat (named.map fun stream => Bytes.terminated stream.1)

/-- The info stream as far as it is read, piece by piece. -/
def identityBytes (draft : ImageDraft) (named : List (String × UInt32)) : ByteArray :=
  Bytes.uint32 20000404 ++ (Bytes.uint32 draft.signature ++ (Bytes.uint32 draft.age
    ++ (draft.guid.bytes
    ++ (Bytes.uint32 (UInt32.ofNat (namedBuffer named).size) ++ (namedBuffer named
    ++ (Bytes.uint32 (UInt32.ofNat named.length)
    ++ (Bytes.uint32 (max (UInt32.ofNat named.length) 1)
    ++ (fullBitmap named.length ++ (Bytes.uint32s [0]
    ++ Bytes.concat ((namedEntries named).map fun entry =>
        Bytes.uint32s [UInt32.ofNat entry.1, entry.2.2]))))))))))

theorem infoStream_eq (draft : ImageDraft) (named : List (String × UInt32)) :
    draft.infoStream named = draft.identityBytes named ++ Bytes.uint32 0 := by
  rw [infoStream, identityBytes, List.map_map]
  simp only [List.zip_map_right, List.flatMap_map, Bytes.uint32s_flatMap, Bytes.uint32s_cons,
    Bytes.uint32s_nil, ByteArray.append_empty, ByteArray.append_assoc]
  rfl

theorem readsIn_entries {content : ByteArray} {bufferStart : Nat}
    {named : List (String × UInt32)} (hnames : ∀ stream ∈ named, ZeroFree stream.1)
    (hbuffer : (namedBuffer named).size < 2 ^ 32)
    (hstands : StandsAt (namedBuffer named) content bufferStart) (start : Nat) :
    ReadsIn content
      (Reader.times named.length (InfoStream.readEntry bufferStart (namedBuffer named).size)) start
      (Bytes.concat ((namedEntries named).map fun entry =>
        Bytes.uint32s [UInt32.ofNat entry.1, entry.2.2])) named := by
  have hlength : (namedEntries named).length = named.length := by simp [namedEntries]
  have hnamed : (namedEntries named).map Prod.snd = named := List.map_snd_zip (by simp)
  have htimes : ReadsIn content (Reader.times (namedEntries named).length
      (InfoStream.readEntry bufferStart (namedBuffer named).size)) start
      (Bytes.concat ((namedEntries named).map fun entry =>
        Bytes.uint32s [UInt32.ofNat entry.1, entry.2.2])) ((namedEntries named).map Prod.snd) := by
    apply ReadsIn.times_of_forall
    intro entry member start
    have hplace := @standsAt_of_mem_textOffsets _ Prod.fst _ _ 0 _ hstands entry member
    obtain ⟨hoffset, hstream⟩ := List.of_mem_zip member
    have hlt := lt_of_mem_textOffsets _ hoffset
    rw [Nat.zero_add, List.map_map] at hlt
    exact readsIn_entry (hnames _ hstream) hlt hbuffer hplace _ start
  rwa [hlength, hnamed] at htimes

/-- The info stream is read back. -/
theorem reads_identity (draft : ImageDraft) {named : List (String × UInt32)}
    (hnames : ∀ stream ∈ named, ZeroFree stream.1)
    (hdistinct : (named.map fun stream => Upper.ofString stream.1).Nodup)
    (hcount : named.length < 2 ^ 32) (hbuffer : (namedBuffer named).size < 2 ^ 32) :
    Reads InfoStream.read 0 (draft.identityBytes named) (draft.identity named) := by
  have hsize : (UInt32.ofNat (namedBuffer named).size).toNat = (namedBuffer named).size :=
    UInt32.toNat_ofNat_of_lt' hbuffer
  have hnat : (UInt32.ofNat named.length).toNat = named.length :=
    UInt32.toNat_ofNat_of_lt' hcount
  have hslots : (max (UInt32.ofNat named.length) 1).toNat = max named.length 1 := by
    rw [UInt32.toNat_max, hnat, UInt32.toNat_one]
  have hkeys := pairwise_keys hdistinct
  intro content
  show ReadsIn content _ 0 _ _
  refine .bind (Reads.uint32 _ content) fun _ => ?_
  refine .bind (Reads.uint32 _ content) fun _ => ?_
  refine .bind (Reads.uint32 _ content) fun _ => ?_
  refine .bind (Reads.guid _ content) fun _ => ?_
  refine .bind (Reads.uint32 _ content) fun _ => ?_
  refine .bind (Reads.skip hsize content) fun hstands => ?_
  refine .bind (Reads.uint32 _ content) fun _ => ?_
  refine .bind (Reads.uint32 _ content) fun _ => ?_
  refine .bind (Bitmap.reads_full hcount content) fun _ => ?_
  refine .bind (Bitmap.reads [] (by decide) content) fun _ => ?_
  -- no name is deleted
  rw [if_neg (by simp [Bitmap.isEmpty]), hsize, hslots, hnat, Bitmap.membersBelow_full,
    List.length_range]
  refine .bind_empty (readsIn_entries hnames hbuffer hstands _) ?_
  rw [InfoStream.foldl_enter]
  dsimp only
  rw [Std.HashMap.size_ofList hkeys, List.length_map, if_neg (not_not.mpr rfl)]
  exact Reads.pure _ content

/-! ### The name table -/

/-- The buffer of the name table with the given names. -/
def bufferOf (names : List String) : ByteArray :=
  Bytes.zeros 1 ++ Bytes.concat (names.map Bytes.terminated)

/-- The names with their offsets in the buffer. -/
def nameEntries (names : List String) : List (Nat × String) := (textOffsets 1 names).zip names

/-- The table of the given names. -/
def nameTable (names : List String) : NameTable where
  names := .ofList ((nameEntries names).map fun entry => (UInt32.ofNat entry.1, entry.2))

theorem fst_nameEntries (names : List String) :
    (nameEntries names).map Prod.fst = textOffsets 1 names :=
  List.map_fst_zip (by simp)

theorem length_le_size_concat (texts : List String) :
    texts.length ≤ (Bytes.concat (texts.map Bytes.terminated)).size := by
  induction texts with
  | nil => exact Nat.zero_le _
  | cons text texts ih =>
    rw [List.map_cons, Bytes.concat_cons, ByteArray.size_append, Bytes.terminated,
      ByteArray.size_append, Bytes.size_uint8, List.length_cons]
    omega

theorem nameIds_eq {buffer : ByteArray} {names : List String}
    (hnames : ∀ name ∈ names, ZeroFree name) {start : Nat}
    (hstands : StandsAt (Bytes.concat (names.map Bytes.terminated)) buffer start)
    (hend : buffer.size = start + (Bytes.concat (names.map Bytes.terminated)).size) :
    nameIds buffer start = (textOffsets start names).map UInt32.ofNat := by
  induction names generalizing start with
  | nil =>
    rw [nameIds, dif_neg (by simp [hend])]
    rfl
  | cons name names ih =>
    obtain ⟨hname, hrest⟩ := List.forall_mem_cons.mp hnames
    rw [List.map_cons, Bytes.concat_cons] at hstands hend
    rw [ByteArray.size_append] at hend
    have hsize : (Bytes.terminated name).size = name.toUTF8.size + 1 := by
      rw [Bytes.terminated, ByteArray.size_append, Bytes.size_uint8]
    have hzero := zeroFrom_of_standsAt hname hstands.append_left
    have hnext := ih hrest hstands.append_right (by omega)
    have hstop : max start (start + name.toUTF8.size) + 1
        = start + (Bytes.terminated name).size := by
      omega
    rw [nameIds, dif_pos (by omega), hzero]
    simp only [Option.getD_some]
    rw [hstop, hnext]
    rfl

/-- What is written into a bucket. -/
def bucketBytes (entry : Option (Nat × String)) : ByteArray :=
  Bytes.uint32 (UInt32.ofNat (entry.elim 0 Prod.fst))

/-- What a bucket is read as. -/
def bucketValue (entry : Option (Nat × String)) : Option (UInt32 × String) :=
  entry.map fun (offset, name) => (UInt32.ofNat offset, name)

theorem readsIn_empty_bucket (content : ByteArray) (bufferStart bufferSize start : Nat) :
    ReadsIn content (NameTable.readBucket bufferStart bufferSize) start (bucketBytes none)
      (bucketValue none) := by
  refine .bind_empty (Reads.uint32 0 content) ?_
  rw [if_pos rfl]
  exact Reads.pure _ content

theorem readsIn_bucket {content : ByteArray} {bufferStart bufferSize offset : Nat} {name : String}
    (hname : ZeroFree name) (hpos : 0 < offset) (hoffset : offset < bufferSize)
    (hsize : bufferSize < 2 ^ 32)
    (hstands : StandsAt (Bytes.terminated name) content (bufferStart + offset)) (start : Nat) :
    ReadsIn content (NameTable.readBucket bufferStart bufferSize) start
      (bucketBytes (some (offset, name))) (bucketValue (some (offset, name))) := by
  have hnat : (UInt32.ofNat offset).toNat = offset :=
    UInt32.toNat_ofNat_of_lt' (Nat.lt_trans hoffset hsize)
  have hzero : UInt32.ofNat offset ≠ 0 := by
    intro hzero
    rw [hzero, UInt32.toNat_zero] at hnat
    omega
  refine .bind_empty (Reads.uint32 _ content) ?_
  rw [Option.elim_some, if_neg hzero, hnat, if_neg (Nat.not_le.mpr hoffset)]
  intro _
  simp only [Reader.bind_apply, Reader.pure_apply, terminatedStringAt_of_standsAt hname hstands]
  rfl

/-- The buckets of the table: one that is empty, and one for each name. -/
def buckets (names : List String) : List (Option (Nat × String)) :=
  none :: (nameEntries names).map some

theorem length_buckets (names : List String) : (buckets names).length = names.length + 1 := by
  simp [buckets, nameEntries]

theorem size_bufferOf (names : List String) :
    (bufferOf names).size = 1 + (Bytes.concat (names.map Bytes.terminated)).size := by
  rw [bufferOf, ByteArray.size_append, Bytes.size_zeros]

theorem readsIn_buckets {content : ByteArray} {bufferStart : Nat} {names : List String}
    (hnames : ∀ name ∈ names, ZeroFree name) (hbuffer : (bufferOf names).size < 2 ^ 32)
    (hstands : StandsAt (bufferOf names) content bufferStart) (start : Nat) :
    ReadsIn content (Reader.times (buckets names).length
        (NameTable.readBucket bufferStart (bufferOf names).size)) start
      (Bytes.concat ((buckets names).map bucketBytes)) ((buckets names).map bucketValue) := by
  have hoffsets : StandsAt (Bytes.concat (names.map Bytes.terminated)) content (bufferStart + 1) :=
    hstands.append_right
  have hsize := size_bufferOf names
  apply ReadsIn.times_of_forall
  intro bucket member start
  rcases List.mem_cons.mp member with rfl | member
  · exact readsIn_empty_bucket content bufferStart _ start
  · obtain ⟨entry, hentry, rfl⟩ := List.mem_map.mp member
    obtain ⟨hoffset, hname⟩ := List.of_mem_zip hentry
    have hplace := @standsAt_of_mem_textOffsets _ id _ _ 1 _ hoffsets entry (by rwa [List.map_id])
    have hpos := le_of_mem_textOffsets _ hoffset
    have hlt := lt_of_mem_textOffsets _ hoffset
    exact readsIn_bucket (hnames _ hname) hpos (by omega) hbuffer hplace start

/-- Buckets are entered one beside the other, in whatever way the step is written. -/
theorem foldl_buckets {step : Std.HashMap UInt32 String → Option (UInt32 × String) →
      Std.HashMap UInt32 String} (hnone : ∀ table, step table none = table)
    (hsome : ∀ table id name, step table (some (id, name)) = table.insert id name)
    (names : List String) :
    ((buckets names).map bucketValue).foldl step ∅ = (nameTable names).names := by
  have hfold : ∀ (entries : List (Nat × String)) (table : Std.HashMap UInt32 String),
      ((entries.map some).map bucketValue).foldl step table
        = table.insertMany (entries.map fun entry => (UInt32.ofNat entry.1, entry.2)) := by
    intro entries
    induction entries with
    | nil =>
      intro table
      simp only [List.map_nil, List.foldl_nil, Std.HashMap.insertMany_nil]
    | cons entry entries ih =>
      intro table
      rw [List.map_cons, List.map_cons, List.foldl_cons, ih, List.map_cons,
        Std.HashMap.insertMany_cons, bucketValue, Option.map_some, hsome]
  rw [buckets, List.map_cons, List.foldl_cons, bucketValue, Option.map_none, hnone]
  exact hfold _ ∅

/-- The name table as far as it is read, piece by piece. -/
def nameTableBytes (names : List String) : ByteArray :=
  Bytes.uint32 NameTable.signature ++ (Bytes.uint32 NameTable.version.toUInt32
    ++ (Bytes.uint32 (UInt32.ofNat (bufferOf names).size) ++ (bufferOf names
    ++ (Bytes.uint32 (UInt32.ofNat (buckets names).length)
    ++ Bytes.concat ((buckets names).map bucketBytes)))))

theorem concat_bucketBytes (names : List String) :
    Bytes.concat ((buckets names).map bucketBytes)
      = Bytes.uint32s (0 :: (textOffsets 1 names).map UInt32.ofNat) := by
  rw [← fst_nameEntries, buckets, List.map_cons, Bytes.concat_cons, List.map_map,
    Bytes.uint32s_cons, Bytes.uint32s, List.map_map, List.map_map]
  rfl

theorem nameStream_eq {draft : ImageDraft} {names : List String}
    (hbuffer : draft.nameBuffer = bufferOf names) (hnames : ∀ name ∈ names, ZeroFree name) :
    draft.nameStream
      = nameTableBytes names ++ Bytes.uint32 (UInt32.ofNat (textOffsets 1 names).length) := by
  have hids : nameIds draft.nameBuffer 1 = (textOffsets 1 names).map UInt32.ofNat := by
    rw [hbuffer]
    refine nameIds_eq hnames ?_ (size_bufferOf names)
    exact ⟨Bytes.zeros 1, .empty, by rw [ByteArray.append_empty, bufferOf], Bytes.size_zeros 1⟩
  have hcount : UInt32.ofNat (textOffsets 1 names).length + 1
      = UInt32.ofNat (buckets names).length := by
    rw [length_buckets, length_textOffsets, UInt32.ofNat_add]
    rfl
  rw [nameStream, hids, hbuffer, List.length_map, hcount, nameTableBytes, concat_bucketBytes]
  simp only [Bytes.uint32s_append, Bytes.uint32s_cons, Bytes.uint32s_nil, ByteArray.append_empty,
    ByteArray.append_assoc]
  rfl

/-- The name table is read back. -/
theorem reads_nameTable {names : List String} (hnames : ∀ name ∈ names, ZeroFree name)
    (hbuffer : (bufferOf names).size < 2 ^ 32) :
    Reads NameTable.read 0 (nameTableBytes names) (nameTable names) := by
  have hsize : (UInt32.ofNat (bufferOf names).size).toNat = (bufferOf names).size :=
    UInt32.toNat_ofNat_of_lt' hbuffer
  have hcount : (UInt32.ofNat (buckets names).length).toNat = (buckets names).length := by
    have hlength := length_le_size_concat names
    have hbytes := size_bufferOf names
    apply UInt32.toNat_ofNat_of_lt'
    rw [length_buckets]
    exact Nat.lt_of_le_of_lt (by omega) hbuffer
  intro content
  show ReadsIn content _ 0 _ _
  refine .bind (Reads.uint32 _ content) fun _ => ?_
  refine .bind (Reads.int32 _ content) fun _ => ?_
  refine .bind (Reads.uint32 _ content) fun _ => ?_
  rw [if_neg (by simp)]
  refine .bind (Reads.skip hsize content) fun hstands => ?_
  refine .bind (Reads.uint32 _ content) fun _ => ?_
  rw [hsize, hcount]
  refine .bind_empty (readsIn_buckets hnames hbuffer hstands _) ?_
  rw [foldl_buckets (fun _ => rfl) fun _ _ _ => rfl]
  exact Reads.pure _ content

/-! ### Names by their offsets -/

theorem textOffsets_append (start : Nat) (before after : List String) :
    textOffsets start (before ++ after) = textOffsets start before
      ++ textOffsets (start + (Bytes.concat (before.map Bytes.terminated)).size) after := by
  induction before generalizing start with
  | nil => simp [textOffsets]
  | cons text before ih =>
    rw [List.cons_append, textOffsets, ih, textOffsets, List.map_cons, Bytes.concat_cons,
      ByteArray.size_append, ← Nat.add_assoc, List.cons_append]

theorem pairwise_textOffsets (start : Nat) (texts : List String) :
    (textOffsets start texts).Pairwise (· < ·) := by
  induction texts generalizing start with
  | nil => exact .nil
  | cons text texts ih =>
    refine .cons ?_ (ih _)
    intro offset member
    have hpos : 0 < (Bytes.terminated text).size := by simp [Bytes.terminated]
    have hle := le_of_mem_textOffsets offset member
    omega

/-- The offsets grow, and none is too large for its number. -/
theorem pairwise_ids {names : List String} (hbuffer : (bufferOf names).size < 2 ^ 32) :
    ((nameEntries names).map fun entry => (UInt32.ofNat entry.1, entry.2)).Pairwise
      fun left right => (left.1 == right.1) = false := by
  have hsize := size_bufferOf names
  have hpairwise := pairwise_textOffsets 1 names
  rw [← fst_nameEntries, List.pairwise_map] at hpairwise
  rw [List.pairwise_map]
  apply hpairwise.imp_of_mem
  intro left right hleft hright hlt
  have hleft_lt := lt_of_mem_textOffsets _ (List.of_mem_zip hleft).1
  have hright_lt := lt_of_mem_textOffsets _ (List.of_mem_zip hright).1
  apply beq_false_of_ne
  intro heq
  have hnat := congrArg UInt32.toNat heq
  rw [UInt32.toNat_ofNat_of_lt' (Nat.lt_trans hleft_lt (by rwa [← hsize])),
    UInt32.toNat_ofNat_of_lt' (Nat.lt_trans hright_lt (by rwa [← hsize]))] at hnat
  omega

/-- The names of the table are those that were written, each with the number of its offset. -/
theorem name?_nameTable_eq_some_iff {names : List String}
    (hbuffer : (bufferOf names).size < 2 ^ 32) {id : UInt32} {name : String} :
    (nameTable names).name? id = some name ↔
      ∃ offset, (offset, name) ∈ nameEntries names ∧ id = UInt32.ofNat offset := by
  have hmem : ∀ {offset : Nat} {name : String}, (offset, name) ∈ nameEntries names →
      (nameTable names).name? (UInt32.ofNat offset) = some name := by
    intro offset name member
    apply Std.HashMap.getElem?_ofList_of_mem (beq_self_eq_true _) (pairwise_ids hbuffer)
    exact List.mem_map.mpr ⟨_, member, rfl⟩
  constructor
  · intro hname
    by_cases hid : ∃ entry ∈ nameEntries names, UInt32.ofNat entry.1 = id
    · obtain ⟨⟨offset, name'⟩, member, rfl⟩ := hid
      rw [hmem member] at hname
      cases hname
      exact ⟨offset, member, rfl⟩
    · rw [NameTable.name?, nameTable, Std.HashMap.getElem?_ofList_of_contains_eq_false] at hname
      · cases hname
      · rw [List.map_map, Bool.eq_false_iff, Ne, List.contains_iff_mem, List.mem_map]
        exact hid
  · rintro ⟨offset, member, rfl⟩
    exact hmem member

theorem nameBuffer_addNames (names : List String) :
    (names.foldl addName {}).nameBuffer = bufferOf names := by
  have hfold : ∀ draft : ImageDraft, (names.foldl addName draft).nameBuffer
      = draft.nameBuffer ++ Bytes.concat (names.map Bytes.terminated) := by
    induction names with
    | nil => intro draft; simp
    | cons name names ih =>
      intro draft
      rw [List.foldl_cons, ih, addName, List.map_cons, Bytes.concat_cons, ByteArray.append_assoc]
  exact hfold {}

/-- A name is found by what was the next number when it was added. -/
theorem name?_nextNameId {before after : List String} {name : String}
    (hbuffer : (bufferOf (before ++ name :: after)).size < 2 ^ 32) :
    (nameTable (before ++ name :: after)).name? (before.foldl addName {}).nextNameId
      = some name := by
  rw [name?_nameTable_eq_some_iff hbuffer]
  refine ⟨(bufferOf before).size, ?_, by rw [nextNameId, nameBuffer_addNames]⟩
  rw [nameEntries, textOffsets_append, List.zip_append (by simp), size_bufferOf, textOffsets]
  simp

end ImageDraft

end ManagedPdb
