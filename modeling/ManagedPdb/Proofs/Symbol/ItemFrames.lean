import ManagedPdb.Proofs.Sequential
import ManagedPdb.Proofs.Symbol.Frames

/-!
# Frames of metadata items

An item of custom metadata announces its size.  Items follow each other by these sizes and do not
go beyond their record (`ItemRow`), but what an item holds is not kept inside its size: counts and
terminators decide how far it is read.  `InFrame.readItems` is the decoder that does keep it there.
It gives the same items as long as each of them ends inside its size, and refuses the first one that
does not (`readItems_frames`).  The decoder itself accepts such an item and takes what is missing
from the bytes behind it (`readItems_short_forward`).
-/

namespace ManagedPdb

/-- What an item says of itself: its start, its kind, and where it ends. -/
structure ItemHeader where
  start : Nat
  kind : UInt8
  stop : Nat

/-- The header of an item in a record that ends at `limit`. -/
def ItemHeader.read (limit : Nat) : Reader ItemHeader := do
  let start ← Reader.position
  let version ← Reader.uint8
  if version ≠ metadataVersion then
    Reader.failAt (.unsupportedMetadataVersion version) start
  let kind ← Reader.uint8
  Reader.align 4
  let size ← Reader.uint32
  let stop := start + size.toNat
  if limit < stop ∨ stop < (← Reader.position) then
    Reader.failAt .invalidCustomMetadata start
  return { start, kind, stop }

theorem MetadataItem.read_eq (limit : Nat) :
    MetadataItem.read limit = (do
      let header ← ItemHeader.read limit
      let item ← readPayload header.start header.kind
      Reader.seek header.stop
      return item) := by
  unfold MetadataItem.read ItemHeader.read
  simp only [bind_assoc]
  refine bind_congr fun start => bind_congr fun version => ?_
  by_cases hversion : version ≠ metadataVersion
  · rw [if_pos hversion, if_pos hversion]
    rfl
  rw [if_neg hversion, if_neg hversion]
  simp only [bind_assoc]
  refine bind_congr fun kind => bind_congr fun _ => bind_congr fun size =>
    bind_congr fun inside => ?_
  by_cases hfits : limit < start + size.toNat ∨ start + size.toNat < inside
  · rw [if_pos hfits, if_pos hfits]
    rfl
  · rw [if_neg hfits, if_neg hfits]
    rfl

/-! ### Items inside their sizes -/

namespace InFrame

/-- What an item holds, from the bytes in front of its end.  Without these bytes it does not fit. -/
def readItemPayload (header : ItemHeader) : Reader MetadataItem := fun content position =>
  match (MetadataItem.readPayload header.start header.kind).within header.stop content position with
  | .done item next => .done item next
  | .failed error stopped =>
    if error.kind = .unexpectedEnd then
      .failed (.ofKindAt .invalidCustomMetadata header.start) stopped
    else .failed error stopped

/-- An item, as in `MetadataItem.read`, with all that it holds inside its size. -/
def readItem (limit : Nat) : Reader MetadataItem := do
  let header ← ItemHeader.read limit
  let item ← readItemPayload header
  Reader.seek header.stop
  return item

/-- The items of a record, as in `Metadata.readItems`, each of them inside its size. -/
def readItems (limit : Nat) : Reader (List MetadataItem) := do
  let version ← Reader.uint8
  if version ≠ metadataVersion then return []
  else
    let count ← Reader.uint8
    Reader.align 4
    Reader.times count.toNat (readItem limit)

end InFrame

/-- Rows of readers that end alike. -/
theorem ReaderSim.times {α : Type} {Excused : DecodeError → Prop} {left right : Reader α}
    (h : ReaderSim Excused Eq left right) (count : Nat) :
    ReaderSim Excused Eq (Reader.times count left) (Reader.times count right) := by
  have honto : ∀ before : Array α, ReaderSim Excused Eq (Reader.timesOnto left before count)
      (Reader.timesOnto right before count) := by
    induction count with
    | zero => exact fun before => .refl _
    | succ count ih =>
      refine fun before => ReaderSim.bind h ?_
      rintro value _ rfl
      exact ih (before.push value)
  exact honto #[]

/-! ### Where an item is read to its end -/

namespace Reader.Sequential

theorem range (itemStart : Nat) : Sequential (MetadataItem.readRange itemStart) :=
  Sequential.uint32.bind fun _ => Sequential.uint32.bind fun _ =>
    .ite (.bind (.failAt ..) fun _ => .pure _) (.pure _)

theorem itemPayload (itemStart : Nat) (kind : UInt8) :
    Sequential (MetadataItem.readPayload itemStart kind) := by
  unfold MetadataItem.readPayload
  refine .ite (Sequential.uint16.bind fun _ =>
    (Sequential.times _ .uint16).bind fun _ => .pure _) ?_
  refine .ite (Sequential.uint32.bind fun _ => .pure _) ?_
  refine .ite (Sequential.uint32.bind fun _ => .pure _) ?_
  refine .ite (Sequential.uint32.bind fun _ =>
    (Sequential.times _ (range _)).bind fun _ => .pure _) ?_
  exact .ite (Sequential.utf16String.bind fun _ => .pure _) (.pure _)

end Reader.Sequential

namespace InFrame

variable {header : ItemHeader} {content : ByteArray} {position next : Nat} {item : MetadataItem}

/-- An item that ends inside its size is read as it is. -/
theorem readItemPayload_of_le (hnext : next ≤ header.stop)
    (h : MetadataItem.readPayload header.start header.kind content position = .done item next) :
    readItemPayload header content position = .done item next := by
  have hwithin := (Reader.Sequential.itemPayload header.start header.kind).whole h hnext
  rw [readItemPayload, Reader.within, hwithin]

/-- An item that is read beyond its size does not fit. -/
theorem readItemPayload_of_lt (hposition : position ≤ header.stop) (hnext : header.stop < next)
    (h : MetadataItem.readPayload header.start header.kind content position = .done item next) :
    ∃ stopped, readItemPayload header content position
      = .failed (.ofKindAt .invalidCustomMetadata header.start) stopped := by
  obtain ⟨error, stopped, hwithin, hkind⟩ :=
    (Reader.Sequential.itemPayload header.start header.kind).short h hposition hnext
  refine ⟨stopped, ?_⟩
  rw [readItemPayload, Reader.within, hwithin]
  exact if_pos hkind

/-- What is accepted inside the size is accepted. -/
theorem readPayload_of_readItemPayload
    (h : readItemPayload header content position = .done item next) :
    MetadataItem.readPayload header.start header.kind content position = .done item next := by
  have hsim := (Reader.Stable.itemPayload header.start header.kind).within_sim header.stop
  rw [readItemPayload] at h
  cases hwithin : (MetadataItem.readPayload header.start header.kind).within header.stop content
      position with
  | done item' next' =>
    rw [hwithin] at h
    cases h
    obtain ⟨_, hdone, rfl⟩ := hsim.exists_done hwithin
    exact hdone
  | failed error stopped =>
    rw [hwithin] at h
    dsimp only at h
    split at h <;> cases h

end InFrame

/-! ### Items in a row -/

/-- An item and where it stands: behind its header, at `payload`, it is read up to `inside`. -/
structure ItemFrame extends ItemHeader where
  payload : Nat
  inside : Nat
  item : MetadataItem

namespace ItemFrame

/-- The item stands in the content, in a record that ends at `limit`. -/
structure IsAt (limit : Nat) (content : ByteArray) (frame : ItemFrame) : Prop where
  header : ItemHeader.read limit content frame.start = .done frame.toItemHeader frame.payload
  version : byteAt content frame.start = metadataVersion
  kind : byteAt content (frame.start + 1) = frame.kind
  size : frame.stop = frame.start + LittleEndian.read content (frame.payload - 4) 4
  payload_le_stop : frame.payload ≤ frame.stop
  stop_le_limit : frame.stop ≤ limit
  stop_le_size : frame.stop ≤ content.size
  read : MetadataItem.readPayload frame.start frame.kind content frame.payload
    = .done frame.item frame.inside

/-- The item ends inside its size. -/
def Fits (frame : ItemFrame) : Prop := frame.inside ≤ frame.stop

end ItemFrame

/-- Items that follow each other by their sizes. -/
inductive ItemRow (limit : Nat) (content : ByteArray) :
    (start : Nat) → List ItemFrame → (stop : Nat) → Prop
  | nil {start : Nat} : ItemRow limit content start [] start
  | cons {frame : ItemFrame} {rest : List ItemFrame} {stop : Nat} :
      frame.IsAt limit content → ItemRow limit content frame.stop rest stop →
        ItemRow limit content frame.start (frame :: rest) stop

/-- The items of the record whose body starts at `start`.  A record of another version has none. -/
inductive RecordItems (limit : Nat) (content : ByteArray) (start : Nat) :
    List ItemFrame → (stop : Nat) → Prop
  | other : byteAt content start ≠ metadataVersion → RecordItems limit content start [] (start + 1)
  | items {first stop : Nat} {frames : List ItemFrame} :
      byteAt content start = metadataVersion →
        frames.length = (byteAt content (start + 1)).toNat →
          Reader.align 4 content (start + 2) = .done () first →
            ItemRow limit content first frames stop → RecordItems limit content start frames stop

variable {limit position next : Nat} {content : ByteArray}

theorem Reader.uint8_eq_byteAt {value : UInt8}
    (h : Reader.uint8 content position = .done value next) :
    value = byteAt content position ∧ next = position + 1 := by
  obtain ⟨number, _, hword, h⟩ := Reader.bind_eq_done_iff.mp h
  obtain ⟨-, rfl, rfl⟩ := Reader.word_eq_done_iff.mp hword
  cases h
  simp [LittleEndian.read]

theorem ItemHeader.read_eq_done {header : ItemHeader}
    (h : ItemHeader.read limit content position = .done header next) :
    header.start = position ∧ byteAt content position = metadataVersion ∧
      byteAt content (position + 1) = header.kind ∧
      header.stop = position + LittleEndian.read content (next - 4) 4 ∧ next ≤ header.stop ∧
      header.stop ≤ limit := by
  unfold ItemHeader.read at h
  obtain ⟨_, _, hstart, h⟩ := Reader.bind_eq_done_iff.mp h
  cases hstart
  obtain ⟨version, _, hversion, h⟩ := Reader.bind_eq_done_iff.mp h
  obtain ⟨rfl, rfl⟩ := Reader.uint8_eq_byteAt hversion
  by_cases hother : byteAt content position ≠ metadataVersion
  · rw [if_pos hother] at h
    cases h
  rw [if_neg hother] at h
  obtain ⟨kind, _, hkind, h⟩ := Reader.bind_eq_done_iff.mp h
  obtain ⟨rfl, rfl⟩ := Reader.uint8_eq_byteAt hkind
  obtain ⟨_, sizeAt, -, h⟩ := Reader.bind_eq_done_iff.mp h
  obtain ⟨size, _, hsize, h⟩ := Reader.bind_eq_done_iff.mp h
  obtain ⟨-, rfl, rfl⟩ := Reader.uint32_eq_done hsize
  obtain ⟨_, _, hinside, h⟩ := Reader.bind_eq_done_iff.mp h
  cases hinside
  rw [LittleEndian.toNat_ofNat_read] at h
  by_cases hfits : limit < position + LittleEndian.read content sizeAt 4 ∨
      position + LittleEndian.read content sizeAt 4 < sizeAt + 4
  · rw [if_pos hfits] at h
    cases h
  rw [if_neg hfits] at h
  cases h
  rw [not_or, Nat.not_lt, Nat.not_lt] at hfits
  exact ⟨rfl, Decidable.not_not.mp hother, rfl, rfl, hfits.2, hfits.1⟩

/-- An item that is read stands there, and ends by its size. -/
theorem MetadataItem.exists_frame {item : MetadataItem}
    (h : MetadataItem.read limit content position = .done item next) :
    ∃ frame : ItemFrame, frame.IsAt limit content ∧ frame.start = position ∧ frame.stop = next ∧
      frame.item = item := by
  rw [MetadataItem.read_eq] at h
  obtain ⟨header, payload, hheader, h⟩ := Reader.bind_eq_done_iff.mp h
  obtain ⟨item, inside, hpayload, h⟩ := Reader.bind_eq_done_iff.mp h
  obtain ⟨_, _, hseek, h⟩ := Reader.bind_eq_done_iff.mp h
  obtain ⟨hsize, rfl⟩ := Reader.seek_eq_done_iff.mp hseek
  cases h
  obtain ⟨rfl, hversion, hkind, hstop, hle, hlimit⟩ := ItemHeader.read_eq_done hheader
  exact ⟨⟨header, payload, inside, item⟩,
    ⟨hheader, hversion, hkind, hstop, hle, hlimit, hsize, hpayload⟩, rfl, rfl, rfl⟩

namespace ItemFrame.IsAt

variable {frame : ItemFrame}

/-- An item of a kind that is not known changes nothing. -/
theorem apply_eq (isAt : frame.IsAt limit content) (unknown : 5 ≤ frame.kind) (method : Method) :
    frame.item.apply method = method := by
  have hread := isAt.read
  have hkind : ∀ kind < 5, frame.kind ≠ kind := by
    rintro kind hlt rfl
    exact absurd hlt (UInt8.not_lt.mpr unknown)
  rw [MetadataItem.readPayload, if_neg (hkind 0 (by decide)), if_neg (hkind 1 (by decide)),
    if_neg (hkind 2 (by decide)), if_neg (hkind 3 (by decide)),
    if_neg (hkind 4 (by decide))] at hread
  have hitem : frame.item = .unknown frame.kind := (Outcome.done.inj hread).1.symm
  rw [hitem]
  rfl

/-- Held to its size, an item that fits is read as it is. -/
theorem readItem_of_fits (isAt : frame.IsAt limit content) (fits : frame.Fits) :
    InFrame.readItem limit content frame.start = .done frame.item frame.stop := by
  rw [InFrame.readItem, Reader.bind_apply, isAt.header]
  dsimp only
  rw [Reader.bind_apply, InFrame.readItemPayload_of_le fits isAt.read]
  dsimp only
  rw [Reader.bind_apply, Reader.seek_of_le isAt.stop_le_size]
  rfl

/-- Held to its size, an item that does not fit is refused. -/
theorem readItem_of_not_fits (isAt : frame.IsAt limit content) (overruns : ¬ frame.Fits) :
    ∃ stopped, InFrame.readItem limit content frame.start
      = .failed (.ofKindAt .invalidCustomMetadata frame.start) stopped := by
  obtain ⟨stopped, hfailed⟩ := InFrame.readItemPayload_of_lt isAt.payload_le_stop
    (Nat.not_le.mp overruns) isAt.read
  refine ⟨stopped, ?_⟩
  rw [InFrame.readItem, Reader.bind_apply, isAt.header]
  dsimp only
  rw [Reader.bind_apply, hfailed]

end ItemFrame.IsAt

/-! ### Rows of items -/

/-- Items that are read stand in a row. -/
theorem ItemRow.of_timesOnto {count : Nat} {before : Array MetadataItem}
    {items : List MetadataItem}
    (h : Reader.timesOnto (MetadataItem.read limit) before count content position
      = .done items next) :
    ∃ frames, ItemRow limit content position frames next ∧ frames.length = count ∧
      items = before.toList ++ frames.map ItemFrame.item := by
  induction count generalizing before position with
  | zero =>
    cases h
    exact ⟨[], .nil, rfl, by simp⟩
  | succ count ih =>
    rw [Reader.timesOnto] at h
    cases hfirst : MetadataItem.read limit content position with
    | failed error stopped =>
      rw [hfirst] at h
      cases h
    | done item middle =>
      rw [hfirst] at h
      obtain ⟨frame, isAt, rfl, rfl, rfl⟩ := MetadataItem.exists_frame hfirst
      obtain ⟨frames, row, hlength, hitems⟩ := ih h
      refine ⟨frame :: frames, .cons isAt row, by rw [List.length_cons, hlength], ?_⟩
      simp [hitems]

namespace ItemRow

variable {start stop : Nat} {frames : List ItemFrame}

theorem isAt (row : ItemRow limit content start frames stop) :
    ∀ frame ∈ frames, frame.IsAt limit content := by
  induction row with
  | nil => simp
  | cons hframe _ ih => exact List.forall_mem_cons.mpr ⟨hframe, ih⟩

/-- Held to their sizes, items that fit are read as they are. -/
theorem timesOnto_of_fits (row : ItemRow limit content start frames stop)
    (fits : ∀ frame ∈ frames, frame.Fits) (before : Array MetadataItem) :
    Reader.timesOnto (InFrame.readItem limit) before frames.length content start
      = .done (before.toList ++ frames.map ItemFrame.item) stop := by
  induction row generalizing before with
  | nil => simp [Reader.timesOnto]
  | cons isAt _ ih =>
    obtain ⟨hfirst, hrest⟩ := List.forall_mem_cons.mp fits
    rw [List.length_cons, Reader.timesOnto, isAt.readItem_of_fits hfirst]
    dsimp only
    rw [ih hrest]
    simp

/-- Held to their sizes, items are refused at the first one that does not fit. -/
theorem timesOnto_of_not_fits {earlier later : List ItemFrame} {frame : ItemFrame}
    (row : ItemRow limit content start (earlier ++ frame :: later) stop)
    (fits : ∀ frame ∈ earlier, frame.Fits) (overruns : ¬ frame.Fits)
    (before : Array MetadataItem) :
    ∃ stopped, Reader.timesOnto (InFrame.readItem limit) before
      (earlier ++ frame :: later).length content start
        = .failed (.ofKindAt .invalidCustomMetadata frame.start) stopped := by
  induction earlier generalizing start before with
  | nil =>
    cases row with
    | cons isAt _ =>
      obtain ⟨stopped, hfailed⟩ := isAt.readItem_of_not_fits overruns
      refine ⟨stopped, ?_⟩
      rw [List.nil_append, List.length_cons, Reader.timesOnto, hfailed]
  | cons first earlier ih =>
    obtain ⟨hfirst, hrest⟩ := List.forall_mem_cons.mp fits
    cases row with
    | cons isAt row =>
      obtain ⟨stopped, hfailed⟩ := ih row hrest (before.push first.item)
      refine ⟨stopped, ?_⟩
      rw [List.cons_append, List.length_cons, Reader.timesOnto, isAt.readItem_of_fits hfirst]
      exact hfailed

end ItemRow

/-! ### Records -/

/-- The items of a record that is read stand in it. -/
theorem RecordItems.of_readItems {items : List MetadataItem}
    (h : Metadata.readItems limit content position = .done items next) :
    ∃ frames, RecordItems limit content position frames next ∧
      items = frames.map ItemFrame.item := by
  obtain ⟨version, _, hversion, h⟩ := Reader.bind_eq_done_iff.mp h
  obtain ⟨rfl, rfl⟩ := Reader.uint8_eq_byteAt hversion
  by_cases hother : byteAt content position ≠ metadataVersion
  · rw [if_pos hother] at h
    cases h
    exact ⟨[], .other hother, rfl⟩
  rw [if_neg hother] at h
  obtain ⟨count, _, hcount, h⟩ := Reader.bind_eq_done_iff.mp h
  obtain ⟨rfl, rfl⟩ := Reader.uint8_eq_byteAt hcount
  obtain ⟨_, first, halign, h⟩ := Reader.bind_eq_done_iff.mp h
  obtain ⟨frames, row, hlength, hitems⟩ := ItemRow.of_timesOnto h
  exact ⟨frames, .items (Decidable.not_not.mp hother) hlength halign row, hitems⟩

theorem RecordItems.isAt {frames : List ItemFrame}
    (record : RecordItems limit content position frames next) :
    ∀ frame ∈ frames, frame.IsAt limit content := by
  cases record with
  | other => simp
  | items _ _ _ row => exact row.isAt

/-- All items fit, or there is a first one that does not. -/
theorem ItemFrame.fits_or_exists_first (frames : List ItemFrame) :
    (∀ frame ∈ frames, frame.Fits) ∨ ∃ earlier frame later, frames = earlier ++ frame :: later ∧
      (∀ frame ∈ earlier, frame.Fits) ∧ ¬ frame.Fits := by
  induction frames with
  | nil => simp
  | cons first rest ih =>
    by_cases hfirst : first.Fits
    · rcases ih with hall | ⟨earlier, frame, later, rfl, hearlier, hframe⟩
      · exact .inl (List.forall_mem_cons.mpr ⟨hfirst, hall⟩)
      · exact .inr ⟨first :: earlier, frame, later, rfl,
          List.forall_mem_cons.mpr ⟨hfirst, hearlier⟩, hframe⟩
    · exact .inr ⟨[], first, rest, rfl, by simp, hfirst⟩

namespace InFrame

theorem readItem_sim (limit : Nat) :
    ReaderSim AnyExcuse Eq (readItem limit) (MetadataItem.read limit) := by
  have hpayload : ∀ header : ItemHeader, ReaderSim AnyExcuse Eq (readItemPayload header)
      (MetadataItem.readPayload header.start header.kind) := by
    intro header content position
    cases hheld : readItemPayload header content position with
    | failed error stopped => exact .excused _ _ trivial
    | done item next =>
      rw [readPayload_of_readItemPayload hheld]
      exact .done next rfl
  rw [MetadataItem.read_eq]
  refine .bind_same fun header => (hpayload header).bind ?_
  rintro item _ rfl
  exact .refl _

theorem readItems_sim (limit : Nat) :
    ReaderSim AnyExcuse Eq (readItems limit) (Metadata.readItems limit) := by
  refine .bind_same fun version => .ite (.refl _) (.bind_same fun count => .bind_same fun _ => ?_)
  exact (readItem_sim limit).times count.toNat

variable {items : List MetadataItem} {frames : List ItemFrame}

/-- Behind the head of a record, its items are read. -/
theorem readItems_eq_times {first : Nat}
    (h : Metadata.readItems limit content position = .done items next)
    (hversion : byteAt content position = metadataVersion)
    (halign : Reader.align 4 content (position + 2) = .done () first) :
    readItems limit content position
      = Reader.times (byteAt content (position + 1)).toNat (readItem limit) content first := by
  obtain ⟨version, _, hread, h⟩ := Reader.bind_eq_done_iff.mp h
  obtain ⟨rfl, rfl⟩ := Reader.uint8_eq_byteAt hread
  have hsame := Decidable.not_not.mpr hversion
  rw [if_neg hsame] at h
  obtain ⟨count, _, hcount, -⟩ := Reader.bind_eq_done_iff.mp h
  obtain ⟨rfl, rfl⟩ := Reader.uint8_eq_byteAt hcount
  rw [readItems, Reader.bind_apply, hread]
  dsimp only
  rw [if_neg hsame, Reader.bind_apply, hcount]
  dsimp only
  rw [Reader.bind_apply, halign]

theorem readItems_of_fits (h : Metadata.readItems limit content position = .done items next)
    (record : RecordItems limit content position frames next)
    (fits : ∀ frame ∈ frames, frame.Fits) :
    readItems limit content position = .done (frames.map ItemFrame.item) next := by
  cases record with
  | other hother =>
    obtain ⟨version, _, hread, -⟩ := Reader.bind_eq_done_iff.mp h
    obtain ⟨rfl, rfl⟩ := Reader.uint8_eq_byteAt hread
    rw [readItems, Reader.bind_apply, hread]
    dsimp only
    rw [if_pos hother]
    rfl
  | items hversion hlength halign row =>
    rw [readItems_eq_times h hversion halign, ← hlength, Reader.times, row.timesOnto_of_fits fits]
    rfl

theorem readItems_of_not_fits (h : Metadata.readItems limit content position = .done items next)
    {earlier later : List ItemFrame} {frame : ItemFrame}
    (record : RecordItems limit content position (earlier ++ frame :: later) next)
    (fits : ∀ frame ∈ earlier, frame.Fits) (overruns : ¬ frame.Fits) :
    ∃ stopped, readItems limit content position
      = .failed (.ofKindAt .invalidCustomMetadata frame.start) stopped := by
  generalize hframes : earlier ++ frame :: later = frames at record
  cases record with
  | other => simp at hframes
  | items hversion hlength halign row =>
    subst hframes
    rw [readItems_eq_times h hversion halign, ← hlength]
    exact row.timesOnto_of_not_fits fits overruns #[]

end InFrame

/-- The items of a record that is read follow each other by their sizes, inside the record, and
those of an unknown kind change nothing.  Held to their sizes, the items are the same if all of them
fit, and the first one that does not is refused.  What is accepted then is always read in the same
way. -/
theorem readItems_frames (limit : Nat) (content : ByteArray) (position : Nat) :
    (∀ items next, Metadata.readItems limit content position = .done items next →
      ∃ frames, RecordItems limit content position frames next ∧
        items = frames.map ItemFrame.item ∧
        (∀ frame ∈ frames, frame.IsAt limit content ∧
          (5 ≤ frame.kind → ∀ method, frame.item.apply method = method)) ∧
        ((∀ frame ∈ frames, frame.Fits) →
          InFrame.readItems limit content position = .done items next) ∧
        ∀ earlier frame later, frames = earlier ++ frame :: later →
          (∀ frame ∈ earlier, frame.Fits) → ¬ frame.Fits →
            ∃ stopped, InFrame.readItems limit content position
              = .failed (.ofKindAt .invalidCustomMetadata frame.start) stopped) ∧
    ∀ items next, InFrame.readItems limit content position = .done items next →
      Metadata.readItems limit content position = .done items next ∧
      ∃ frames, RecordItems limit content position frames next ∧
        items = frames.map ItemFrame.item ∧ ∀ frame ∈ frames, frame.Fits := by
  constructor
  · intro items next h
    obtain ⟨frames, record, rfl⟩ := RecordItems.of_readItems h
    refine ⟨frames, record, rfl, ?_, InFrame.readItems_of_fits h record, ?_⟩
    · exact fun frame member => ⟨record.isAt frame member, (record.isAt frame member).apply_eq⟩
    · rintro earlier frame later rfl fits overruns
      exact InFrame.readItems_of_not_fits h record fits overruns
  · intro items next h
    obtain ⟨_, hdone, rfl⟩ := (InFrame.readItems_sim limit).exists_done h
    obtain ⟨frames, record, hitems⟩ := RecordItems.of_readItems hdone
    refine ⟨hdone, frames, record, hitems, ?_⟩
    rcases ItemFrame.fits_or_exists_first frames with
      hall | ⟨earlier, frame, later, rfl, fits, overruns⟩
    · exact hall
    · obtain ⟨stopped, hfailed⟩ := InFrame.readItems_of_not_fits hdone record fits overruns
      rw [hfailed] at h
      cases h

/-- Two items with a token and one of an unknown kind, each as long as it says. -/
def fullItems : ByteArray := ⟨#[
  4, 3, 0, 0, 4, 2, 0, 0, 12, 0, 0, 0, 8, 0, 0, 0, 4, 1, 0, 0, 12, 0, 0, 0, 7, 0, 0, 0,
  4, 9, 0, 0, 8, 0, 0, 0]⟩

/-- All items fit, so that being held to their sizes changes nothing. -/
theorem readItems_frames_fullItems :
    ∃ frames next, InFrame.readItems 36 fullItems 0
        = .done [.forwardToModule 8, .forward 7, .unknown 9] next ∧
      Metadata.readItems 36 fullItems 0
        = .done [.forwardToModule 8, .forward 7, .unknown 9] next ∧
      RecordItems 36 fullItems 0 frames next ∧ frames.length = 3 ∧
      ∀ frame ∈ frames, frame.Fits := by
  have hrun : ((InFrame.readItems 36).run fullItems).toOption
      = some [.forwardToModule 8, .forward 7, .unknown 9] := by decide +kernel
  cases hheld : (InFrame.readItems 36).run fullItems with
  | error error =>
    rw [hheld] at hrun
    cases hrun
  | ok items =>
    rw [hheld] at hrun
    obtain rfl := Option.some.inj hrun
    obtain ⟨next, hheld⟩ := Reader.run_eq_ok_iff.mp hheld
    obtain ⟨hread, frames, record, hitems, fits⟩ := (readItems_frames 36 fullItems 0).2 _ _ hheld
    have hlength := congrArg List.length hitems
    rw [List.length_map] at hlength
    exact ⟨frames, next, hheld, hread, record, hlength.symm, fits⟩

/-- Two items of a record, both with a token; of the first only the header is there. -/
def shortForward : ByteArray := ⟨#[
  4, 2, 0, 0, 4, 2, 0, 0, 8, 0, 0, 0, 4, 1, 0, 0, 12, 0, 0, 0, 7, 0, 0, 0]⟩

/-- The token of the first item is read from the header of the second.  Held to its size, the first
item is refused. -/
theorem readItems_short_forward :
    (match Metadata.readItems 24 shortForward 0 with
      | .done items next => some (items, next)
      | .failed .. => none) = some ([.forwardToModule 0x104, .forward 7], 24) ∧
    (match InFrame.readItems 24 shortForward 0 with
      | .done .. => none
      | .failed error _ => some error) = some (.ofKindAt .invalidCustomMetadata 4) := by
  exact ⟨by decide +kernel, by decide +kernel⟩

end ManagedPdb
