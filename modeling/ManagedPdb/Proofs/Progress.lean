import ManagedPdb.Proofs.Machine.Decode
import ManagedPdb.Proofs.Module.DeclaredSizes
import ManagedPdb.Proofs.Rounds
import ManagedPdb.Proofs.Symbol.ItemFrames
import ManagedPdb.Proofs.Symbol.TokenLines

/-!
# Progress on malformed input

The lengths of records and subsections stand in the data, and a record may announce an end inside
its own header.  Every loop over records still advances: no round that is done takes less than a
number of bytes that is known beforehand (`RecordsAdvance`), so that a loop has at most as many
rounds as its region has such pieces (`LoopsEnd`), and decoding ends.
-/

namespace ManagedPdb

variable {σ α β : Type}

/-! ### Bytes that are taken -/

namespace Reader

variable {content : ByteArray} {bytes count rest : Nat}

/-- On the content, a value of the reader takes so many bytes at least. -/
structure Gains (content : ByteArray) (bytes : Nat) (reader : Reader α) : Prop where
  done {position next : Nat} {value : α} : position ≤ content.size →
    reader content position = .done value next → position + bytes ≤ next ∧ next ≤ content.size

namespace Gains

theorem mono {reader : Reader α} (h : Gains content count reader) (hle : bytes ≤ count) :
    Gains content bytes reader where
  done hposition hdone := by
    obtain ⟨hnext, hsize⟩ := h.done hposition hdone
    exact ⟨by omega, hsize⟩

protected theorem pure (value : α) : Gains content 0 (Pure.pure value : Reader α) where
  done hposition hdone := by
    cases hdone
    exact ⟨Nat.le_refl _, hposition⟩

protected theorem position : Gains content 0 Reader.position where
  done hposition hdone := by
    cases hdone
    exact ⟨Nat.le_refl _, hposition⟩

protected theorem bind {reader : Reader α} {next : α → Reader β} (h : Gains content count reader)
    (hnext : ∀ value, Gains content rest (next value)) :
    Gains content (rest + count) (reader >>= next) where
  done hposition hdone := by
    obtain ⟨first, middle, hfirst, hrest⟩ := bind_eq_done_iff.mp hdone
    obtain ⟨hmiddle, hsize⟩ := h.done hposition hfirst
    obtain ⟨hlast, hsize⟩ := (hnext first).done hsize hrest
    exact ⟨by omega, hsize⟩

theorem ite {condition : Prop} [Decidable condition] {left right : Reader α}
    (htrue : Gains content bytes left) (hfalse : Gains content bytes right) :
    Gains content bytes (if condition then left else right) := by
  by_cases h : condition
  · rwa [if_pos h]
  · rwa [if_neg h]

protected theorem ofExcept (result : Except DecodeError α) :
    Gains content 0 (Reader.ofExcept result) := by
  cases result with
  | ok value => exact .pure value
  | error error => exact ⟨nofun⟩

protected theorem word (width : Nat) : Gains content width (Reader.word width) where
  done _ hdone := by
    obtain ⟨hle, -, rfl⟩ := word_eq_done_iff.mp hdone
    exact ⟨Nat.le_refl _, hle⟩

protected theorem uint8 : Gains content 1 Reader.uint8 := (Gains.word 1).bind fun _ => .pure _

protected theorem uint16 : Gains content 2 Reader.uint16 := (Gains.word 2).bind fun _ => .pure _

protected theorem uint32 : Gains content 4 Reader.uint32 := (Gains.word 4).bind fun _ => .pure _

protected theorem bytes (count : Nat) : Gains content count (Reader.bytes count) where
  done {position next value} _ hdone := by
    rw [Reader.bytes, Reader.skip] at hdone
    by_cases hle : position + count ≤ content.size
    · rw [if_pos hle] at hdone
      cases hdone
      exact ⟨Nat.le_refl _, hle⟩
    · rw [if_neg hle] at hdone
      cases hdone

/-- A text takes its zero byte at least. -/
protected theorem terminatedBytes : Gains content 1 Reader.terminatedBytes where
  done {position next value} _ hdone := by
    rw [Reader.terminatedBytes] at hdone
    cases hzero : Reader.zeroFrom content position with
    | none =>
      rw [hzero] at hdone
      cases hdone
    | some stop =>
      rw [hzero] at hdone
      cases hdone
      have hstop := Reader.zeroFrom_lt hzero
      omega

protected theorem terminatedString : Gains content 1 Reader.terminatedString := by
  refine Gains.position.bind fun start => Gains.terminatedBytes.bind fun bytes => ?_
  unfold Reader.utf8
  split
  · exact .pure _
  · exact ⟨nofun⟩

protected theorem skipTerminated : Gains content 1 Reader.skipTerminated :=
  Gains.terminatedBytes.bind fun _ => .pure _

protected theorem align_four (hsize : content.size < 2 ^ 63) : Gains content 0 (align 4) where
  done hposition hdone := by
    obtain ⟨rfl, hle⟩ := align_four_eq_done_iff.mp hdone
    exact ⟨by omega, hle⟩

/-- A check that does not hold ends the reader. -/
theorem guard {condition : Prop} [Decidable condition] {kind : ErrorKind} {offset : Nat}
    {next : Unit → Reader α} {rest : Reader α} (h : Gains content bytes rest) :
    Gains content bytes (if condition then failAt kind offset >>= next else rest) :=
  .ite ⟨nofun⟩ h

/-- A reader that starts with a word starts inside the content. -/
theorem le_size_of_uint32 {next : UInt32 → Reader α} {position last : Nat} {value : α}
    (h : (Reader.uint32 >>= next) content position = .done value last) :
    position ≤ content.size := by
  obtain ⟨_, _, hword, -⟩ := bind_eq_done_iff.mp h
  obtain ⟨hle, -⟩ := uint32_eq_done hword
  omega

end Gains

end Reader

/-! ### One round of each loop -/

variable {content : ByteArray} {limit start position next : Nat}

/-- What is known of a record whose header is read: however short it says that it is, the next one
starts behind its first two bytes. -/
theorem RecordHeader.advances {header : RecordHeader} {inside : Nat}
    (hheader : RecordHeader.read limit content position = .done header inside)
    (hsize : header.stop ≤ content.size) :
    position + 2 ≤ header.stop ∧ header.stop ≤ limit ∧ header.stop ≤ content.size := by
  obtain ⟨-, -, hstop, hlimit⟩ := Descent.header_eq_done hheader
  exact ⟨hstop, hlimit, hsize⟩

theorem OpenMethod.step_advances {body : OpenMethod} {found : OpenMethod ⊕ Method}
    (h : step limit body content position = .done found next) :
    position + 2 ≤ next ∧ next ≤ limit ∧ next ≤ content.size := by
  obtain ⟨header, inside, hheader, rfl, hsize⟩ := step_frame h
  exact RecordHeader.advances hheader hsize

theorem Method.read_advances {stop : Nat} {keepNames : Bool} {method : Method} {inside : Nat}
    (h : Method.read stop limit keepNames content inside = .done method next) :
    stop + 2 ≤ next ∧ next ≤ limit ∧ next ≤ content.size := by
  obtain ⟨⟨start, bodyStop⟩, middle, hstart, hloop⟩ := Reader.bind_eq_done_iff.mp h
  obtain ⟨rfl, -⟩ := Descent.readStart_eq_done hstart
  -- every step of the body leads to where the whole body leads
  refine Reader.iterate_backward (P := fun place => place + 2 ≤ next ∧ next ≤ limit ∧
    next ≤ content.size) (Q := (· = next)) ?_ ?_ hloop rfl
  · intro body body' position middle hstep hrest
    obtain ⟨hmiddle, -⟩ := OpenMethod.step_advances hstep
    exact ⟨by omega, hrest.2⟩
  · rintro body method position _ hstep rfl
    exact OpenMethod.step_advances hstep

theorem readMethodOrSkip_advances {keepNames : Bool} {found found' : Array Method}
    (h : readMethodOrSkip limit keepNames found content position = .done found' next) :
    position + 2 ≤ next ∧ next ≤ limit ∧ next ≤ content.size := by
  obtain ⟨header, inside, hheader, ⟨-, method, -, hmethod⟩ | ⟨-, -, rfl, hsize⟩⟩ :=
    readMethodOrSkip_eq_done h
  · obtain ⟨-, -, hstop, -⟩ := Descent.header_eq_done hheader
    obtain ⟨hnext, hinside⟩ := Method.read_advances hmethod
    exact ⟨by omega, hinside⟩
  · exact RecordHeader.advances hheader hsize

theorem TokenLine.readRecord_advances {found found' : Array (UInt32 × TokenLine)}
    (h : readRecord limit found content position = .done found' next) :
    position + 2 ≤ next ∧ next ≤ limit ∧ next ≤ content.size := by
  obtain ⟨header, inside, hheader, rfl, hsize, -⟩ := readRecord_eq_done h
  exact RecordHeader.advances hheader hsize

theorem LineTable.readBlock_advances {checksums : ChecksumTable} {hasColumns : Bool} {stop : Nat}
    {table : LineTable}
    (h : readBlock checksums hasColumns stop content position = .done table next) :
    position + 12 ≤ next ∧ next ≤ stop ∧ next ≤ content.size := by
  unfold readBlock at h
  obtain ⟨_, _, hstart, h⟩ := Reader.bind_eq_done_iff.mp h
  cases hstart
  obtain ⟨fileId, _, hfile, h⟩ := Reader.bind_eq_done_iff.mp h
  obtain ⟨-, -, rfl⟩ := Reader.uint32_eq_done hfile
  obtain ⟨count, _, hcount, h⟩ := Reader.bind_eq_done_iff.mp h
  obtain ⟨-, -, rfl⟩ := Reader.uint32_eq_done hcount
  obtain ⟨size, _, hblock, h⟩ := Reader.bind_eq_done_iff.mp h
  obtain ⟨-, -, rfl⟩ := Reader.uint32_eq_done hblock
  obtain ⟨_, _, hentries, h⟩ := Reader.bind_eq_done_iff.mp h
  cases hentries
  by_cases hpasses : stop < position + 4 + 4 + 4 + count.toNat * entrySize hasColumns
  · rw [if_pos hpasses] at h
    cases h
  rw [if_neg hpasses] at h
  -- wherever the entries end, the position is set behind all of them
  obtain ⟨entries, _, -, h⟩ := Reader.bind_eq_done_iff.mp h
  by_cases hcolumns : hasColumns = true
  · rw [if_pos hcolumns] at h
    obtain ⟨lines, _, -, h⟩ := Reader.bind_eq_done_iff.mp h
    obtain ⟨-, rfl, hsize⟩ := Reader.seek_return_eq_done h
    exact ⟨by omega, by omega, hsize⟩
  · rw [if_neg hcolumns] at h
    obtain ⟨lines, _, -, h⟩ := Reader.bind_eq_done_iff.mp h
    obtain ⟨-, rfl, hsize⟩ := Reader.seek_return_eq_done h
    exact ⟨by omega, by omega, hsize⟩

theorem ItemHeader.le_size_of_read {header : ItemHeader}
    (h : ItemHeader.read limit content position = .done header next) :
    position ≤ content.size := by
  obtain ⟨_, _, hstart, h⟩ := Reader.bind_eq_done_iff.mp h
  cases hstart
  obtain ⟨version, _, hversion, -⟩ := Reader.bind_eq_done_iff.mp h
  obtain ⟨_, _, hword, -⟩ := Reader.bind_eq_done_iff.mp hversion
  obtain ⟨hle, -⟩ := Reader.word_eq_done_iff.mp hword
  omega

theorem SectionContribution.gains : Reader.Gains content 28 SectionContribution.read := by
  refine .bind .uint16 fun _ => .bind .uint16 fun _ => .bind .uint32 fun _ => ?_
  refine .bind .uint32 fun _ => .bind .uint32 fun _ => .bind .uint16 fun _ => ?_
  exact .bind .uint16 fun _ => .bind .uint32 fun _ => .bind .uint32 fun _ => .pure _

section

variable (hsize : content.size < 2 ^ 63)
include hsize

theorem Subsection.readNext_advances {found found' : Array Subsection}
    (h : readNext limit found content position = .done found' next) :
    position + 8 ≤ next ∧ next ≤ content.size := by
  unfold readNext at h
  obtain ⟨kind, _, hkind, h⟩ := Reader.bind_eq_done_iff.mp h
  obtain ⟨-, -, rfl⟩ := Reader.uint32_eq_done hkind
  obtain ⟨length, _, hlength, h⟩ := Reader.bind_eq_done_iff.mp h
  obtain ⟨-, -, rfl⟩ := Reader.uint32_eq_done hlength
  obtain ⟨_, _, hstart, h⟩ := Reader.bind_eq_done_iff.mp h
  cases hstart
  by_cases hlimit : limit < position + 4 + 4 + length.toNat
  · rw [if_pos hlimit] at h
    cases h
  rw [if_neg hlimit] at h
  obtain ⟨_, _, hseek, h⟩ := Reader.bind_eq_done_iff.mp h
  obtain ⟨hstop, rfl⟩ := Reader.seek_eq_done_iff.mp hseek
  obtain ⟨_, _, halign, h⟩ := Reader.bind_eq_done_iff.mp h
  obtain ⟨hpadding, hnext⟩ := (Reader.Gains.align_four hsize).done hstop halign
  split at h <;> cases h
  all_goals exact ⟨by omega, hnext⟩

/-- A checksum may be empty: what is left is the name and the two bytes behind it. -/
theorem ChecksumTable.readRecord_advances {σ : Type} {load : SourceLoader σ}
    {state state' : ChecksumTable × σ}
    (h : readRecord load start state content position = .done state' next) :
    position + 6 ≤ next ∧ next ≤ content.size := by
  have hgains : Reader.Gains content 6 (readRecord load start state) := by
    refine .bind .position fun _ => .bind .uint32 fun _ => ?_
    refine .bind .uint8 fun _ => .bind .uint8 fun length => ?_
    refine .bind ((Reader.Gains.bytes _).mono (Nat.zero_le _)) fun checksum => ?_
    exact .bind (.ofExcept _) fun loaded => .bind (.align_four hsize) fun _ => .pure _
  exact hgains.done (Reader.Gains.le_size_of_uint32 h) h

/-- The header of an item: the version, the kind and the size, whatever the padding. -/
theorem ItemHeader.gains (limit : Nat) : Reader.Gains content 6 (ItemHeader.read limit) := by
  refine .bind .position fun _ => .bind .uint8 fun _ => .guard ?_
  refine .bind .uint8 fun _ => .bind (.align_four hsize) fun _ => .bind .uint32 fun _ => ?_
  exact .bind .position fun _ => .guard (.pure _)

theorem MetadataItem.read_advances {stop : Nat} {item : MetadataItem}
    (h : MetadataItem.read stop content position = .done item next) :
    position + 6 ≤ next ∧ next ≤ stop ∧ next ≤ content.size := by
  obtain ⟨frame, isAt, rfl, rfl, -⟩ := exists_frame h
  have hposition := ItemHeader.le_size_of_read isAt.header
  have hpayload := (ItemHeader.gains hsize stop).done hposition isAt.header
  have hheader := isAt.payload_le_stop
  exact ⟨by omega, isAt.stop_le_limit, isAt.stop_le_size⟩

/-- A descriptor has 64 bytes in front of its two names. -/
theorem ModuleDescriptor.gains (keepNames : Bool) :
    Reader.Gains content 66 (ModuleDescriptor.read keepNames) := by
  refine .bind .uint32 fun _ => .bind SectionContribution.gains fun _ => ?_
  refine .bind .uint16 fun _ => .bind .uint16 fun _ => .bind .uint32 fun _ => ?_
  refine .bind .uint32 fun _ => .bind .uint32 fun _ => .bind .uint16 fun _ => ?_
  refine .bind .uint16 fun _ => .bind .uint32 fun _ => .bind .uint32 fun _ => ?_
  refine .bind .uint32 fun _ => .bind .terminatedString fun _ => .ite ?_ ?_
  · refine .bind (.bind .terminatedString fun _ => .pure _) fun _ => ?_
    exact .bind (.align_four hsize) fun _ => .pure _
  · refine .bind .skipTerminated fun _ => .bind (.pure _) fun _ => ?_
    exact .bind (.align_four hsize) fun _ => .pure _

theorem DebugStream.readNextModule_advances {keepNames : Bool}
    {modules modules' : Array ModuleDescriptor} (haligned : position % 4 = 0)
    (h : readNextModule keepNames modules content position = .done modules' next) :
    position + 68 ≤ next ∧ next ≤ content.size ∧ next % 4 = 0 := by
  obtain ⟨descriptor, hread, -⟩ := readNextModule_eq_done h
  have hposition : position ≤ content.size := Reader.Gains.le_size_of_uint32 hread
  obtain ⟨hnext, hinside⟩ := (ModuleDescriptor.gains hsize keepNames).done hposition hread
  obtain ⟨hpadded, -⟩ :=
    (ModuleDescriptor.endsAligned keepNames).needs (by omega) hposition hread (by omega)
  exact ⟨by omega, hinside, hpadded⟩

end

/-! ### All loops -/

/-- What a round of each loop takes at least, if it is done.  All rounds end inside the content, and
those over records, blocks and items inside their region too. -/
structure RecordsAdvance (content : ByteArray) : Prop where
  methods {limit position next : Nat} {keepNames : Bool} {found found' : Array Method} :
    readMethodOrSkip limit keepNames found content position = .done found' next →
      position + 2 ≤ next ∧ next ≤ limit ∧ next ≤ content.size
  /-- Whether the record is added to the body or closes a scope. -/
  body {limit position next : Nat} {body : OpenMethod} {found : OpenMethod ⊕ Method} :
    OpenMethod.step limit body content position = .done found next →
      position + 2 ≤ next ∧ next ≤ limit ∧ next ≤ content.size
  tokenLines {limit position next : Nat} {found found' : Array (UInt32 × TokenLine)} :
    TokenLine.readRecord limit found content position = .done found' next →
      position + 2 ≤ next ∧ next ≤ limit ∧ next ≤ content.size
  subsections {limit position next : Nat} {found found' : Array Subsection} :
    Subsection.readNext limit found content position = .done found' next →
      position + 8 ≤ next ∧ next ≤ content.size
  checksums {start position next : Nat} {σ : Type} {load : SourceLoader σ}
    {state state' : ChecksumTable × σ} :
    ChecksumTable.readRecord load start state content position = .done state' next →
      position + 6 ≤ next ∧ next ≤ content.size
  blocks {stop position next : Nat} {checksums : ChecksumTable} {hasColumns : Bool}
    {tables tables' : Array LineTable} :
    LineTable.readNextBlock checksums hasColumns stop tables content position
        = .done tables' next →
      position + 12 ≤ next ∧ next ≤ stop ∧ next ≤ content.size
  items {stop position next : Nat} {item : MetadataItem} :
    MetadataItem.read stop content position = .done item next →
      position + 6 ≤ next ∧ next ≤ stop ∧ next ≤ content.size
  /-- Descriptors start at multiples of four, the first as well as those behind it. -/
  modules {position next : Nat} {keepNames : Bool} {modules modules' : Array ModuleDescriptor} :
    position % 4 = 0 →
      DebugStream.readNextModule keepNames modules content position = .done modules' next →
        position + 68 ≤ next ∧ next ≤ content.size ∧ next % 4 = 0

theorem recordsAdvance (hsize : content.size < 2 ^ 63) : RecordsAdvance content where
  methods := readMethodOrSkip_advances
  body := OpenMethod.step_advances
  tokenLines := TokenLine.readRecord_advances
  subsections := Subsection.readNext_advances hsize
  checksums := ChecksumTable.readRecord_advances hsize
  blocks h := by
    obtain ⟨table, _, hblock, h⟩ := Reader.bind_eq_done_iff.mp h
    cases h
    exact LineTable.readBlock_advances hblock
  items := MetadataItem.read_advances hsize
  modules := DebugStream.readNextModule_advances hsize

/-- Each loop has at most as many rounds as its region has pieces of the size that a round takes at
least, rounded up. -/
structure LoopsEnd (content : ByteArray) : Prop where
  methods (limit : Nat) (keepNames : Bool) (position : Nat) :
    Reader.EndsWithin content 2 limit (readMethodOrSkip limit keepNames) position
  /-- The body of a method is a part of the region behind the record that starts it. -/
  body {limit start inside : Nat} {header : RecordHeader}
    (hheader : RecordHeader.read limit content start = .done header inside) (body : OpenMethod) :
    Reader.iterateFor (OpenMethod.step limit) content ((limit - start) ⌈/⌉ 2) body header.stop
      = some (Reader.iterate (OpenMethod.step limit) body content header.stop)
  tokenLines (limit position : Nat) :
    Reader.EndsWithin content 2 limit (TokenLine.readRecord limit) position
  subsections (limit position : Nat) :
    Reader.EndsWithin content 8 limit (Subsection.readNext limit) position
  checksums {σ : Type} (load : SourceLoader σ) (subsection : Subsection) (position : Nat) :
    Reader.EndsWithin content 6 subsection.stop (ChecksumTable.readRecord load subsection.start)
      position
  blocks (checksums : ChecksumTable) (hasColumns : Bool) (stop position : Nat) :
    Reader.EndsWithin content 12 stop (LineTable.readNextBlock checksums hasColumns stop) position
  /-- However many items a record announces, no more are read than have room in it. -/
  items {limit start inside first : Nat} {header : RecordHeader}
    (hheader : RecordHeader.read limit content start = .done header inside)
    (hfirst : inside ≤ first) (count : Nat) :
    Reader.times count (MetadataItem.read header.stop) content first
      = Reader.times (min count ((header.stop - start) ⌈/⌉ 6)) (MetadataItem.read header.stop)
        content first
  modules {header : DebugStreamHeader} {start : Nat}
    (hheader : DebugStreamHeader.read content 0 = .done header start) (keepNames : Bool) :
    Reader.EndsWithin content 68 (start + header.moduleListSize.toNat)
      (DebugStream.readNextModule keepNames) start

theorem RecordsAdvance.loopsEnd (advance : RecordsAdvance content) : LoopsEnd content where
  methods limit keepNames position := .of_advances (by decide) fun hdone =>
    ⟨(advance.methods hdone).1, (advance.methods hdone).2.2⟩
  body {limit start inside header} hheader body := by
    obtain ⟨-, -, hstop, hlimit⟩ := Descent.header_eq_done hheader
    have hcover := @Reader.le_add_ceilDiv_mul 2 limit start (by decide)
    exact Reader.iterateFor_eq (by decide) advance.body body hlimit (by omega)
  tokenLines limit position := .of_advances (by decide) fun hdone =>
    ⟨(advance.tokenLines hdone).1, (advance.tokenLines hdone).2.2⟩
  subsections limit position := .of_advances (by decide) advance.subsections
  checksums load subsection position := .of_advances (by decide) advance.checksums
  blocks checksums hasColumns stop position := .of_advances (by decide) fun hdone =>
    ⟨(advance.blocks hdone).1, (advance.blocks hdone).2.2⟩
  items {limit start inside first header} hheader hfirst count := by
    obtain ⟨rfl, -, hstop, -⟩ := Descent.header_eq_done hheader
    have hcover := @Reader.le_add_ceilDiv_mul 6 header.stop start (by decide)
    have hitem : ∀ {position : Nat} {item : MetadataItem} {next : Nat},
        MetadataItem.read header.stop content position = .done item next →
          position + 6 ≤ next ∧ next ≤ header.stop := fun hdone =>
      ⟨(advance.items hdone).1, (advance.items hdone).2.1⟩
    exact Reader.times_eq_min hitem (by omega) (by omega)
  modules hheader keepNames := by
    obtain ⟨-, -, rfl⟩ := DebugStreamHeader.eq_of_read hheader
    intro modules
    exact Reader.whileFor_eq (P := (· % 4 = 0)) (by decide) advance.modules modules rfl
      (Reader.le_add_ceilDiv_mul (by decide))

/-- Methods that are read fill their region. -/
theorem eq_limit_of_readMethods {keepNames : Bool} {methods : List Method} {last : Nat}
    (hregion : 4 ≤ limit)
    (h : readMethods limit keepNames content position = .done methods last) : last = limit := by
  obtain ⟨_, first, hsignature, h⟩ := Reader.bind_eq_done_iff.mp h
  obtain rfl := readSymbolSignature_eq_done hsignature
  obtain ⟨found, _, hloop, h⟩ := Reader.bind_eq_done_iff.mp h
  cases h
  exact Reader.eq_stop_of_whileBelow (fun hturn => (readMethodOrSkip_advances hturn).2.1) hregion
    hloop

/-- The streams of a file fit into memory. -/
theorem Container.size_content_lt {image : ByteArray} {container : Container}
    (h : ofImage image = .ok container) {stream : StreamDescriptor}
    (hcontent : stream.content container.file = .ok content) : content.size < 2 ^ 63 := by
  have hlength := stream.length.toNat_lt
  rw [StreamDescriptor.size_of_read_eq_ok (paged_of_ofImage h) hcontent]
  omega

/-- No content that fits into memory can hold a loop up.  Every round takes a number of bytes at
least, a loop is over when its region is used up, and methods that are read fill their region.  All
streams of a file are such contents, and every file is decoded or refused by the machine, on which a
round that does not advance is a fault. -/
theorem decoding_ends (hsize : content.size < 2 ^ 63) :
    RecordsAdvance content ∧ LoopsEnd content ∧
      (∀ {limit position : Nat} {keepNames : Bool} {methods : List Method} {last : Nat}, 4 ≤ limit →
        readMethods limit keepNames content position = .done methods last → last = limit) ∧
      ∀ image : ByteArray,
        (∀ container, Container.ofImage image = .ok container → ∀ stream bytes,
          StreamDescriptor.content stream container.file = .ok bytes → bytes.size < 2 ^ 63) ∧
        ∀ options, Machine.decodeWith options image
          = some (DebugInfo.decodeWith options image) :=
  ⟨recordsAdvance hsize, (recordsAdvance hsize).loopsEnd, eq_limit_of_readMethods, fun image =>
    ⟨fun _ hcontainer _ _ => Container.size_content_lt hcontainer,
      (Machine.decodeWith_eq · image)⟩⟩

/-- A region of four records, each of which announces a length of zero. -/
def shortRecords : ByteArray := ⟨#[4, 0, 0, 0, 0, 0, 0, 0, 0, 0, 0, 0, 0, 0]⟩

/-- The records take two bytes each, so that the region needs all rounds that it may have. -/
theorem decoding_ends_shortRecords :
    shortRecords.size < 2 ^ 63 ∧
      Reader.whileFor 12 (readMethodOrSkip 12 false) shortRecords ((12 - 4) ⌈/⌉ 2) #[] 4
        = some (Reader.whileBelow 12 (readMethodOrSkip 12 false) #[] shortRecords 4) ∧
      Reader.whileFor 12 (readMethodOrSkip 12 false) shortRecords ((12 - 4) ⌈/⌉ 2) #[] 4
        = some (.done #[] 12) ∧
      Reader.whileFor 12 (readMethodOrSkip 12 false) shortRecords 3 #[] 4 = none := by
  obtain ⟨-, ends, -⟩ := @decoding_ends shortRecords (by decide)
  refine ⟨by decide, ends.methods 12 false 4 #[], ?_, rfl⟩
  rw [Nat.ceilDiv_eq_add_pred_div]
  rfl

end ManagedPdb
