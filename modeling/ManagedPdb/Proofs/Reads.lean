import ManagedPdb.Proofs.Bytes
import ManagedPdb.Proofs.Reader

/-!
# Readers of written bytes

`Reads reader start bytes value` says that a reader gives the value, and moves over exactly the
bytes, wherever these stand in a content from `start` on.  A reader made of steps reads pieces in a
row (`Reads.bind`), so that the laws of whole formats follow those of their fields.  The start is a
part of the relation because the ends and the alignment of records count from the start of the
region.  `ReadsIn` is the same relation in a single content.
-/

namespace ManagedPdb

/-- The reader gives the value from the bytes, when they start at `start`, and moves over them. -/
def Reads {α : Type} (reader : Reader α) (start : Nat) (bytes : ByteArray) (value : α) : Prop :=
  ∀ content, StandsAt bytes content start →
    reader content start = .done value (start + bytes.size)

/-! ### Readers that look elsewhere -/

/-- The same in a single content, for readers that also look at other places of it. -/
def ReadsIn {α : Type} (content : ByteArray) (reader : Reader α) (start : Nat) (bytes : ByteArray)
    (value : α) : Prop :=
  StandsAt bytes content start → reader content start = .done value (start + bytes.size)

namespace ReadsIn

variable {α β σ : Type} {content : ByteArray} {start : Nat} {left right : ByteArray}

/-- The second step may look at what the first one has read. -/
protected theorem bind {reader : Reader α} {next : α → Reader β} {first : α} {second : β}
    (hfirst : ReadsIn content reader start left first)
    (hsecond : StandsAt left content start →
      ReadsIn content (next first) (start + left.size) right second) :
    ReadsIn content (reader >>= next) start (left ++ right) second := by
  intro hcontent
  rw [Reader.bind_apply, hfirst hcontent.append_left]
  simp only [hsecond hcontent.append_left hcontent.append_right, ByteArray.size_append,
    Nat.add_assoc]

/-- A step that looks at what has been read, and reads no more. -/
theorem bind_empty {reader : Reader α} {next : α → Reader β} {first : α} {second : β}
    {bytes : ByteArray} (hfirst : ReadsIn content reader start bytes first)
    (hsecond : ReadsIn content (next first) (start + bytes.size) .empty second) :
    ReadsIn content (reader >>= next) start bytes second := by
  have h := hfirst.bind fun _ => hsecond
  rwa [ByteArray.append_empty] at h

/-- A step that reads nothing. -/
theorem empty_bind {reader : Reader α} {next : α → Reader β} {first : α} {second : β}
    {bytes : ByteArray} (hfirst : ReadsIn content reader start .empty first)
    (hsecond : ReadsIn content (next first) start bytes second) :
    ReadsIn content (reader >>= next) start bytes second := by
  have h := hfirst.bind fun _ => hsecond
  rwa [ByteArray.empty_append] at h

/-- A step that looks where it is. -/
protected theorem position {next : Nat → Reader α} {bytes : ByteArray} {value : α}
    (h : ReadsIn content (next start) start bytes value) :
    ReadsIn content (Reader.position >>= next) start bytes value := h

/-- A step that looks how long the content is. -/
protected theorem size {next : Nat → Reader α} {bytes : ByteArray} {value : α}
    (h : ReadsIn content (next content.size) start bytes value) :
    ReadsIn content (Reader.size >>= next) start bytes value := h

/-- Reads as many values as there are drafts.  Whether a draft can be read may depend on where it
stands; `Fits` says so of all drafts that are left. -/
protected theorem times {item : Reader α} {encode : σ → ByteArray} {value : σ → α}
    (Fits : Nat → List σ → Prop)
    (hitem : ∀ start draft rest, Fits start (draft :: rest) →
      ReadsIn content item start (encode draft) (value draft) ∧
        Fits (start + (encode draft).size) rest)
    {drafts : List σ} (hfits : Fits start drafts) :
    ReadsIn content (Reader.times drafts.length item) start (Bytes.concat (drafts.map encode))
      (drafts.map value) := by
  -- the loop collects values, so that the induction is about any values collected before
  have honto : ∀ before : Array α,
      ReadsIn content (Reader.timesOnto item before drafts.length) start
        (Bytes.concat (drafts.map encode)) (before.toList ++ drafts.map value) := by
    induction drafts generalizing start with
    | nil =>
      intro before _
      simp [Reader.timesOnto]
    | cons draft rest ih =>
      intro before hcontent
      obtain ⟨hdraft, hrest⟩ := hitem start draft rest hfits
      simp only [List.map_cons, Bytes.concat_cons] at hcontent ⊢
      rw [List.length_cons, Reader.timesOnto, hdraft hcontent.append_left]
      simp only [ih hrest (before.push (value draft)) hcontent.append_right,
        ByteArray.size_append, Nat.add_assoc]
      simp
  exact honto #[]

/-- The same for drafts that can be read wherever they stand. -/
theorem times_of_forall {item : Reader α} {encode : σ → ByteArray} {value : σ → α} {drafts : List σ}
    (hitem : ∀ draft ∈ drafts, ∀ start, ReadsIn content item start (encode draft) (value draft)) :
    ReadsIn content (Reader.times drafts.length item) start (Bytes.concat (drafts.map encode))
      (drafts.map value) := by
  refine .times (fun _ rest => ∀ draft ∈ rest, draft ∈ drafts) ?_ fun _ => id
  intro start draft rest member
  constructor
  · exact hitem draft (member draft (by simp)) start
  · intro draft' member'
    exact member draft' (List.mem_cons_of_mem _ member')

end ReadsIn

namespace Reads

variable {α β σ : Type} {start : Nat} {bytes left right : ByteArray}

/-- What reads the front of a content gives its value. -/
theorem run_append {reader : Reader α} {value : α} (h : Reads reader 0 left value) :
    reader.run (left ++ right) = .ok value := by
  rw [Reader.run, h _ (StandsAt.self (left ++ right)).append_left]

/-- What reads a whole content gives its value. -/
theorem run_eq {reader : Reader α} {value : α} (h : Reads reader 0 bytes value) :
    reader.run bytes = .ok value := by
  rw [Reader.run, h bytes (.self bytes)]

/-! ### Steps in a row -/

protected theorem pure (value : α) : Reads (Pure.pure value) start .empty value := by
  intro content _
  rw [Reader.pure_apply, ByteArray.size_empty, Nat.add_zero]

protected theorem bind {reader : Reader α} {next : α → Reader β} {first : α} {second : β}
    (hfirst : Reads reader start left first)
    (hsecond : Reads (next first) (start + left.size) right second) :
    Reads (reader >>= next) start (left ++ right) second := by
  intro content hcontent
  rw [Reader.bind_apply, hfirst content hcontent.append_left]
  simp only [hsecond content hcontent.append_right, ByteArray.size_append, Nat.add_assoc]

/-- A step that reads the bytes, with a value put together from it. -/
protected theorem map {reader : Reader α} {value : α} (f : α → β)
    (h : Reads reader start bytes value) :
    Reads (f <$> reader) start bytes (f value) := by
  intro content hcontent
  rw [Reader.map_apply, h content hcontent]

/-- The last step of a row. -/
theorem bind_pure {reader : Reader α} {value : α} (f : α → β) (h : Reads reader start bytes value) :
    Reads (reader >>= fun value => Pure.pure (f value)) start bytes (f value) := by
  rw [bind_pure_comp]
  exact Reads.map f h

/-- A step that looks at what has been read, and reads no more. -/
theorem bind_empty {reader : Reader α} {next : α → Reader β} {first : α} {second : β}
    (hfirst : Reads reader start bytes first)
    (hsecond : Reads (next first) (start + bytes.size) .empty second) :
    Reads (reader >>= next) start bytes second := by
  have h := hfirst.bind hsecond
  rwa [ByteArray.append_empty] at h

/-- A step that reads nothing. -/
theorem empty_bind {reader : Reader α} {next : α → Reader β} {first : α} {second : β}
    (hfirst : Reads reader start .empty first) (hsecond : Reads (next first) start bytes second) :
    Reads (reader >>= next) start bytes second := by
  have h := hfirst.bind hsecond
  rwa [ByteArray.empty_append] at h

/-- A step that only looks where it is. -/
protected theorem position {next : Nat → Reader α} {value : α}
    (h : Reads (next start) start bytes value) :
    Reads (Reader.position >>= next) start bytes value := by
  intro content hcontent
  rw [Reader.bind_apply, Reader.position_apply]
  exact h content hcontent

/-! ### Moves -/

protected theorem seek {target : Nat} (htarget : target = start + bytes.size) :
    Reads (Reader.seek target) start bytes () := by
  intro content hcontent
  rw [Reader.seek_of_le (by
    have hle := hcontent.le_size
    omega), htarget]

protected theorem skip {count : Nat} (hcount : count = bytes.size) :
    Reads (Reader.skip count) start bytes start := by
  intro content hcontent
  rw [Reader.skip, if_pos (by
    have hle := hcontent.le_size
    omega), hcount]

/-- The bytes from `start` to the next multiple of four, anywhere in the address space. -/
theorem align_four_of_le (hbytes : bytes.size = (4 - start % 4) % 4)
    (hstart : start + 4 ≤ 2 ^ 64) : Reads (Reader.align 4) start bytes () := by
  intro content hcontent
  exact Reader.align_four_eq_done_iff.mpr ⟨by omega, hcontent.le_size⟩

theorem align_four (hbytes : bytes.size = (4 - start % 4) % 4) (hstart : start < 2 ^ 32) :
    Reads (Reader.align 4) start bytes () :=
  align_four_of_le hbytes (by omega)

protected theorem bytes {count : Nat} (hcount : count = bytes.size) :
    Reads (Reader.bytes count) start bytes bytes := by
  intro content hcontent
  rw [Reader.bytes, Reads.skip hcount content hcontent]
  simp only [hcontent.extract_eq]

/-! ### Numbers -/

theorem word {width number : Nat} (hnumber : number < 256 ^ width) :
    Reads (Reader.word width) start (Bytes.number width number) number := by
  intro content hcontent
  have hle := hcontent.le_size
  rw [Bytes.size_number] at hle
  rw [Reader.word, if_pos hle, LittleEndian.read_of_standsAt hcontent, Nat.mod_eq_of_lt hnumber,
    Bytes.size_number]

/-- A number of a type that is made from natural numbers by `ofNat`. -/
theorem word_map {width number : Nat} (ofNat : Nat → α) {value : α}
    (hnumber : number < 256 ^ width) (hvalue : ofNat number = value) :
    Reads (return ofNat (← Reader.word width)) start (Bytes.number width number) value := by
  rw [← hvalue]
  exact bind_pure ofNat (Reads.word hnumber)

protected theorem uint8 (value : UInt8) : Reads Reader.uint8 start (Bytes.uint8 value) value :=
  word_map UInt8.ofNat value.toNat_lt UInt8.ofNat_toNat

protected theorem uint16 (value : UInt16) : Reads Reader.uint16 start (Bytes.uint16 value) value :=
  word_map UInt16.ofNat value.toNat_lt UInt16.ofNat_toNat

protected theorem uint32 (value : UInt32) : Reads Reader.uint32 start (Bytes.uint32 value) value :=
  word_map UInt32.ofNat value.toNat_lt UInt32.ofNat_toNat

protected theorem uint64 (value : UInt64) : Reads Reader.uint64 start (Bytes.uint64 value) value :=
  word_map UInt64.ofNat value.toNat_lt UInt64.ofNat_toNat

protected theorem uint32s (values : List UInt32) :
    Reads (Reader.uint32s values.length) start (Bytes.uint32s values) values := by
  -- the words stand at the multiples of four behind the start
  have hwords : ∀ {start : Nat} {content : ByteArray},
      StandsAt (Bytes.uint32s values) content start →
      (List.range values.length).map (fun index =>
        UInt32.ofNat (LittleEndian.read content (start + index * 4) 4)) = values := by
    induction values with
    | nil => intros; rfl
    | cons value rest ih =>
      intro start content hcontent
      rw [Bytes.uint32s_cons] at hcontent
      have hrest := ih hcontent.append_right
      rw [Bytes.size_uint32] at hrest
      rw [List.length_cons, List.range_succ_eq_map, List.map_cons, List.map_map, Nat.zero_mul,
        Nat.add_zero, LittleEndian.read_of_standsAt hcontent.append_left,
        Nat.mod_eq_of_lt (show value.toNat < 256 ^ 4 from value.toNat_lt), UInt32.ofNat_toNat]
      congr 1
      conv_rhs => rw [← hrest]
      refine List.map_congr_left fun index _ => ?_
      rw [Function.comp_apply, Nat.succ_mul, Nat.add_comm (index * 4), Nat.add_assoc]
  intro content hcontent
  rw [Reader.uint32s, Reads.skip (by rw [Bytes.size_uint32s, Nat.mul_comm]) content hcontent]
  simp only [hwords hcontent]

protected theorem int8 (value : Int8) :
    Reads Reader.int8 start (Bytes.uint8 value.toUInt8) value :=
  bind_pure UInt8.toInt8 (Reads.uint8 value.toUInt8)

protected theorem int16 (value : Int16) :
    Reads Reader.int16 start (Bytes.uint16 value.toUInt16) value :=
  bind_pure UInt16.toInt16 (Reads.uint16 value.toUInt16)

protected theorem int32 (value : Int32) :
    Reads Reader.int32 start (Bytes.uint32 value.toUInt32) value :=
  bind_pure UInt32.toInt32 (Reads.uint32 value.toUInt32)

protected theorem int64 (value : Int64) :
    Reads Reader.int64 start (Bytes.uint64 value.toUInt64) value :=
  bind_pure UInt64.toInt64 (Reads.uint64 value.toUInt64)

protected theorem decimal (flags high low middle : UInt32) :
    Reads Reader.decimal start (Bytes.uint32s [flags, high, low, middle])
      (Decimal.ofWords flags high low middle) := by
  simp only [Bytes.uint32s_cons, Bytes.uint32s_nil, ByteArray.append_empty]
  exact .bind (.uint32 flags) (.bind (.uint32 high) (.bind (.uint32 low)
    (bind_pure (Decimal.ofWords flags high low) (.uint32 middle))))

/-! ### Loops -/

/-- Reads as many values as there are drafts.  Whether a draft can be read may depend on where it
stands; `Fits` says so of all drafts that are left. -/
protected theorem times {item : Reader α} {encode : σ → ByteArray} {value : σ → α}
    (Fits : Nat → List σ → Prop)
    (hitem : ∀ start draft rest, Fits start (draft :: rest) →
      Reads item start (encode draft) (value draft) ∧ Fits (start + (encode draft).size) rest)
    {drafts : List σ} (hfits : Fits start drafts) :
    Reads (Reader.times drafts.length item) start (Bytes.concat (drafts.map encode))
      (drafts.map value) :=
  fun content => ReadsIn.times Fits
    (fun start draft rest h => (hitem start draft rest h).imp_left (· content)) hfits

/-- A loop goes on behind the bytes of its next step. -/
theorem iterate_step {step : σ → Reader (σ ⊕ α)} {state state' : σ} {value : α}
    (hstep : Reads (step state) start left (.inl state')) (hleft : 0 < left.size)
    (hrest : Reads (Reader.iterate step state') (start + left.size) right value) :
    Reads (Reader.iterate step state) start (left ++ right) value := by
  intro content hcontent
  have hle := hcontent.append_left.le_size
  rw [Reader.iterate_of_step (hstep content hcontent.append_left) (by omega) hle,
    hrest content hcontent.append_right, ByteArray.size_append, Nat.add_assoc]

theorem iterate_done {step : σ → Reader (σ ⊕ α)} {state : σ} {value : α}
    (hstep : Reads (step state) start bytes (.inr value)) :
    Reads (Reader.iterate step state) start bytes value := by
  intro content hcontent
  exact Reader.iterate_of_done (hstep content hcontent)

theorem whileBelow_step {stop : Nat} {body : σ → Reader σ} {state state' last : σ}
    (hstart : start < stop) (hbody : Reads (body state) start left state') (hleft : 0 < left.size)
    (hrest : Reads (Reader.whileBelow stop body state') (start + left.size) right last) :
    Reads (Reader.whileBelow stop body state) start (left ++ right) last := by
  intro content hcontent
  have hnext := hbody content hcontent.append_left
  have hle := hcontent.append_left.le_size
  rw [Reader.whileBelow_of_lt hstart, Reader.bind_apply, hnext]
  · simp only [hrest content hcontent.append_right, ByteArray.size_append, Nat.add_assoc]
  · intro state next hdone
    rw [hnext] at hdone
    cases hdone
    omega

theorem whileBelow_done {stop : Nat} {body : σ → Reader σ} {state : σ} (hstart : stop ≤ start) :
    Reads (Reader.whileBelow stop body state) start .empty state := by
  intro content _
  rw [Reader.whileBelow_of_le hstart, ByteArray.size_empty, Nat.add_zero]

end Reads

end ManagedPdb
