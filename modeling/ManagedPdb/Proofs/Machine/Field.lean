import ManagedPdb.Proofs.Bytes
import ManagedPdb.Proofs.Machine.Basic
import ManagedPdb.Reader.Field
import Mathlib.Data.List.Basic

/-!
# Fields on a machine

Bytes are taken out of the buffer of a cursor, and a slice of a buffer faults if it is out of
bounds.  It never is, as the position is in the content and the content in the buffer.
-/

namespace ManagedPdb

variable {α β σ : Type}

/-! ### Bytes of a part -/

theorem LittleEndian.read_extract {bytes : ByteArray} {start stop index width : Nat}
    (h : start + index + width ≤ stop) :
    LittleEndian.read (bytes.extract start stop) index width
      = LittleEndian.read bytes (start + index) width := by
  induction width generalizing index with
  | zero => rfl
  | succ width ih =>
    rw [LittleEndian.read, LittleEndian.read, Bytes.byteAt_extract, if_pos (by omega),
      ih (by omega), Nat.add_assoc start index 1]

theorem Guid.ofBytes_extract {bytes : ByteArray} {start stop : Nat} (h : start + 16 ≤ stop) :
    Guid.ofBytes (bytes.extract start stop) 0 = Guid.ofBytes bytes start := by
  have hread : ∀ {index width : Nat}, index + width ≤ 16 →
      LittleEndian.read (bytes.extract start stop) index width
        = LittleEndian.read bytes (start + index) width :=
    fun hindex => LittleEndian.read_extract (by omega)
  have hnode : (List.range 8).foldl (fun node index =>
        node * 256 + (byteAt (bytes.extract start stop) (0 + 8 + index)).toUInt64) 0
      = (List.range 8).foldl (fun node index =>
        node * 256 + (byteAt bytes (start + 8 + index)).toUInt64) 0 := by
    apply List.foldl_ext
    intro node index member
    rw [List.mem_range] at member
    rw [Bytes.byteAt_extract, if_pos (by omega), Nat.zero_add, Nat.add_assoc]
  rw [Guid.ofBytes, Guid.ofBytes, hread (by decide), hread (by decide), hread (by decide), hnode]
  rfl

namespace Reader

variable {content : ByteArray} {position : Nat}

theorem bytes_of_le {count : Nat} (h : position + count ≤ content.size) :
    bytes count content position
      = .done (content.extract position (position + count)) (position + count) := by
  rw [bytes, skip, if_pos h]

theorem bytes_of_lt {count : Nat} (h : content.size < position + count) :
    bytes count content position = .failed (.ofKindAt .unexpectedEnd position) position := by
  rw [bytes, skip, if_neg (by omega)]

/-- A number is read from the bytes of its field. -/
theorem word_eq (width : Nat) :
    word width = (do return LittleEndian.read (← bytes width) 0 width) := by
  funext content position
  rw [bind_apply, word]
  by_cases h : position + width ≤ content.size
  · have hread : LittleEndian.read (content.extract position (position + width)) 0 width
        = LittleEndian.read content position width := LittleEndian.read_extract (by omega)
    rw [if_pos h, bytes_of_le h]
    simp only [pure_apply, hread]
  · rw [if_neg h, bytes_of_lt (by omega)]

theorem guid_eq : guid = (do return Guid.ofBytes (← bytes 16) 0) := by
  funext content position
  rw [bind_apply, guid, skip]
  by_cases h : position + 16 ≤ content.size
  · rw [if_pos h, bytes_of_le h]
    simp only [pure_apply, Guid.ofBytes_extract (Nat.le_refl _)]
  · rw [if_neg h, bytes_of_lt (by omega)]

/-- The 32-bit numbers in the given bytes. -/
def words (count : Nat) (piece : ByteArray) : List UInt32 :=
  (List.range count).map fun index => UInt32.ofNat (LittleEndian.read piece (index * 4) 4)

theorem uint32s_eq (count : Nat) :
    uint32s count = (do return words count (← bytes (count * 4))) := by
  funext content position
  rw [bind_apply, uint32s, skip]
  by_cases h : position + count * 4 ≤ content.size
  · rw [if_pos h, bytes_of_le h]
    simp only [pure_apply, words, Outcome.done.injEq, and_true]
    refine List.map_congr_left fun index member => ?_
    rw [List.mem_range] at member
    rw [LittleEndian.read_extract (by omega)]
  · rw [if_neg h, bytes_of_lt (by omega)]

theorem skip_eq (count : Nat) : skip count = (do
    let start ← Reader.position
    let _ ← bytes count
    return start) := by
  funext content position
  simp only [bind_apply, position_apply]
  by_cases h : position + count ≤ content.size
  · simp only [skip, if_pos h, bytes_of_le h, pure_apply]
  · simp only [skip, if_neg h, bytes_of_lt (Nat.lt_of_not_le h)]

/-- The first zero byte of a part. -/
theorem zeroFrom_extract {start : Nat} (inside : start ≤ content.size) (index : Nat) :
    (zeroFrom (content.extract start content.size) index).map (start + ·)
      = zeroFrom content (start + index) := by
  have hsize : (content.extract start content.size).size = content.size - start := by
    rw [ByteArray.size_extract, Nat.min_self]
  fun_induction zeroFrom (content.extract start content.size) index with
  | case1 index hlt hzero =>
    rw [ByteArray.getElem_extract] at hzero
    rw [zeroFrom, dif_pos (by omega), if_pos hzero]
    rfl
  | case2 index hlt hzero ih =>
    rw [ByteArray.getElem_extract] at hzero
    rw [ih, ← Nat.add_assoc]
    conv_rhs => rw [zeroFrom, dif_pos (by omega), if_neg hzero]
  | case3 index hge =>
    rw [zeroFrom, dif_neg (by omega)]
    rfl

theorem zeroFrom_lt {index stop : Nat} (h : zeroFrom content index = some stop) :
    index ≤ stop ∧ stop < content.size := by
  fun_induction zeroFrom content index with
  | case1 index hlt hzero =>
    cases h
    exact ⟨Nat.le_refl _, hlt⟩
  | case2 index hlt hzero ih =>
    obtain ⟨hle, hstop⟩ := ih h
    exact ⟨by omega, hstop⟩
  | case3 index hge => cases h

end Reader

namespace Machine

/-! ### Taking bytes -/

/-- The next `count` bytes.  They must belong to the content; an end that does not fit into a
machine number is an error like any other end beyond it. -/
def take (count : Nat) : Machine ByteArray := fun cursor =>
  match (Checked.add 64 cursor.position count).filter (· ≤ cursor.length) with
  | none => some (.error (.ofKindAt .unexpectedEnd cursor.position), cursor)
  | some stop =>
    (Checked.slice cursor.buffer cursor.position stop).map fun piece =>
      (.ok piece, { cursor with position := stop })

/-- The next `count` bytes in an array of that size. -/
def takeArray (count : Nat) : Machine ByteArray := do
  let piece ← take count
  Checked.require (piece.size = count)
  return piece

def skip (count : Nat) : Machine Nat := do
  let start ← position
  let _ ← take count
  return start

/-- Moves to the next multiple of `alignment`, which is asserted to be a power of two. -/
def align (alignment : Nat) : Machine Unit := do
  Checked.require (alignment ≠ 0 ∧ alignment &&& (alignment - 1) = 0)
  let start ← position
  let sum ← Checked.add 64 start alignment
  let high ← Checked.sub sum 1
  let low ← Checked.sub alignment 1
  seek (UInt64.ofNat high &&& ~~~ UInt64.ofNat low).toNat

/-! ### Numbers -/

def word (width : Nat) : Machine Nat := return LittleEndian.read (← takeArray width) 0 width

def uint8 : Machine UInt8 := return UInt8.ofNat (← word 1)

def uint16 : Machine UInt16 := return UInt16.ofNat (← word 2)

def uint32 : Machine UInt32 := return UInt32.ofNat (← word 4)

def uint64 : Machine UInt64 := return UInt64.ofNat (← word 8)

def int8 : Machine Int8 := return (← uint8).toInt8

def int16 : Machine Int16 := return (← uint16).toInt16

def int32 : Machine Int32 := return (← uint32).toInt32

def int64 : Machine Int64 := return (← uint64).toInt64

/-- The `count` 32-bit numbers that follow.  A length that does not fit is an error. -/
def uint32s (count : Nat) : Machine (List UInt32) := do
  match Checked.mul 64 count 4 with
  | none => failAt .unexpectedEnd (← position)
  | some length => return Reader.words count (← take length)

def guid : Machine Guid := return Guid.ofBytes (← takeArray 16) 0

def decimal : Machine Decimal := do
  let flags ← uint32
  let high ← uint32
  let low ← uint32
  let middle ← uint32
  return Decimal.ofWords flags high low middle

/-! ### Text -/

def utf8 (bytes : ByteArray) (offset : Nat) : Machine String :=
  match String.fromUTF8? bytes with
  | some text => pure text
  | none => failAt .invalidString offset

def countedString : Machine String := do
  let length ← uint16
  let start ← position
  let content ← take length.toNat
  utf8 content start

/-- The bytes in front of the next zero byte of the content.  A content that ends in front of the
position or behind the buffer is an error here. -/
def terminatedBytes : Machine ByteArray := fun cursor =>
  match (Checked.slice cursor.buffer cursor.position cursor.length).bind (Reader.zeroFrom · 0) with
  | none => some (.error (.ofKindAt .unexpectedEnd cursor.position), cursor)
  | some count => do
    let stop ← Checked.add 64 cursor.position count
    let next ← Checked.add 64 stop 1
    let piece ← Checked.slice cursor.buffer cursor.position stop
    return (.ok piece, { cursor with position := next })

def terminatedString : Machine String := do
  let start ← position
  let content ← terminatedBytes
  utf8 content start

def skipTerminated : Machine Unit := do
  let _ ← terminatedBytes

/-- The text in front of a zero byte at `target`.  The position is set back. -/
def terminatedStringAt (target : Nat) : Machine String := fun cursor =>
  match seek target cursor with
  | none => none
  | some (.error error, cursor) => some (.error error, cursor)
  | some (.ok (), moved) =>
    (terminatedString moved).map fun result =>
      (result.1, { result.2 with position := cursor.position })

def addUnit (units : Array UInt16) : Machine (Array UInt16 ⊕ Array UInt16) := do
  let unit ← uint16
  if unit = 0 then return .inr units else return .inl (units.push unit)

def terminatedUnits : Machine (Array UInt16) := iterate addUnit #[]

def utf16String : Machine String := do
  let start ← position
  let units ← terminatedUnits
  match Utf16.decode units.toList with
  | some text => return text
  | none => failAt .invalidString start

end Machine

/-! ### Agreement -/

theorem Staged.extract_content {buffer : ByteArray} {length start stop : Nat}
    (inside : stop ≤ length) :
    (buffer.extract 0 length).extract start stop = buffer.extract start stop := by
  rw [ByteArray.extract_extract, Nat.zero_add, Nat.zero_add, Nat.min_eq_left inside]

namespace Agrees

variable {buffer : ByteArray} {length start : Nat}

theorem take (staged : Staged buffer length) (count : Nat) :
    Agrees buffer length start (Machine.take count) (Reader.bytes count)
      fun piece stop => stop = start + count ∧ piece.size = count := by
  have hsize := staged.size_content
  have hfits := staged.fits
  have hshort := staged.short
  by_cases h : start + count ≤ length
  · have hstop : (Checked.add 64 start count).filter (· ≤ length) = some (start + count) := by
      rw [Checked.add_eq (by omega), Option.filter_some, if_pos (by simpa using h)]
    refine .of_done ?_ (Reader.bytes_of_le (by omega)) h ⟨rfl, ?_⟩
    · simp only [Machine.take, hstop, Checked.slice_eq (Nat.le_add_right start count)
        (Nat.le_trans h hfits), Option.map_some, Staged.extract_content h]
    · rw [ByteArray.size_extract]
      omega
  · have hstop : (Checked.add 64 start count).filter (· ≤ length) = none := by
      rw [Option.filter_eq_none_iff]
      intro stop hstop
      rw [Checked.add, Option.ite_none_right_eq_some, Option.some_inj] at hstop
      simp only [decide_eq_true_eq]
      omega
    refine .of_failed ?_ (Reader.bytes_of_lt (by omega))
    simp only [Machine.take, hstop]

theorem skip (staged : Staged buffer length) (count : Nat) :
    Agrees buffer length start (Machine.skip count) (Reader.skip count)
      fun value stop => value = start ∧ stop = start + count := by
  rw [Reader.skip_eq]
  exact .position_bind ((take staged count).bind fun _ _ hinside hpost =>
    .pure hinside ⟨rfl, hpost.1⟩)

/-- The next multiple of four is found without overflow, as content is short. -/
theorem align_four (staged : Staged buffer length) (inside : start ≤ length) :
    Agrees buffer length start (Machine.align 4) (Reader.align 4) fun _ stop => start ≤ stop := by
  have hshort := staged.short
  have hup : (Reader.alignUp (UInt64.ofNat start) (UInt64.ofNat 4)).toNat
      = 4 * ((start + 4 - 1) / 4) := @Reader.toNat_alignUp start 2 (by decide) (by omega)
  have hmask : UInt64.ofNat (start + 4 - 1) &&& ~~~ UInt64.ofNat (4 - 1)
      = Reader.alignUp (UInt64.ofNat start) (UInt64.ofNat 4) := by
    rw [Reader.alignUp, UInt64.ofNat_sub (by omega), UInt64.ofNat_add]
    rfl
  have hseek := @seek _ _ start staged (Reader.alignUp (UInt64.ofNat start) (UInt64.ofNat 4)).toNat
  have halign : Agrees buffer length start (Machine.seek
      (Reader.alignUp (UInt64.ofNat start) (UInt64.ofNat 4)).toNat) (Reader.align 4)
      fun _ stop => stop = (Reader.alignUp (UInt64.ofNat start) (UInt64.ofNat 4)).toNat :=
    ⟨hseek.same, hseek.ends⟩
  refine .lift_bind (Checked.require_eq (by decide)) (.look_bind ?_)
  refine .lift_bind (Checked.add_eq (by omega)) (.lift_bind (Checked.sub_eq (by omega)) ?_)
  refine .lift_bind (Checked.sub_eq (by decide)) ?_
  rw [hmask]
  exact halign.mono fun _ stop _ hstop => by omega

end Agrees

/-- A content that goes beyond the buffer, which is never staged, makes a machine fault. -/
example : Machine.take 2 ⟨ByteArray.empty, 2, 0⟩ = none := by rfl

/-! ### Fields of fixed length -/

/-- Agreement of a machine that moves over `width` bytes. -/
abbrev Takes (width : Nat) (machine : Machine α) (reader : Reader α) : Prop :=
  Moves (fun start stop => stop = start + width) machine reader

namespace Takes

variable {width : Nat} {machine : Machine α} {reader : Reader α}

theorem follows (h : Takes width machine reader) : Follows machine reader :=
  h.mono fun hstop => by omega

theorem advances (h : Takes width machine reader) (some_bytes : 0 < width) :
    Advances machine reader :=
  h.mono fun hstop => by omega

theorem of_bytes (width : Nat) (read : ByteArray → α) :
    Takes width (do return read (← Machine.takeArray width))
      (do return read (← Reader.bytes width)) where
  agrees {buffer length start} staged _ := by
    have harray : Agrees buffer length start (Machine.takeArray width) (Reader.bytes width)
        fun _ stop => stop = start + width := by
      rw [← bind_pure (Reader.bytes width)]
      refine (Agrees.take staged width).bind fun piece stop hinside hpost => ?_
      exact .lift_bind (Checked.require_eq hpost.2) (.pure hinside hpost.1)
    exact harray.bind fun _ _ hinside hstop => .pure hinside hstop

theorem word (width : Nat) : Takes width (Machine.word width) (Reader.word width) := by
  rw [Reader.word_eq]
  exact of_bytes width fun piece => LittleEndian.read piece 0 width

theorem uint8 : Takes 1 Machine.uint8 Reader.uint8 := (word 1).map UInt8.ofNat

theorem uint16 : Takes 2 Machine.uint16 Reader.uint16 := (word 2).map UInt16.ofNat

theorem uint32 : Takes 4 Machine.uint32 Reader.uint32 := (word 4).map UInt32.ofNat

theorem uint64 : Takes 8 Machine.uint64 Reader.uint64 := (word 8).map UInt64.ofNat

theorem int8 : Takes 1 Machine.int8 Reader.int8 := uint8.map UInt8.toInt8

theorem int16 : Takes 2 Machine.int16 Reader.int16 := uint16.map UInt16.toInt16

theorem int32 : Takes 4 Machine.int32 Reader.int32 := uint32.map UInt32.toInt32

theorem int64 : Takes 8 Machine.int64 Reader.int64 := uint64.map UInt64.toInt64

theorem guid : Takes 16 Machine.guid Reader.guid := by
  rw [Reader.guid_eq]
  exact of_bytes 16 fun piece => Guid.ofBytes piece 0

end Takes

/-! ### Fields -/

namespace Follows

theorem take (count : Nat) : Follows (Machine.take count) (Reader.bytes count) where
  agrees staged _ := (Agrees.take staged count).mono fun _ stop _ hpost => by omega

/-- What is skipped starts in the content, and so at a place that fits into 32 bits. -/
theorem skip_bind {count : Nat} {next : Nat → Machine α} {next' : Nat → Reader α}
    (rest : ∀ start < 2 ^ 32, Follows (next start) (next' start)) :
    Follows (Machine.skip count >>= next) (Reader.skip count >>= next') := by
  constructor
  intro buffer length start staged inside
  have hshort := staged.short
  refine (Agrees.skip staged count).bind fun value stop hinside hpost => ?_
  refine ((rest value (by omega)).agrees staged hinside).mono fun _ last _ hle => ?_
  omega

theorem uint8 : Follows Machine.uint8 Reader.uint8 := Takes.uint8.follows

theorem uint16 : Follows Machine.uint16 Reader.uint16 := Takes.uint16.follows

theorem uint32 : Follows Machine.uint32 Reader.uint32 := Takes.uint32.follows

theorem uint64 : Follows Machine.uint64 Reader.uint64 := Takes.uint64.follows

theorem int8 : Follows Machine.int8 Reader.int8 := Takes.int8.follows

theorem int16 : Follows Machine.int16 Reader.int16 := Takes.int16.follows

theorem int32 : Follows Machine.int32 Reader.int32 := Takes.int32.follows

theorem int64 : Follows Machine.int64 Reader.int64 := Takes.int64.follows

theorem guid : Follows Machine.guid Reader.guid := Takes.guid.follows

theorem decimal : Follows Machine.decimal Reader.decimal :=
  uint32.bind fun _ => uint32.bind fun _ => uint32.bind fun _ => uint32.bind fun _ => .pure _

theorem align_four : Follows (Machine.align 4) (Reader.align 4) := ⟨Agrees.align_four⟩

/-- The length of so many words fits into a machine number, or they are not all there. -/
theorem uint32s {count : Nat} (h : count < 2 ^ 62) :
    Follows (Machine.uint32s count) (Reader.uint32s count) := by
  rw [Reader.uint32s_eq, Machine.uint32s, Checked.mul_eq (by omega)]
  exact (take _).map _

theorem utf8 (bytes : ByteArray) (offset : Nat) :
    Follows (Machine.utf8 bytes offset) (Reader.utf8 bytes offset) := by
  rw [Machine.utf8, Reader.utf8]
  cases String.fromUTF8? bytes with
  | none => exact .failAt _ _
  | some text => exact .pure text

theorem countedString : Follows Machine.countedString Reader.countedString :=
  uint16.bind fun _ => .position_bind fun start _ => (take _).bind fun content =>
    utf8 content start

end Follows

namespace Agrees

variable {buffer : ByteArray} {length start : Nat}

theorem terminatedBytes (staged : Staged buffer length) (inside : start ≤ length) :
    Agrees buffer length start Machine.terminatedBytes Reader.terminatedBytes
      fun _ stop => start < stop := by
  have hsize := staged.size_content
  have hfits := staged.fits
  have hshort := staged.short
  have hslice : Checked.slice buffer start length
      = some ((buffer.extract 0 length).extract start (buffer.extract 0 length).size) := by
    rw [Checked.slice_eq inside hfits, hsize, Staged.extract_content (Nat.le_refl _)]
  have hinside : start ≤ (buffer.extract 0 length).size := by omega
  have hzero := Reader.zeroFrom_extract hinside 0
  rw [Nat.add_zero] at hzero
  cases hfound : Reader.zeroFrom ((buffer.extract 0 length).extract start
      (buffer.extract 0 length).size) 0 with
  | none =>
    rw [hfound, Option.map_none] at hzero
    refine .of_failed ?_ (by rw [Reader.terminatedBytes, ← hzero])
    simp only [Machine.terminatedBytes, hslice, Option.bind_some, hfound]
  | some count =>
    rw [hfound, Option.map_some] at hzero
    have hlt := (Reader.zeroFrom_lt hzero.symm).2
    have hpiece : Checked.slice buffer start (start + count)
        = some ((buffer.extract 0 length).extract start (start + count)) := by
      rw [Checked.slice_eq (by omega) (by omega), Staged.extract_content (by omega)]
    have hreader : Reader.terminatedBytes (buffer.extract 0 length) start = .done
        ((buffer.extract 0 length).extract start (start + count)) (start + count + 1) := by
      rw [Reader.terminatedBytes, ← hzero]
    refine .of_done ?_ hreader (by omega) (by omega)
    simp only [Machine.terminatedBytes, hslice, Option.bind_some, hfound, Option.bind_eq_bind,
      Checked.add_eq (show start + count < 2 ^ 64 by omega),
      Checked.add_eq (show start + count + 1 < 2 ^ 64 by omega), hpiece]
    rfl

theorem terminatedString (staged : Staged buffer length) (inside : start ≤ length) :
    Agrees buffer length start Machine.terminatedString Reader.terminatedString
      fun _ stop => start < stop := by
  refine .position_bind ((terminatedBytes staged inside).bind fun content stop hinside hstop => ?_)
  exact ((Follows.utf8 content start).agrees staged hinside).mono fun _ _ _ hle => by omega

/-- The position is set back, so that what is read elsewhere does not matter. -/
theorem terminatedStringAt (staged : Staged buffer length) (inside : start ≤ length)
    (target : Nat) :
    Agrees buffer length start (Machine.terminatedStringAt target)
      (Reader.terminatedStringAt target) fun _ stop => stop = start := by
  have hsize := staged.size_content
  by_cases h : target ≤ length
  · have hseek : Machine.seek target ⟨buffer, length, start⟩
        = some (.ok (), ⟨buffer, length, target⟩) := if_pos h
    have hreader : Reader.seek target (buffer.extract 0 length) start = .done () target :=
      Reader.seek_of_le (by omega)
    have hsame := (terminatedString staged h).same
    cases htext : Reader.terminatedString (buffer.extract 0 length) target with
    | done text stop =>
      have hat : Reader.terminatedStringAt target (buffer.extract 0 length) start
          = .done text start := by
        simp only [Reader.terminatedStringAt, hreader, htext]
      rw [Cursor.run_of_done htext] at hsame
      refine .of_done ?_ hat inside rfl
      simp only [Machine.terminatedStringAt, hseek, hsame, Option.map_some]
    | failed error stop =>
      have hat : Reader.terminatedStringAt target (buffer.extract 0 length) start
          = .failed error start := by
        simp only [Reader.terminatedStringAt, hreader, htext]
      rw [Cursor.run_of_failed htext] at hsame
      refine .of_failed ?_ hat
      simp only [Machine.terminatedStringAt, hseek, hsame, Option.map_some]
  · have hseek : Machine.seek target ⟨buffer, length, start⟩
        = some (.error (.ofKindAt .unexpectedEnd target), ⟨buffer, length, start⟩) := if_neg h
    have hreader : Reader.seek target (buffer.extract 0 length) start
        = .failed (.ofKindAt .unexpectedEnd target) start := if_neg (by omega)
    have hat : Reader.terminatedStringAt target (buffer.extract 0 length) start
        = .failed (.ofKindAt .unexpectedEnd target) start := by
      simp only [Reader.terminatedStringAt, hreader]
    refine .of_failed ?_ hat
    simp only [Machine.terminatedStringAt, hseek]

end Agrees

namespace Follows

theorem terminatedString : Follows Machine.terminatedString Reader.terminatedString where
  agrees staged inside := (Agrees.terminatedString staged inside).mono fun _ _ _ hlt => by omega

theorem skipTerminated : Follows Machine.skipTerminated Reader.skipTerminated where
  agrees staged inside := (Agrees.terminatedBytes staged inside).bind fun _ _ hinside hlt =>
    .pure hinside (Nat.le_of_lt hlt)

theorem terminatedStringAt (target : Nat) :
    Follows (Machine.terminatedStringAt target) (Reader.terminatedStringAt target) where
  agrees staged inside := (Agrees.terminatedStringAt staged inside target).mono
    fun _ _ _ hstop => by omega

theorem terminatedUnits : Follows Machine.terminatedUnits Reader.terminatedUnits := by
  refine .iterate (fun units => ?_) #[]
  exact (Takes.uint16.advances (by decide)).bind fun unit =>
    .ite (fun _ => Follows.pure _) fun _ => Follows.pure _

theorem utf16String : Follows Machine.utf16String Reader.utf16String := by
  refine .position_bind fun start _ => terminatedUnits.bind fun units => ?_
  cases Utf16.decode units.toList with
  | none => exact .failAt _ _
  | some text => exact .pure text

end Follows

end ManagedPdb
