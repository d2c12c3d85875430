import ManagedPdb.Proofs.Container.Staging
import ManagedPdb.Proofs.Machine.Field

/-!
# Staging on a machine

Streams are staged in the buffer of the cursor.  A place in the container is a product and a sum in
64 bits, and every read of a page is asserted to be no longer than a page.

What is staged makes two more kinds of agreement.  A machine yields a result (`Yields`) if it gives
that from every cursor, and it serves for a staging (`Serves`) if it also leaves the same cursor.
-/

namespace ManagedPdb

variable {α β σ : Type}

namespace Machine

/-! ### Filling the buffer -/

/-- Makes room for `capacity` bytes in the buffer. -/
def reserve (capacity : Nat) : Machine Unit := fun cursor =>
  (Checked.room capacity 1).map fun _ => (.ok (), cursor.grow capacity)

/-- Takes a slice of the buffer to write to. -/
def target (start stop : Nat) : Machine Unit := fun cursor =>
  (Checked.slice cursor.buffer start stop).map fun _ => (.ok (), cursor)

/-- Announces content of a length, at its start. -/
def restart (length : Nat) : Machine Unit := fun cursor =>
  some (.ok (), { cursor with length, position := 0 })

/-- Changes the buffer, or stops with an error. -/
def onBuffer (change : ByteArray → Option (Except DecodeError ByteArray)) : Machine Unit :=
  fun cursor => (change cursor.buffer).map fun result =>
    match result with
    | .ok buffer => (.ok (), { cursor with buffer })
    | .error error => (.error error, cursor)

/-- Copies a piece to a slice of the buffer. -/
def write (start : Nat) (piece : ByteArray) : Machine Unit := onBuffer fun buffer => do
  let _ ← Checked.slice buffer start (start + piece.size)
  return .ok (Bytes.overwrite buffer start piece)

/-- Prepares for content of a length. -/
def stage (length : Nat) : Machine Unit := do
  reserve length
  restart length
  target 0 length

/-- Replaces the content by the `count` bytes of a source from `start` on. -/
def fill (source : ByteArray) (start count : Nat) : Machine Unit := do
  stage count
  write 0 (← ofExcept (Header.bytesOf source start count))

/-- Moves to `stop`, which then belongs to the content. -/
def extend (stop : Nat) : Machine Unit := fun cursor =>
  some (.ok (), { cursor with length := max cursor.length stop, position := stop })

/-- Puts `count` bytes behind the position, which moves behind them. -/
def append (count : Nat) (read : Option (Except DecodeError ByteArray)) : Machine Unit := do
  let start ← position
  let stop ← Checked.add 64 start count
  reserve stop
  target start stop
  write start (← ofExcept (← read))
  extend stop

/-! ### Pages and streams -/

/-- The `count` bytes from `offset` in a page on. -/
def readPage (file : PageFile) (page : UInt32) (offset count : Nat) :
    Option (Except DecodeError ByteArray) := do
  let first ← Checked.mul 64 page.toNat file.pageSize.toNat
  let start ← Checked.add 64 first offset
  Checked.require (count ≤ file.pageSize.toNat)
  return Header.bytesOf file.source start count

/-- Reads what is missing behind the `written` of `length` bytes to the first bytes of a buffer,
from `inPage` in the page with number `page` of a stream on. -/
def readRest (stream : StreamDescriptor) (file : PageFile) (position : UInt32) (length : Nat)
    (buffer : ByteArray) (written page inPage : Nat) : Option (Except DecodeError ByteArray) :=
  if written < length then do
    let count := min (← Checked.sub file.pageSize.toNat inPage) (← Checked.sub length written)
    match stream.pages[page]? with
    | none => return .error (.ofKind (.streamOutOfBounds position length))
    | some number =>
      let next ← Checked.add 64 written count
      Checked.require (written ≤ next ∧ next ≤ length)
      match ← readPage file number inPage count with
      | .error error =>
        return .error (error.locate (← Checked.mul 64 number.toNat file.pageSize.toNat))
      | .ok piece =>
        -- a read of no bytes would be repeated for ever
        if written < next then
          readRest stream file position length (Bytes.overwrite buffer written piece) next
            (← Checked.add 64 page 1) 0
        else none
  else return .ok buffer
termination_by length - written

/-- Reads `length` bytes of a stream from `position` on to the first bytes of a buffer. -/
def readStream (stream : StreamDescriptor) (file : PageFile) (position : UInt32) (length : Nat)
    (buffer : ByteArray) : Option (Except DecodeError ByteArray) := do
  let stop ← Checked.add 64 position.toNat length
  if stream.length.toNat < stop then
    return .error (.ofKind (.streamOutOfBounds position length))
  else if position = stream.length then
    return .ok buffer
  else
    readRest stream file position length buffer 0
      (← Checked.div position.toNat file.pageSize.toNat)
      (← Checked.mod position.toNat file.pageSize.toNat)

def load (stream : StreamDescriptor) (file : PageFile) : Machine Unit := do
  stage stream.length.toNat
  onBuffer (readStream stream file 0 stream.length.toNat)

end Machine

/-! ### What machines yield -/

/-- From every cursor, the machine gives the result. -/
def Yields (machine : Machine α) (result : Except DecodeError α) : Prop :=
  ∀ cursor, ∃ cursor', machine cursor = some (result, cursor')

namespace Yields

variable {machine : Machine α} {result : Except DecodeError α}

protected theorem pure (value : α) : Yields (pure value) (.ok value) := fun cursor => ⟨cursor, rfl⟩

protected theorem bind {next : α → Machine β} {next' : α → Except DecodeError β}
    (first : Yields machine result)
    (second : ∀ value, result = .ok value → Yields (next value) (next' value)) :
    Yields (machine >>= next) (result >>= next') := by
  intro cursor
  obtain ⟨cursor', hfirst⟩ := first cursor
  cases result with
  | error error => exact ⟨cursor', Machine.bind_of_error hfirst⟩
  | ok value =>
    obtain ⟨last, hsecond⟩ := second value rfl cursor'
    exact ⟨last, (Machine.bind_of_ok hfirst).trans hsecond⟩

theorem lift_bind {operation : Option β} {value : β} {next : β → Machine α}
    (h : operation = some value) (rest : Yields (next value) result) :
    Yields ((liftM operation : Machine β) >>= next) result := by
  rwa [Machine.lift_bind h]

end Yields

/-- The result of a staging as that of a machine.  Some cursor stands for the one that is dropped
with an error. -/
def Staging.settle (dropped : Cursor) :
    Except DecodeError (α × Cursor) → Except DecodeError α × Cursor
  | .ok found => (.ok found.1, found.2)
  | .error error => (.error error, dropped)

/-- From every cursor, the machine does what the staging does. -/
def Serves (machine : Machine α) (staging : Staging α) : Prop :=
  ∀ cursor, ∃ dropped, machine cursor = some (Staging.settle dropped (staging cursor))

namespace Serves

variable {machine machine' : Machine α} {staging staging' : Staging α}

protected theorem pure (value : α) : Serves (pure value) (pure value) := fun cursor => ⟨cursor, rfl⟩

theorem lift (result : Except DecodeError α) :
    Serves (Machine.ofExcept result) (liftM result : Staging α) := by
  intro cursor
  cases result <;> exact ⟨cursor, rfl⟩

/-- One step after the other; what the staging may give is known in the second one. -/
protected theorem bind {next : α → Machine β} {next' : α → Staging β}
    (first : Serves machine staging)
    (second : ∀ value, (∃ cursor, staging.run' cursor = .ok value) →
      Serves (next value) (next' value)) :
    Serves (machine >>= next) (staging >>= next') := by
  intro cursor
  obtain ⟨dropped, hfirst⟩ := first cursor
  have hbind : (staging >>= next') cursor = staging cursor >>= fun found => next' found.1 found.2 :=
    rfl
  rw [hbind]
  cases hstaging : staging cursor with
  | error error =>
    rw [hstaging] at hfirst
    exact ⟨dropped, Machine.bind_of_error hfirst⟩
  | ok found =>
    rw [hstaging] at hfirst
    have hfound : staging.run' cursor = .ok found.1 := congrArg (Except.map Prod.fst) hstaging
    obtain ⟨last, hsecond⟩ := second found.1 ⟨cursor, hfound⟩ found.2
    exact ⟨last, (Machine.bind_of_ok hfirst).trans hsecond⟩

theorem throw (error : DecodeError) : Serves (Machine.fail error) (throw error : Staging α) :=
  fun cursor => ⟨cursor, rfl⟩

theorem throw_bind (error : DecodeError) {next : α → Machine β} {next' : α → Staging β} :
    Serves (Machine.fail error >>= next) ((MonadExcept.throw error : Staging α) >>= next') :=
  fun cursor => ⟨cursor, rfl⟩

theorem map (h : Serves machine staging) (f : α → β) :
    Serves (do return f (← machine)) (do return f (← staging)) :=
  h.bind fun value _ => .pure (f value)

theorem foldlM {step : σ → β → Machine σ} {step' : σ → β → Staging σ}
    (h : ∀ state item, Serves (step state item) (step' state item)) (items : List β) (state : σ) :
    Serves (items.foldlM step state) (items.foldlM step' state) := by
  induction items generalizing state with
  | nil => exact .pure state
  | cons item items ih => exact (h state item).bind fun state _ => ih state

theorem ite {condition : Prop} [Decidable condition]
    (htrue : condition → Serves machine staging) (hfalse : ¬ condition → Serves machine' staging') :
    Serves (if condition then machine else machine')
      (if condition then staging else staging') := by
  by_cases h : condition
  · rw [if_pos h, if_pos h]
    exact htrue h
  · rw [if_neg h, if_neg h]
    exact hfalse h

theorem lift_bind {operation : Option β} {value : β} {next : β → Machine α}
    (h : operation = some value) (rest : Serves (next value) staging) :
    Serves ((liftM operation : Machine β) >>= next) staging := by
  rwa [Machine.lift_bind h]

end Serves

/-! ### Pages and streams -/

namespace Machine

theorem readPage_eq {file : PageFile} {offset count : Nat} (page : UInt32)
    (hoffset : offset < 2 ^ 32) (hcount : count ≤ file.pageSize.toNat) :
    readPage file page offset count = some (file.read page offset count) := by
  have hpage := page.toNat_lt
  have hsize := file.pageSize.toNat_lt
  have hfirst : page.toNat * file.pageSize.toNat ≤ (2 ^ 32 - 1) * (2 ^ 32 - 1) :=
    Nat.mul_le_mul (by omega) (by omega)
  rw [readPage, Checked.mul_eq (by omega)]
  simp only [Option.bind_eq_bind, Option.bind_some]
  rw [Checked.add_eq (by omega), Checked.require_eq hcount]
  simp only [Option.bind_some, Header.bytesOf, PageFile.read, UInt32.toNat_zero, Nat.mul_zero,
    Nat.zero_add]
  rfl

variable {stream : StreamDescriptor} {file : PageFile}

/-- The rest of a stream is read as its pages are written.  At the start of each page, all of the
stream in front of that page is there. -/
theorem readRest_eq (paged : 0 < file.pageSize.toNat) {length : Nat} (short : length < 2 ^ 32)
    {count page written : Nat} {buffer : ByteArray} (some_bytes : 0 < length)
    (last : page + count = (length - 1) / file.pageSize.toNat + 1)
    (so_far : written = min length (page * file.pageSize.toNat)) :
    readRest stream file 0 length buffer written page 0
      = some (stream.writePages file length buffer count page) := by
  induction count generalizing page written buffer with
  | zero =>
    -- behind the last page, the loop has nothing left to read
    have hall : length - 1 < page * file.pageSize.toNat :=
      (Nat.div_lt_iff_lt_mul paged).mp (by omega)
    rw [readRest, if_neg (by omega)]
    rfl
  | succ count ih =>
    have hpage : page * file.pageSize.toNat ≤ length - 1 :=
      (Nat.le_div_iff_mul_le paged).mp (by omega)
    have hsmall : page ≤ page * file.pageSize.toNat := Nat.le_mul_of_pos_right page paged
    obtain rfl : written = page * file.pageSize.toNat := by omega
    rw [readRest, if_pos (by omega), Checked.sub_eq (by omega), Checked.sub_eq (by omega),
      StreamDescriptor.writePages]
    simp only [Option.bind_eq_bind, Option.bind_some, Nat.sub_zero]
    cases stream.pages[page]? with
    | none => rfl
    | some number =>
      have hcount : min file.pageSize.toNat (length - page * file.pageSize.toNat)
          = min length (page * file.pageSize.toNat + file.pageSize.toNat)
            - page * file.pageSize.toNat := by
        omega
      have hpageSize := file.pageSize.toNat_lt
      have hnumber := number.toNat_lt
      have hplace : number.toNat * file.pageSize.toNat ≤ (2 ^ 32 - 1) * (2 ^ 32 - 1) :=
        Nat.mul_le_mul (by omega) (by omega)
      rw [hcount, Checked.add_eq (by omega)]
      simp only [Option.bind_some]
      rw [Checked.require_eq (by omega), readPage_eq number (by decide) (by omega)]
      simp only [Option.bind_some]
      cases file.read number 0 (min length (page * file.pageSize.toNat + file.pageSize.toNat)
          - page * file.pageSize.toNat) with
      | error error =>
        simp only [Checked.mul_eq (show number.toNat * file.pageSize.toNat < 2 ^ 64 by omega)]
        rfl
      | ok piece =>
        have hnext : (page + 1) * file.pageSize.toNat
            = page * file.pageSize.toNat + file.pageSize.toNat := Nat.succ_mul ..
        simp only [Checked.add_eq (show page + 1 < 2 ^ 64 by omega), Option.bind_some]
        rw [if_pos (by omega)]
        exact ih (by omega) (by omega)

theorem readStream_eq (paged : 0 < file.pageSize.toNat) (buffer : ByteArray) :
    readStream stream file 0 stream.length.toNat buffer
      = some (stream.writePages file stream.length.toNat buffer (stream.pageCount file) 0) := by
  have hlength := stream.length.toNat_lt
  rw [readStream, UInt32.toNat_zero, Checked.add_eq (by omega)]
  simp only [Option.bind_eq_bind, Option.bind_some, Nat.zero_add, Nat.lt_irrefl, if_false]
  rw [StreamDescriptor.pageCount]
  rcases Nat.eq_zero_or_pos stream.length.toNat with hzero | hpos
  · have hempty : (0 : UInt32) = stream.length := by
      rw [← UInt32.toNat_inj, hzero]
      rfl
    rw [if_pos hempty, if_pos hzero]
    rfl
  · have hsome : (0 : UInt32) ≠ stream.length := by
      intro heq
      rw [← heq] at hpos
      exact absurd hpos (by decide)
    rw [if_neg hsome, if_neg (by omega), Checked.div_eq paged, Checked.mod_eq paged]
    simp only [Option.bind_some, Nat.zero_div, Nat.zero_mod]
    exact readRest_eq paged hlength hpos (by omega) (by omega)

/-- A whole stream is read to a buffer of its own. -/
theorem readStream_zeros (paged : 0 < file.pageSize.toNat) :
    readStream stream file 0 stream.length.toNat (Bytes.zeros stream.length.toNat)
      = some (stream.content file) := by
  have hroom : stream.length.toNat ≤ (Bytes.zeros stream.length.toNat).size := by
    rw [Bytes.size_zeros]
  rw [readStream_eq paged, StreamDescriptor.writePages_all paged hroom]
  cases hcontent : stream.content file with
  | error error => rfl
  | ok bytes =>
    have hsize : bytes.size = stream.length.toNat :=
      StreamDescriptor.size_of_read_eq_ok paged hcontent
    have hrest : (Bytes.zeros stream.length.toNat).extract bytes.size
        (Bytes.zeros stream.length.toNat).size = ByteArray.empty := by
      rw [ByteArray.extract_eq_empty_iff, Bytes.size_zeros]
      omega
    show some (Except.ok (bytes ++ _)) = _
    rw [hrest, ByteArray.append_empty]

theorem reserve_eq {capacity : Nat} (short : capacity < 2 ^ 33) (cursor : Cursor) :
    reserve capacity cursor = some (.ok (), cursor.grow capacity) := by
  rw [reserve, Checked.room_eq (by omega), Option.map_some]

theorem target_eq {cursor : Cursor} {start stop : Nat} (order : start ≤ stop)
    (inside : stop ≤ cursor.buffer.size) : target start stop cursor = some (.ok (), cursor) := by
  rw [target, Checked.slice_eq order inside, Option.map_some]

theorem stage_eq {length : Nat} (short : length < 2 ^ 32) (cursor : Cursor) :
    stage length cursor = some (.ok (), ⟨(cursor.grow length).buffer, length, 0⟩) := by
  have hrestart : restart length (cursor.grow length)
      = some (.ok (), ⟨(cursor.grow length).buffer, length, 0⟩) := rfl
  rw [stage, bind_of_ok (reserve_eq (by omega) cursor), bind_of_ok hrestart]
  exact target_eq (Nat.zero_le _) (cursor.size_grow length)

theorem write_eq {cursor : Cursor} {start : Nat} {piece : ByteArray}
    (room : start + piece.size ≤ cursor.buffer.size) :
    write start piece cursor
      = some (.ok (), { cursor with buffer := Bytes.overwrite cursor.buffer start piece }) := by
  rw [write, onBuffer, Checked.slice_eq (Nat.le_add_right start piece.size) room]
  rfl

end Machine

variable {stream : StreamDescriptor} {file : PageFile}

namespace Serves

theorem load (paged : 0 < file.pageSize.toNat) :
    Serves (Machine.load stream file) (stream.load file) := by
  intro cursor
  refine ⟨⟨(cursor.grow stream.length.toNat).buffer, stream.length.toNat, 0⟩, ?_⟩
  rw [Machine.load, Machine.bind_of_ok (Machine.stage_eq stream.length.toNat_lt cursor),
    Machine.onBuffer, Machine.readStream_eq paged, Option.map_some]
  unfold StreamDescriptor.load StreamDescriptor.pageCount
  dsimp only
  cases stream.writePages file stream.length.toNat (cursor.grow stream.length.toNat).buffer
    (if stream.length.toNat = 0 then 0 else (stream.length.toNat - 1) / file.pageSize.toNat + 1) 0
    <;> rfl

end Serves

theorem StreamDescriptor.staged_of_load (paged : 0 < file.pageSize.toNat) {cursor : Cursor}
    {found : Unit × Cursor} (h : stream.load file cursor = .ok found) :
    ∃ buffer length, found.2 = ⟨buffer, length, 0⟩ ∧ Staged buffer length := by
  rw [load_eq paged] at h
  cases hcontent : stream.content file with
  | error error =>
    rw [hcontent] at h
    cases h
  | ok bytes =>
    rw [hcontent] at h
    cases h
    have hsize : bytes.size = stream.length.toNat := size_of_read_eq_ok paged hcontent
    have hlength := stream.length.toNat_lt
    refine ⟨_, _, rfl, ?_, hlength⟩
    rw [ByteArray.size_append]
    omega

namespace Serves

/-- A stream is staged, and then the machine reads it. -/
theorem stage (paged : 0 < file.pageSize.toNat) {machine : Machine α} {reader : Reader α}
    (h : Matches machine reader) :
    Serves (do Machine.load stream file; machine) (stream.stage file reader) := by
  intro cursor
  obtain ⟨dropped, hload⟩ := @Serves.load stream file paged cursor
  have hstage : stream.stage file reader cursor
      = stream.load file cursor >>= fun found => Staging.read reader found.2 := rfl
  rw [hstage]
  cases hfound : stream.load file cursor with
  | error error =>
    rw [hfound] at hload
    exact ⟨dropped, Machine.bind_of_error hload⟩
  | ok found =>
    rw [hfound] at hload
    obtain ⟨buffer, length, hcursor, staged⟩ := StreamDescriptor.staged_of_load paged hfound
    have hsame := (h.agrees staged (Nat.zero_le _)).same
    have hread : ∃ dropped, machine found.2
        = some (Staging.settle dropped (Staging.read reader found.2)) := by
      rw [hcursor, hsame, Staging.read]
      generalize Cursor.run ⟨buffer, length, 0⟩ reader = result
      obtain ⟨result, last⟩ := result
      cases result <;> exact ⟨last, rfl⟩
    obtain ⟨last, hlast⟩ := hread
    exact ⟨last, (Machine.bind_of_ok hload).trans hlast⟩

end Serves

end ManagedPdb
