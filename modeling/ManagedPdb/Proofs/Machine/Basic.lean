import ManagedPdb.Cursor
import ManagedPdb.Proofs.Reader

/-!
# Decoding on a machine

The decoders count in natural numbers, which never get too large, and look for bytes and entries
that may not be there.  On a machine numbers have a width: positions and counts of bytes have 64
bits.  A program stops with a fault where a result does not fit, where a divisor is zero, where a
place is out of bounds, where an assertion does not hold or where a list is announced that no memory
can hold; and a loop that never ends is no better.  The operations in `Checked` and the computations
in `Machine` give nothing in all these cases.

The modules of this directory write every decoder a second time, in the operations of a machine on
a cursor.  A machine agrees with a reader (`Agrees`) if on a cursor it does what the reader does on
the content.  This says at once that it does not fault.
-/

namespace ManagedPdb

variable {α β σ : Type}

/-! ### Operations that may fault -/

namespace Checked

/-- The sum, if it fits into `bits` bits. -/
def add (bits left right : Nat) : Option Nat :=
  if left + right < 2 ^ bits then some (left + right) else none

def sub (left right : Nat) : Option Nat := if right ≤ left then some (left - right) else none

/-- The difference of numbers without a sign. -/
def subUInt32 (left right : UInt32) : Option UInt32 :=
  if right ≤ left then some (left - right) else none

def mul (bits left right : Nat) : Option Nat :=
  if left * right < 2 ^ bits then some (left * right) else none

def div (left right : Nat) : Option Nat := if right = 0 then none else some (left / right)

def mod (left right : Nat) : Option Nat := if right = 0 then none else some (left % right)

/-- The bytes from `start` to `stop`. -/
def slice (bytes : ByteArray) (start stop : Nat) : Option ByteArray :=
  if start ≤ stop ∧ stop ≤ bytes.size then some (bytes.extract start stop) else none

/-- An assertion. -/
def require (condition : Prop) [Decidable condition] : Option Unit :=
  if condition then some () else none

/-- Room for `count` values of `size` bytes each.  No list may take half of all addresses. -/
def room (count size : Nat) : Option Unit := require (count * size < 2 ^ 63)

variable {bits left right start stop : Nat}

theorem add_eq (h : left + right < 2 ^ bits) : add bits left right = some (left + right) :=
  if_pos h

theorem sub_eq (h : right ≤ left) : sub left right = some (left - right) := if_pos h

theorem mul_eq (h : left * right < 2 ^ bits) : mul bits left right = some (left * right) :=
  if_pos h

theorem div_eq (h : 0 < right) : div left right = some (left / right) :=
  if_neg (Nat.pos_iff_ne_zero.mp h)

theorem mod_eq (h : 0 < right) : mod left right = some (left % right) :=
  if_neg (Nat.pos_iff_ne_zero.mp h)

theorem slice_eq {bytes : ByteArray} (order : start ≤ stop) (inside : stop ≤ bytes.size) :
    slice bytes start stop = some (bytes.extract start stop) := if_pos ⟨order, inside⟩

theorem require_eq {condition : Prop} [Decidable condition] (h : condition) :
    require condition = some () := if_pos h

theorem room_eq {count size : Nat} (h : count * size < 2 ^ 63) : room count size = some () :=
  if_pos h

end Checked

/-- A computation on a cursor.  It gives nothing if it faults, and otherwise a value or an error. -/
def Machine (α : Type) : Type := Cursor → Option (Except DecodeError α × Cursor)

namespace Machine

@[always_inline]
instance : Monad Machine where
  pure value := fun cursor => some (.ok value, cursor)
  bind machine next := fun cursor =>
    match machine cursor with
    | some (.ok value, cursor) => next value cursor
    | some (.error error, cursor) => some (.error error, cursor)
    | none => none

/-- An operation that may fault as a step of a computation. -/
instance : MonadLift Option Machine where
  monadLift result := fun cursor => result.map fun value => (.ok value, cursor)

def fail (error : DecodeError) : Machine α := fun cursor => some (.error error, cursor)

/-- Stops with a cause at an offset. -/
def failAt (kind : ErrorKind) (offset : Nat) : Machine α := fail (.ofKindAt kind offset)

/-- Goes on with a value that was found elsewhere, or stops with the error found there. -/
def ofExcept : Except DecodeError α → Machine α
  | .ok value => pure value
  | .error error => fail error

def position : Machine Nat := fun cursor => some (.ok cursor.position, cursor)

/-- The length of the content. -/
def size : Machine Nat := fun cursor => some (.ok cursor.length, cursor)

/-- Moves to `target`, which may be the end of the content but not beyond it. -/
def seek (target : Nat) : Machine Unit := fun cursor =>
  if target ≤ cursor.length then some (.ok (), { cursor with position := target })
  else some (.error (.ofKindAt .unexpectedEnd target), cursor)

/-! ### Loops -/

/-- Adds `count` more values to those `before`. -/
def timesOnto (item : Machine α) (before : Array α) : (count : Nat) → Machine (List α)
  | 0 => return before.toList
  | count + 1 => do
    let value ← item
    timesOnto item (before.push value) count

/-- Does the same `count` times. -/
def times (count : Nat) (item : Machine α) : Machine (List α) := timesOnto item #[] count

/-- Repeats `step` on a state until it gives a result.  A step that gives a new state without coming
closer to the end would be repeated for ever, which counts as a fault. -/
def iterate (step : σ → Machine (σ ⊕ α)) (state : σ) (cursor : Cursor) :
    Option (Except DecodeError α × Cursor) :=
  match step state cursor with
  | none => none
  | some (.error error, stopped) => some (.error error, stopped)
  | some (.ok (.inr value), stopped) => some (.ok value, stopped)
  | some (.ok (.inl state), next) =>
    if next.length - next.position < cursor.length - cursor.position then
      iterate step state next
    else none
termination_by cursor.length - cursor.position

/-- Repeats `body` on a state as long as the position is below `stop`. -/
def whileBelow (stop : Nat) (body : σ → Machine σ) (state : σ) : Machine σ :=
  iterate (fun state => do
    if (← position) < stop then return .inl (← body state) else return .inr state) state

theorem bind_apply (machine : Machine α) (next : α → Machine β) (cursor : Cursor) :
    (machine >>= next) cursor =
      match machine cursor with
      | some (.ok value, cursor) => next value cursor
      | some (.error error, cursor) => some (.error error, cursor)
      | none => none := rfl

theorem bind_of_ok {machine : Machine α} {next : α → Machine β} {cursor cursor' : Cursor}
    {value : α} (h : machine cursor = some (.ok value, cursor')) :
    (machine >>= next) cursor = next value cursor' := by
  rw [bind_apply, h]

theorem bind_of_error {machine : Machine α} {next : α → Machine β} {cursor cursor' : Cursor}
    {error : DecodeError} (h : machine cursor = some (.error error, cursor')) :
    (machine >>= next) cursor = some (.error error, cursor') := by
  rw [bind_apply, h]

theorem lift_bind {result : Option α} {value : α} (h : result = some value)
    (next : α → Machine β) : ((liftM result : Machine α) >>= next) = next value := by
  rw [h]
  rfl

end Machine

theorem Cursor.run_of_done {cursor : Cursor} {reader : Reader α} {value : α} {stop : Nat}
    (h : reader cursor.content cursor.position = .done value stop) :
    cursor.run reader = (.ok value, { cursor with position := stop }) := by
  rw [run, h]

theorem Cursor.run_of_failed {cursor : Cursor} {reader : Reader α} {error : DecodeError}
    {stop : Nat} (h : reader cursor.content cursor.position = .failed error stop) :
    cursor.run reader = (.error error, { cursor with position := stop }) := by
  rw [run, h]

/-! ### Agreement -/

/-- A buffer with a stream in front, as it is when a stream has been staged. -/
structure Staged (buffer : ByteArray) (length : Nat) : Prop where
  fits : length ≤ buffer.size
  short : length < 2 ^ 32

theorem Staged.size_content {buffer : ByteArray} {length : Nat} (staged : Staged buffer length) :
    (buffer.extract 0 length).size = length := by
  rw [ByteArray.size_extract]
  have hfits := staged.fits
  omega

/-- From `start` on, the machine does on the cursor what the reader does on the content.  If this
gives a value, the position is still in the content, and `post` holds. -/
structure Agrees (buffer : ByteArray) (length start : Nat) (machine : Machine α) (reader : Reader α)
    (post : α → Nat → Prop) : Prop where
  same : machine ⟨buffer, length, start⟩ = some (Cursor.run ⟨buffer, length, start⟩ reader)
  ends : ∀ {value stop}, reader (buffer.extract 0 length) start = .done value stop →
    stop ≤ length ∧ post value stop

namespace Agrees

variable {buffer : ByteArray} {length start : Nat} {machine : Machine α} {reader : Reader α}
  {post mid : α → Nat → Prop} {post' : β → Nat → Prop}

/-- What has to be shown for one step whose outcome is known. -/
theorem of_done {value : α} {stop : Nat}
    (hmachine : machine ⟨buffer, length, start⟩ = some (.ok value, ⟨buffer, length, stop⟩))
    (hreader : reader (buffer.extract 0 length) start = .done value stop) (inside : stop ≤ length)
    (hpost : post value stop) : Agrees buffer length start machine reader post where
  same := by
    have hrun : Cursor.run ⟨buffer, length, start⟩ reader = (.ok value, ⟨buffer, length, stop⟩) :=
      Cursor.run_of_done hreader
    rw [hmachine, hrun]
  ends hdone := by
    rw [hreader] at hdone
    cases hdone
    exact ⟨inside, hpost⟩

theorem of_failed {error : DecodeError} {stop : Nat}
    (hmachine : machine ⟨buffer, length, start⟩ = some (.error error, ⟨buffer, length, stop⟩))
    (hreader : reader (buffer.extract 0 length) start = .failed error stop) :
    Agrees buffer length start machine reader post where
  same := by
    have hrun : Cursor.run ⟨buffer, length, start⟩ reader
        = (.error error, ⟨buffer, length, stop⟩) := Cursor.run_of_failed hreader
    rw [hmachine, hrun]
  ends hdone := by
    rw [hreader] at hdone
    cases hdone

theorem mono (h : Agrees buffer length start machine reader mid)
    (weaker : ∀ value stop, stop ≤ length → mid value stop → post value stop) :
    Agrees buffer length start machine reader post where
  same := h.same
  ends hdone := ⟨(h.ends hdone).1, weaker _ _ (h.ends hdone).1 (h.ends hdone).2⟩

/-- What is known of the value that the reader gives. -/
theorem and {fact : α → Prop} (h : Agrees buffer length start machine reader post)
    (known : ∀ {value stop}, reader (buffer.extract 0 length) start = .done value stop →
      fact value) :
    Agrees buffer length start machine reader fun value stop => post value stop ∧ fact value where
  same := h.same
  ends hdone := ⟨(h.ends hdone).1, (h.ends hdone).2, known hdone⟩

protected theorem pure {value : α} (inside : start ≤ length) (h : post value start) :
    Agrees buffer length start (pure value) (pure value) post :=
  .of_done rfl rfl inside h

theorem fail (error : DecodeError) :
    Agrees buffer length start (Machine.fail error) (Reader.fail error) post :=
  .of_failed rfl rfl

/-- One step after the other: the second one starts where the first one stops. -/
protected theorem bind {next : α → Machine β} {next' : α → Reader β}
    (first : Agrees buffer length start machine reader mid)
    (second : ∀ value stop, stop ≤ length → mid value stop →
      Agrees buffer length stop (next value) (next' value) post') :
    Agrees buffer length start (machine >>= next) (reader >>= next') post' := by
  have hsame := first.same
  -- the outcome of the reader is that of the machine, and says how both go on
  cases hreader : reader (buffer.extract 0 length) start with
  | failed error stop =>
    rw [Cursor.run_of_failed hreader] at hsame
    exact .of_failed (Machine.bind_of_error hsame) (by rw [Reader.bind_apply, hreader])
  | done value stop =>
    rw [Cursor.run_of_done hreader] at hsame
    obtain ⟨hinside, hmid⟩ := first.ends hreader
    have hsecond := second value stop hinside hmid
    refine ⟨?_, fun hdone => hsecond.ends ?_⟩
    · rw [Machine.bind_of_ok hsame, hsecond.same]
      simp only [Cursor.run, Cursor.content, Reader.bind_apply, hreader]
    · rwa [Reader.bind_apply, hreader] at hdone

/-- An operation that does not fault. -/
theorem lift_bind {result : Option β} {value : β} {next : β → Machine α}
    (h : result = some value) (rest : Agrees buffer length start (next value) reader post) :
    Agrees buffer length start ((liftM result : Machine β) >>= next) reader post := by
  rwa [Machine.lift_bind h]

theorem fail_bind (error : DecodeError) {next : α → Machine β} {next' : α → Reader β} :
    Agrees buffer length start (Machine.fail error >>= next) (Reader.fail error >>= next') post' :=
  .of_failed rfl rfl

theorem failAt_bind (kind : ErrorKind) (offset : Nat) {next : α → Machine β}
    {next' : α → Reader β} : Agrees buffer length start (Machine.failAt kind offset >>= next)
      (Reader.failAt kind offset >>= next') post' :=
  .fail_bind _

theorem position_bind {next : Nat → Machine α} {next' : Nat → Reader α}
    (rest : Agrees buffer length start (next start) (next' start) post) :
    Agrees buffer length start (Machine.position >>= next) (Reader.position >>= next') post :=
  ⟨rest.same, rest.ends⟩

/-- A machine may look at the position where the reader need not. -/
theorem look_bind {next : Nat → Machine α}
    (rest : Agrees buffer length start (next start) reader post) :
    Agrees buffer length start (Machine.position >>= next) reader post :=
  ⟨rest.same, rest.ends⟩

theorem size_bind (staged : Staged buffer length) {next : Nat → Machine α} {next' : Nat → Reader α}
    (rest : Agrees buffer length start (next length) (next' length) post) :
    Agrees buffer length start (Machine.size >>= next) (Reader.size >>= next') post := by
  have hsize : ∀ position, (Reader.size >>= next') (buffer.extract 0 length) position
      = next' length (buffer.extract 0 length) position := by
    intro position
    simp only [Reader.bind_apply, Reader.size, staged.size_content]
  refine ⟨?_, fun hdone => rest.ends (by rwa [hsize] at hdone)⟩
  have hrun := rest.same
  unfold Cursor.run Cursor.content at hrun ⊢
  simp only [hsize]
  exact hrun

theorem seek (staged : Staged buffer length) (target : Nat) :
    Agrees buffer length start (Machine.seek target) (Reader.seek target)
      fun _ stop => stop = target := by
  by_cases h : target ≤ length
  · refine .of_done (if_pos h) (Reader.seek_of_le ?_) h rfl
    rwa [staged.size_content]
  · refine .of_failed (if_neg h) (if_neg ?_)
    rwa [staged.size_content]

theorem ite {condition : Prop} [Decidable condition] {machine' : Machine α} {reader' : Reader α}
    (htrue : condition → Agrees buffer length start machine reader post)
    (hfalse : ¬ condition → Agrees buffer length start machine' reader' post) :
    Agrees buffer length start (if condition then machine else machine')
      (if condition then reader else reader') post := by
  by_cases h : condition
  · rw [if_pos h, if_pos h]
    exact htrue h
  · rw [if_neg h, if_neg h]
    exact hfalse h

/-! ### Loops -/

theorem timesOnto (inv : Nat → Prop) {item : Machine α} {item' : Reader α}
    (hitem : ∀ start ≤ length, inv start →
      Agrees buffer length start item item' fun _ stop => inv stop)
    (before : Array α) (count : Nat) (inside : start ≤ length) (hstart : inv start) :
    Agrees buffer length start (Machine.timesOnto item before count)
      (Reader.timesOnto item' before count) fun _ stop => inv stop := by
  induction count generalizing before start with
  | zero => exact .pure inside hstart
  | succ count ih =>
    have hsplit : Reader.timesOnto item' before (count + 1)
        = item' >>= fun value => Reader.timesOnto item' (before.push value) count := rfl
    rw [hsplit]
    refine (hitem start inside hstart).bind fun value stop hinside hstop => ?_
    exact ih (before.push value) hinside hstop

/-- Every step of the loop has to come closer to the end and to keep an invariant. -/
theorem iterate (staged : Staged buffer length) (inv : σ → Nat → Prop)
    {step : σ → Machine (σ ⊕ α)} {step' : σ → Reader (σ ⊕ α)}
    (hstep : ∀ state start, start ≤ length → inv state start →
      Agrees buffer length start (step state) (step' state) fun result stop =>
        Sum.elim (fun state => start < stop ∧ inv state stop) (fun value => post value stop) result)
    {state : σ} (inside : start ≤ length) (hstart : inv state start) :
    Agrees buffer length start (Machine.iterate step state) (Reader.iterate step' state) post := by
  -- every step leaves less of the content, so that the loop ends
  induction hrest : length - start using Nat.strongRecOn generalizing start state with
  | ind _ ih =>
    subst hrest
    have hfirst := hstep state start inside hstart
    have hsame := hfirst.same
    cases hreader : step' state (buffer.extract 0 length) start with
    | failed error stop =>
      rw [Cursor.run_of_failed hreader] at hsame
      refine .of_failed ?_ (Reader.iterate_of_failed hreader)
      rw [Machine.iterate, hsame]
    | done result stop =>
      rw [Cursor.run_of_done hreader] at hsame
      obtain ⟨hinside, hresult⟩ := hfirst.ends hreader
      cases result with
      | inr value =>
        refine .of_done ?_ (Reader.iterate_of_done hreader) hinside hresult
        rw [Machine.iterate, hsame]
      | inl state' =>
        obtain ⟨hlt, hinv⟩ := hresult
        have hrest := ih (length - stop) (by omega) hinside hinv rfl
        have hcontent := Reader.iterate_of_step hreader hlt (by rwa [staged.size_content])
        refine ⟨?_, fun hdone => hrest.ends ?_⟩
        · rw [Machine.iterate, hsame]
          simp only [if_pos (show length - stop < length - start by omega), hrest.same, Cursor.run,
            Cursor.content, hcontent]
        · rwa [hcontent] at hdone

theorem whileBelow (staged : Staged buffer length) (inv : σ → Nat → Prop) {limit : Nat}
    {body : σ → Machine σ} {body' : σ → Reader σ}
    (hbody : ∀ state start, start ≤ length → start < limit → inv state start →
      Agrees buffer length start (body state) (body' state) fun state stop =>
        start < stop ∧ inv state stop)
    {state : σ} (inside : start ≤ length) (hstart : inv state start) :
    Agrees buffer length start (Machine.whileBelow limit body state)
      (Reader.whileBelow limit body' state) fun state stop => limit ≤ stop ∧ inv state stop := by
  refine .iterate staged inv (fun state start inside hinv => .position_bind ?_) inside hstart
  by_cases hlimit : start < limit
  · rw [if_pos hlimit, if_pos hlimit]
    refine .bind (hbody state start inside hlimit hinv) fun state' stop hinside hstop => ?_
    exact .pure hinside hstop
  · rw [if_neg hlimit, if_neg hlimit]
    exact .pure inside ⟨Nat.le_of_not_lt hlimit, hinv⟩

end Agrees

/-! ### Agreement everywhere -/

/-- The machine agrees with the reader wherever that starts.  Where it stops is related to where it
has started. -/
structure Moves (relation : Nat → Nat → Prop) (machine : Machine α) (reader : Reader α) : Prop where
  agrees : ∀ {buffer length start}, Staged buffer length → start ≤ length →
    Agrees buffer length start machine reader fun _ stop => relation start stop

/-- Agreement, wherever the machine stops. -/
abbrev Matches (machine : Machine α) (reader : Reader α) : Prop :=
  Moves (fun _ _ => True) machine reader

/-- Agreement of a machine that does not go back. -/
abbrev Follows (machine : Machine α) (reader : Reader α) : Prop :=
  Moves (fun start stop => start ≤ stop) machine reader

/-- Agreement of a machine that does not stay where it is. -/
abbrev Advances (machine : Machine α) (reader : Reader α) : Prop :=
  Moves (fun start stop => start < stop) machine reader

/-- Agreement of a machine that stops at `target` or behind it. -/
abbrev Reaches (target : Nat) (machine : Machine α) (reader : Reader α) : Prop :=
  Moves (fun _ stop => target ≤ stop) machine reader

variable {machine machine' : Machine α} {reader reader' : Reader α} {next : α → Machine β}
  {next' : α → Reader β}

namespace Moves

variable {relation relation₁ relation₂ : Nat → Nat → Prop}

theorem mono (h : Moves relation₁ machine reader)
    (weaker : ∀ {start stop}, relation₁ start stop → relation start stop) :
    Moves relation machine reader where
  agrees staged inside := (h.agrees staged inside).mono fun _ _ _ hstop => weaker hstop

/-- One step after the other. -/
theorem trans (first : Moves relation₁ machine reader)
    (second : ∀ value, Moves relation₂ (next value) (next' value))
    (h : ∀ {start middle stop}, relation₁ start middle → relation₂ middle stop →
      relation start stop) :
    Moves relation (machine >>= next) (reader >>= next') where
  agrees staged inside := (first.agrees staged inside).bind fun value _ hinside hfirst =>
    ((second value).agrees staged hinside).mono fun _ _ _ hsecond => h hfirst hsecond

theorem map (h : Moves relation machine reader) (f : α → β) :
    Moves relation (do return f (← machine)) (do return f (← reader)) where
  agrees staged inside := (h.agrees staged inside).bind fun _ _ hinside hstop =>
    .pure hinside hstop

theorem fail (error : DecodeError) :
    Moves relation (Machine.fail error : Machine α) (Reader.fail error) :=
  ⟨fun _ _ => .fail error⟩

theorem failAt (kind : ErrorKind) (offset : Nat) :
    Moves relation (Machine.failAt kind offset : Machine α) (Reader.failAt kind offset) :=
  .fail _

theorem fail_bind (error : DecodeError) :
    Moves relation (Machine.fail error >>= next) (Reader.fail error >>= next') :=
  ⟨fun _ _ => .fail_bind error⟩

theorem failAt_bind (kind : ErrorKind) (offset : Nat) :
    Moves relation (Machine.failAt kind offset >>= next) (Reader.failAt kind offset >>= next') :=
  .fail_bind _

theorem lift_bind {result : Option α} {value : α} {reader : Reader β}
    (h : result = some value) (rest : Moves relation (next value) reader) :
    Moves relation ((liftM result : Machine α) >>= next) reader :=
  ⟨fun staged inside => .lift_bind h (rest.agrees staged inside)⟩

/-- A position in a stream fits into 32 bits. -/
theorem position_bind {next : Nat → Machine α} {next' : Nat → Reader α}
    (rest : ∀ start < 2 ^ 32, Moves relation (next start) (next' start)) :
    Moves relation (Machine.position >>= next) (Reader.position >>= next') := by
  constructor
  intro buffer length start staged inside
  have hstart := Nat.lt_of_le_of_lt inside staged.short
  exact .position_bind ((rest start hstart).agrees staged inside)

theorem size_bind {next : Nat → Machine α} {next' : Nat → Reader α}
    (rest : ∀ length < 2 ^ 32, Moves relation (next length) (next' length)) :
    Moves relation (Machine.size >>= next) (Reader.size >>= next') :=
  ⟨fun staged inside => .size_bind staged ((rest _ staged.short).agrees staged inside)⟩

theorem ite {condition : Prop} [Decidable condition]
    (htrue : condition → Moves relation machine reader)
    (hfalse : ¬ condition → Moves relation machine' reader') :
    Moves relation (if condition then machine else machine')
      (if condition then reader else reader') :=
  ⟨fun staged inside => .ite (fun h => (htrue h).agrees staged inside)
    fun h => (hfalse h).agrees staged inside⟩

theorem toMatches (h : Moves relation machine reader) : Matches machine reader :=
  h.mono fun _ => trivial

end Moves

namespace Matches

protected theorem pure (value : α) : Matches (pure value) (pure value) :=
  ⟨fun _ inside => .pure inside trivial⟩

protected theorem bind (first : Matches machine reader)
    (second : ∀ value, Matches (next value) (next' value)) :
    Matches (machine >>= next) (reader >>= next') :=
  first.trans second fun _ _ => trivial

theorem seek (target : Nat) : Matches (Machine.seek target) (Reader.seek target) :=
  ⟨fun staged _ => (Agrees.seek staged target).mono fun _ _ _ _ => trivial⟩

end Matches

namespace Reaches

variable {target : Nat}

protected theorem bind (first : Matches machine reader)
    (second : ∀ value, Reaches target (next value) (next' value)) :
    Reaches target (machine >>= next) (reader >>= next') :=
  first.trans second fun _ h => h

theorem seek_bind {next : Unit → Machine α} {next' : Unit → Reader α}
    (rest : ∀ value, Follows (next value) (next' value)) :
    Reaches target (Machine.seek target >>= next) (Reader.seek target >>= next') where
  agrees staged _ := (Agrees.seek staged target).bind fun value _ hinside hstop =>
    ((rest value).agrees staged hinside).mono fun _ _ _ hle => hstop ▸ hle

end Reaches

namespace Follows

protected theorem pure (value : α) : Follows (pure value) (pure value) :=
  ⟨fun _ inside => .pure inside (Nat.le_refl _)⟩

theorem ofExcept (result : Except DecodeError α) :
    Follows (Machine.ofExcept result) (Reader.ofExcept result) := by
  cases result with
  | ok value => exact .pure value
  | error error => exact .fail error

protected theorem bind (first : Follows machine reader)
    (second : ∀ value, Follows (next value) (next' value)) :
    Follows (machine >>= next) (reader >>= next') :=
  first.trans second Nat.le_trans

theorem times (h : Follows machine reader) (count : Nat) :
    Follows (Machine.times count machine) (Reader.times count reader) := by
  constructor
  intro buffer length start staged inside
  refine .timesOnto (fun stop => start ≤ stop) (fun position hinside hle => ?_) #[] count inside
    (Nat.le_refl _)
  exact (h.agrees staged hinside).mono fun _ _ _ hstop => Nat.le_trans hle hstop

theorem iterate {step : σ → Machine (σ ⊕ α)} {step' : σ → Reader (σ ⊕ α)}
    (h : ∀ state, Advances (step state) (step' state)) (state : σ) :
    Follows (Machine.iterate step state) (Reader.iterate step' state) := by
  constructor
  intro buffer length start staged inside
  refine .iterate staged (fun _ stop => start ≤ stop) ?_ inside (Nat.le_refl _)
  intro state position hinside hle
  refine ((h state).agrees staged hinside).mono fun result stop _ hlt => ?_
  have hstop : start ≤ stop := by omega
  cases result with
  | inl state => exact ⟨hlt, hstop⟩
  | inr value => exact hstop

theorem whileBelow {body : σ → Machine σ} {body' : σ → Reader σ}
    (h : ∀ state, Advances (body state) (body' state)) (limit : Nat) (state : σ) :
    Follows (Machine.whileBelow limit body state) (Reader.whileBelow limit body' state) := by
  constructor
  intro buffer length start staged inside
  refine (Agrees.whileBelow staged (fun _ stop => start ≤ stop) ?_ inside (Nat.le_refl _)).mono
    fun _ _ _ hpost => hpost.2
  intro state position hinside _ hle
  exact ((h state).agrees staged hinside).mono fun _ _ _ hlt => ⟨hlt, by omega⟩

end Follows

/-- A value that is returned behind a record of its own. -/
theorem Reaches.seek_return {target limit : Nat} (behind : limit ≤ target) (value : α) :
    Reaches limit (do Machine.seek target; return value) (do Reader.seek target; return value) := by
  have hseek : Reaches target (do Machine.seek target; return value)
      (do Reader.seek target; return value) := seek_bind fun _ => Follows.pure value
  exact hseek.mono fun hstop => Nat.le_trans behind hstop

/-- A machine that comes at least to where it has started does not go back. -/
theorem Follows.of_reaches {next : Nat → Machine α} {next' : Nat → Reader α}
    (rest : ∀ start < 2 ^ 32, Reaches start (next start) (next' start)) :
    Follows (Machine.position >>= next) (Reader.position >>= next') := by
  constructor
  intro buffer length start staged inside
  have hstart := Nat.lt_of_le_of_lt inside staged.short
  exact .position_bind ((rest start hstart).agrees staged inside)

protected theorem Advances.bind (first : Advances machine reader)
    (second : ∀ value, Follows (next value) (next' value)) :
    Advances (machine >>= next) (reader >>= next') :=
  first.trans second Nat.lt_of_lt_of_le

end ManagedPdb
