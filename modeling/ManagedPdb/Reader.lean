import ManagedPdb.Bytes
import ManagedPdb.Error

/-!
# Readers

A reader looks at bytes that do not change and moves a position over them.  It ends with a value
or with an error, and in both cases says where it stopped: a reader made of several steps that
fails in the middle has moved past the steps before.

Loops whose length depends on the data come in two forms.  `Reader.times` repeats a reader as
often as a count says, and `Reader.iterate` runs until its step is done.  A step of `iterate` has to
advance, so that no data can make a decoder run for ever.
-/

namespace ManagedPdb

/-- How a reader ends, and where. -/
inductive Outcome (α : Type) where
  | done (value : α) (position : Nat)
  | failed (error : DecodeError) (position : Nat)

/-- A reader takes the bytes and a position in them. -/
def Reader (α : Type) : Type := ByteArray → Nat → Outcome α

namespace Reader

variable {α β σ : Type}

@[always_inline]
instance : Monad Reader where
  pure value := fun _ position => .done value position
  bind reader next := fun content position =>
    match reader content position with
    | .done value position => next value content position
    | .failed error position => .failed error position

/-- The value read from the start of `content`. -/
def run (reader : Reader α) (content : ByteArray) : Except DecodeError α :=
  match reader content 0 with
  | .done value _ => .ok value
  | .failed error _ => .error error

/-! ### Positions and errors -/

def position : Reader Nat := fun _ position => .done position position

def size : Reader Nat := fun content position => .done content.size position

def fail (error : DecodeError) : Reader α := fun _ position => .failed error position

/-- Stops with a cause at an offset. -/
def failAt (kind : ErrorKind) (offset : Nat) : Reader α := fail (.ofKindAt kind offset)

/-- Goes on with a value that was found elsewhere, or stops with the error found there. -/
def ofExcept : Except DecodeError α → Reader α
  | .ok value => pure value
  | .error error => fail error

/-- Moves to `target`, which may be the end but not beyond it. -/
def seek (target : Nat) : Reader Unit := fun content position =>
  if target ≤ content.size then .done () target
  else .failed (.ofKindAt .unexpectedEnd target) position

/-- Moves over `count` bytes and gives the position in front of them. -/
def skip (count : Nat) : Reader Nat := fun content position =>
  if position + count ≤ content.size then .done position (position + count)
  else .failed (.ofKindAt .unexpectedEnd position) position

/-- The least multiple of `alignment`, a power of two, that is not below `position`: the low bits
of the highest number before the next multiple are cleared. -/
def alignUp (position alignment : UInt64) : UInt64 :=
  (position + alignment - 1) &&& ~~~(alignment - 1)

/-- Moves to the next multiple of `alignment`, which is a power of two. -/
def align (alignment : Nat) : Reader Unit := fun content position =>
  seek (alignUp (UInt64.ofNat position) (UInt64.ofNat alignment)).toNat content position

def bytes (count : Nat) : Reader ByteArray := fun content position =>
  match skip count content position with
  | .done start stop => .done (content.extract start stop) stop
  | .failed error position => .failed error position

/-! ### Loops -/

/-- Adds `count` more values to those `before`. -/
def timesOnto (item : Reader α) (before : Array α) :
    (count : Nat) → (content : ByteArray) → (position : Nat) → Outcome (List α)
  | 0, _, position => .done before.toList position
  | count + 1, content, position =>
    match item content position with
    | .done value position => timesOnto item (before.push value) count content position
    | .failed error position => .failed error position

/-- Reads `count` values, one after the other. -/
def times (count : Nat) (item : Reader α) : Reader (List α) := timesOnto item #[] count

/-- Repeats `step` on a state until it gives a result.  A step that gives a new state must have
advanced inside the content; one that has not ends the loop, for there is nothing left to read. -/
def iterate (step : σ → Reader (σ ⊕ α)) (state : σ) (content : ByteArray) (position : Nat) :
    Outcome α :=
  match step state content position with
  | .failed error stopped => .failed error stopped
  | .done (.inr value) stopped => .done value stopped
  | .done (.inl state) next =>
    if position < next ∧ next ≤ content.size then
      iterate step state content next
    else
      .failed (.ofKindAt .unexpectedEnd position) position
termination_by content.size - position

/-- Repeats `body` on a state as long as the position is below `stop`. -/
def whileBelow (stop : Nat) (body : σ → Reader σ) (state : σ) : Reader σ :=
  iterate (fun state => do
    if (← position) < stop then return .inl (← body state) else return .inr state) state

end Reader

end ManagedPdb
