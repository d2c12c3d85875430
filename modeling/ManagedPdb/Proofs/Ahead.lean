import ManagedPdb.Proofs.Stable
import ManagedPdb.Reader.Field

/-!
# Readers that look ahead only

Such a reader gives the same on contents that agree from a place on, wherever it starts behind that
place (`Reader.SameFrom`).  For a reader made of steps, each step has to stay behind the place
(`Reader.StaysFrom`); readers of fields do both (`Reader.Ahead`).
-/

namespace ManagedPdb

variable {α β σ : Type} {low : Nat}

/-- The contents have one size, and the same bytes from `low` on. -/
structure AgreeFrom (low : Nat) (left right : ByteArray) : Prop where
  size : left.size = right.size
  bytes : ∀ index, low ≤ index → byteAt left index = byteAt right index

namespace AgreeFrom

variable {left right : ByteArray}

/-- Contents that agree from a place on agree in each part behind it. -/
theorem extract_eq (agree : AgreeFrom low left right) {start : Nat} (hstart : low ≤ start)
    (stop : Nat) : left.extract start stop = right.extract start stop := by
  have hsize := agree.size
  apply Bytes.ext_byteAt
  · rw [ByteArray.size_extract, ByteArray.size_extract, hsize]
  · intro index _
    rw [Bytes.byteAt_extract, Bytes.byteAt_extract, agree.bytes (start + index) (by omega)]

/-- The parts in front of a place agree where the contents do. -/
theorem extract (agree : AgreeFrom low left right) (stop : Nat) :
    AgreeFrom low (left.extract 0 stop) (right.extract 0 stop) where
  size := by rw [ByteArray.size_extract, ByteArray.size_extract, agree.size]
  bytes := by
    intro index hindex
    rw [Bytes.byteAt_extract, Bytes.byteAt_extract, Nat.zero_add, agree.bytes index hindex]

/-- Contents with the same region agree from its start on, up to its end. -/
theorem of_region {start stop : Nat} (hleft : stop ≤ left.size) (hright : stop ≤ right.size)
    (region : left.extract start stop = right.extract start stop) :
    AgreeFrom start (left.extract 0 stop) (right.extract 0 stop) where
  size := by
    rw [ByteArray.size_extract, ByteArray.size_extract]
    omega
  bytes := by
    intro index hindex
    rw [Bytes.byteAt_extract, Bytes.byteAt_extract, Nat.zero_add]
    split
    · next hstop =>
      have hbyte := congrArg (byteAt · (index - start)) region
      simpa [Bytes.byteAt_extract, Nat.add_sub_cancel' hindex, hstop] using hbyte
    · rfl

theorem littleEndian_eq (agree : AgreeFrom low left right) {start : Nat} (hstart : low ≤ start)
    (width : Nat) : LittleEndian.read left start width = LittleEndian.read right start width := by
  induction width generalizing start with
  | zero => rfl
  | succ width ih =>
    rw [LittleEndian.read, LittleEndian.read, ih (by omega), agree.bytes start hstart]

end AgreeFrom

namespace Reader

theorem bytes_size {count position stop : Nat} {content value : ByteArray}
    (h : bytes count content position = .done value stop) :
    position + count ≤ content.size ∧ value.size = count ∧ stop = position + count := by
  unfold bytes at h
  cases hskip : skip count content position with
  | failed error stopped =>
    rw [hskip] at h
    cases h
  | done start middle =>
    obtain ⟨hle, rfl, rfl⟩ := Stable.skip_eq_done_iff.mp hskip
    rw [hskip] at h
    cases h
    refine ⟨hle, ?_, rfl⟩
    rw [ByteArray.size_extract]
    omega

/-- From positions behind `low`, the reader does the same on contents that agree from there on. -/
def SameFrom (low : Nat) (reader : Reader α) : Prop :=
  ∀ left right position, AgreeFrom low left right → low ≤ position →
    reader left position = reader right position

/-- Wherever it starts, the reader does the same on contents that agree from `low` on. -/
def SameAnywhere (low : Nat) (reader : Reader α) : Prop :=
  ∀ left right position, AgreeFrom low left right → reader left position = reader right position

/-- From positions behind `low`, the reader ends behind `low`. -/
def StaysFrom (low : Nat) (reader : Reader α) : Prop :=
  ∀ content position value stop, low ≤ position → reader content position = .done value stop →
    low ≤ stop

/-- The reader looks only at what lies ahead of it, and stays behind `low`. -/
structure Ahead (low : Nat) (reader : Reader α) : Prop where
  same : SameFrom low reader
  stays : StaysFrom low reader

theorem SameAnywhere.sameFrom {reader : Reader α} (h : SameAnywhere low reader) :
    SameFrom low reader := fun _ _ _ agree _ => h _ _ _ agree

/-! ### Steps in a row -/

namespace SameFrom

protected theorem bind {reader : Reader α} {next : α → Reader β} (h : Ahead low reader)
    (hnext : ∀ value, SameFrom low (next value)) : SameFrom low (reader >>= next) := by
  intro left right position agree hposition
  rw [bind_apply, bind_apply, h.same _ _ _ agree hposition]
  cases hreader : reader right position with
  | failed error stopped => rfl
  | done value middle => exact hnext value _ _ _ agree (h.stays _ _ _ _ hposition hreader)

/-- After the last step nothing is looked at. -/
theorem bind_pure {reader : Reader α} (h : SameFrom low reader) (f : α → β) :
    SameFrom low (reader >>= fun value => pure (f value)) := by
  intro left right position agree hposition
  rw [bind_apply, bind_apply, h _ _ _ agree hposition]
  rfl

theorem failAt_bind (kind : ErrorKind) (offset : Nat) (next : α → Reader β) :
    SameFrom low (Reader.failAt kind offset >>= next) := fun _ _ _ _ _ => rfl

/-- The next step need not care where the first one ends. -/
theorem bind_anywhere {reader : Reader α} {next : α → Reader β} (h : SameFrom low reader)
    (hnext : ∀ value, SameAnywhere low (next value)) : SameFrom low (reader >>= next) := by
  intro left right position agree hposition
  rw [bind_apply, bind_apply, h _ _ _ agree hposition]
  cases reader right position with
  | failed error stopped => rfl
  | done value middle => exact hnext value _ _ _ agree

theorem ite {condition : Prop} [Decidable condition] {left right : Reader α}
    (htrue : SameFrom low left) (hfalse : SameFrom low right) :
    SameFrom low (if condition then left else right) := by
  by_cases h : condition
  · rwa [if_pos h]
  · rwa [if_neg h]

/-- A loop only goes on behind the place where it stands. -/
protected theorem iterate {step : σ → Reader (σ ⊕ α)} (hstep : ∀ state, SameFrom low (step state))
    (state : σ) : SameFrom low (Reader.iterate step state) := by
  intro left right position agree hposition
  induction hlength : right.size - position using Nat.strongRecOn generalizing position state with
  | ind _ ih =>
    subst hlength
    rw [Reader.iterate, Reader.iterate, hstep state _ _ _ agree hposition]
    cases step state right position with
    | failed error stopped => rfl
    | done found next =>
      cases found with
      | inr value => rfl
      | inl state' =>
        dsimp only
        rw [agree.size]
        by_cases hnext : position < next ∧ next ≤ right.size
        · rw [if_pos hnext, if_pos hnext]
          exact ih (right.size - next) (by omega) state' next (by omega) rfl
        · rw [if_neg hnext, if_neg hnext]

protected theorem whileBelow {stop : Nat} {body : σ → Reader σ}
    (hbody : ∀ state, SameFrom low (body state)) (state : σ) :
    SameFrom low (Reader.whileBelow stop body state) := by
  refine SameFrom.iterate (fun state => ?_) state
  intro left right position agree hposition
  rw [bind_apply, bind_apply, position_apply, position_apply]
  by_cases hstop : position < stop
  · simp only [if_pos hstop]
    exact (hbody state).bind_pure Sum.inl _ _ _ agree hposition
  · simp only [if_neg hstop]
    rfl

end SameFrom

namespace SameAnywhere

protected theorem pure (value : α) : SameAnywhere low (Pure.pure value) := fun _ _ _ _ => rfl

/-- Moves depend on the size of the content alone. -/
protected theorem seek (target : Nat) : SameAnywhere low (Reader.seek target) := by
  intro left right position agree
  rw [Reader.seek, Reader.seek, agree.size]

protected theorem align (alignment : Nat) : SameAnywhere low (Reader.align alignment) :=
  fun _ _ _ agree => SameAnywhere.seek _ _ _ _ agree

/-- The next step may use what the value of the first can be. -/
protected theorem bind {reader : Reader α} {next : α → Reader β} (h : SameAnywhere low reader)
    (hnext : ∀ content position value middle, reader content position = .done value middle →
      SameAnywhere low (next value)) : SameAnywhere low (reader >>= next) := by
  intro left right position agree
  rw [bind_apply, bind_apply, h _ _ _ agree]
  cases hreader : reader right position with
  | failed error stopped => rfl
  | done value middle => exact hnext _ _ _ _ hreader _ _ _ agree

/-- A move to a place behind `low` comes first. -/
theorem seek_bind {target : Nat} (htarget : low ≤ target) {next : Unit → Reader α}
    (hnext : SameFrom low (next ())) : SameAnywhere low (Reader.seek target >>= next) := by
  intro left right position agree
  rw [bind_apply, bind_apply, SameAnywhere.seek _ _ _ _ agree]
  cases hseek : Reader.seek target right position with
  | failed error stopped => rfl
  | done _ middle =>
    obtain ⟨-, hmiddle⟩ := seek_eq_done_iff.mp hseek
    exact hnext _ _ _ agree (by omega)

theorem ite {condition : Prop} [Decidable condition] {left right : Reader α}
    (htrue : SameAnywhere low left) (hfalse : SameAnywhere low right) :
    SameAnywhere low (if condition then left else right) := by
  by_cases h : condition
  · rwa [if_pos h]
  · rwa [if_neg h]

end SameAnywhere

namespace Ahead

protected theorem pure (value : α) : Ahead low (Pure.pure value) := by
  refine ⟨fun _ _ _ _ _ => rfl, ?_⟩
  intro content position value stop hposition h
  cases h
  exact hposition

protected theorem position : Ahead low Reader.position := by
  refine ⟨fun _ _ _ _ _ => rfl, ?_⟩
  intro content position value stop hposition h
  cases h
  exact hposition

protected theorem bind {reader : Reader α} {next : α → Reader β} (h : Ahead low reader)
    (hnext : ∀ value, Ahead low (next value)) : Ahead low (reader >>= next) := by
  refine ⟨.bind h fun value => (hnext value).same, ?_⟩
  intro content position value stop hposition hdone
  obtain ⟨first, middle, hfirst, hsecond⟩ := bind_eq_done_iff.mp hdone
  exact (hnext first).stays _ _ _ _ (h.stays _ _ _ _ hposition hfirst) hsecond

protected theorem word (width : Nat) : Ahead low (Reader.word width) := by
  constructor
  · intro left right position agree hposition
    rw [word, word, agree.size, agree.littleEndian_eq hposition]
  · intro content position value stop hposition hdone
    obtain ⟨-, -, rfl⟩ := word_eq_done_iff.mp hdone
    omega

protected theorem uint8 : Ahead low Reader.uint8 := (Ahead.word 1).bind fun _ => .pure _

protected theorem uint16 : Ahead low Reader.uint16 := (Ahead.word 2).bind fun _ => .pure _

protected theorem uint32 : Ahead low Reader.uint32 := (Ahead.word 4).bind fun _ => .pure _

protected theorem bytes (count : Nat) : Ahead low (Reader.bytes count) := by
  constructor
  · intro left right position agree hposition
    unfold Reader.bytes skip
    rw [agree.size]
    split
    · next start stop h =>
      split at h
      · cases h
        rw [agree.extract_eq hposition]
      · cases h
    · rfl
  · intro content position value stop hposition hdone
    obtain ⟨-, -, rfl⟩ := bytes_size hdone
    omega

protected theorem times (count : Nat) {item : Reader α} (hitem : Ahead low item) :
    Ahead low (Reader.times count item) := by
  have honto : ∀ before : Array α, Ahead low (timesOnto item before count) := by
    induction count with
    | zero => exact fun before => .pure before.toList
    | succ count ih =>
      intro before
      exact hitem.bind fun value => ih (before.push value)
  exact honto #[]

end Ahead

end Reader

end ManagedPdb
