import ManagedPdb.Reader.Field
import Mathlib.Algebra.Ring.Nat
import Mathlib.Tactic.Common

/-!
# Laws of readers

How a reader made of two steps ends, read backwards: if the whole is done, both steps are
(`bind_eq_done_iff`).  Readers satisfy the laws of monads.  A loop whose next
step advances is that step and the loop behind it (`whileBelow_of_lt`).
-/

namespace ManagedPdb

variable {α β σ : Type}

/-! ### Results in a row -/

/-- A result that is there is what the next step goes on with. -/
@[simp] theorem ok_bind {ε : Type} (value : α) (next : α → Except ε β) :
    (Except.ok value >>= next) = next value := rfl

theorem bind_eq_ok_iff {ε : Type} {first : Except ε α} {next : α → Except ε β} {value : β} :
    (first >>= next) = .ok value ↔ ∃ middle, first = .ok middle ∧ next middle = .ok value := by
  cases first with
  | error error => exact ⟨nofun, fun ⟨_, h, _⟩ => nomatch h⟩
  | ok middle => simp

theorem bind_eq_error_iff {ε : Type} {first : Except ε α} {next : α → Except ε β} {error : ε} :
    (first >>= next) = .error error ↔
      first = .error error ∨ ∃ middle, first = .ok middle ∧ next middle = .error error := by
  cases first with
  | error error' =>
    constructor
    · intro h
      cases h
      exact .inl rfl
    · rintro (h | ⟨_, h, _⟩)
      · cases h
        rfl
      · cases h
  | ok middle => simp

/-- A row of steps that fails has a step that fails. -/
theorem exists_of_foldlM_eq_error {ε : Type} {step : σ → α → Except ε σ} {items : List α}
    {state : σ} {error : ε} (h : items.foldlM step state = .error error) :
    ∃ item ∈ items, ∃ state, step state item = .error error := by
  induction items generalizing state with
  | nil => cases h
  | cons item items ih =>
    rw [List.foldlM_cons] at h
    rcases bind_eq_error_iff.mp h with hfirst | ⟨state', -, hrest⟩
    · exact ⟨item, by simp, state, hfirst⟩
    · obtain ⟨later, member, hlater⟩ := ih hrest
      exact ⟨later, List.mem_cons_of_mem _ member, hlater⟩

theorem exists_of_mapM_eq_error {ε : Type} {step : α → Except ε β} {items : List α} {error : ε}
    (h : items.mapM step = .error error) : ∃ item ∈ items, step item = .error error := by
  induction items with
  | nil => cases h
  | cons item items ih =>
    rw [List.mapM_cons] at h
    rcases bind_eq_error_iff.mp h with hfirst | ⟨value, -, hrest⟩
    · exact ⟨item, by simp, hfirst⟩
    · rcases bind_eq_error_iff.mp hrest with hrest | ⟨values, -, hlast⟩
      · obtain ⟨later, member, hlater⟩ := ih hrest
        exact ⟨later, List.mem_cons_of_mem _ member, hlater⟩
      · cases hlast

theorem exists_of_mem_of_forall₂ {Related : α → β → Prop} {items : List α} {values : List β}
    (related : List.Forall₂ Related items values) {item : α} (member : item ∈ items) :
    ∃ value ∈ values, Related item value := by
  induction related with
  | nil => cases member
  | cons hitem _ ih =>
    rcases List.mem_cons.mp member with rfl | member
    · exact ⟨_, List.mem_cons_self, hitem⟩
    · obtain ⟨value, hvalue, hitem⟩ := ih member
      exact ⟨value, List.mem_cons_of_mem _ hvalue, hitem⟩

/-- A row of steps that succeeds has the result of each step. -/
theorem forall₂_of_mapM_eq_ok {ε : Type} {step : α → Except ε β} {items : List α}
    {values : List β} (h : items.mapM step = .ok values) :
    List.Forall₂ (fun item value => step item = .ok value) items values := by
  induction items generalizing values with
  | nil =>
    cases h
    exact .nil
  | cons item items ih =>
    rw [List.mapM_cons] at h
    obtain ⟨value, hfirst, h⟩ := bind_eq_ok_iff.mp h
    obtain ⟨rest, hrest, h⟩ := bind_eq_ok_iff.mp h
    cases h
    exact .cons hfirst (ih hrest)

namespace Reader

variable {content : ByteArray} {position : Nat}

theorem run_eq_ok_iff {reader : Reader α} {value : α} :
    reader.run content = .ok value ↔ ∃ stop, reader content 0 = .done value stop := by
  rw [run]
  cases reader content 0 with
  | done first stop => simp
  | failed error stop => simp

/-! ### Steps in a row -/

@[simp] theorem pure_apply (value : α) :
    (pure value : Reader α) content position = .done value position := rfl

theorem bind_apply (reader : Reader α) (next : α → Reader β) :
    (reader >>= next) content position =
      match reader content position with
      | .done value position => next value content position
      | .failed error position => .failed error position := rfl

theorem id_map_eq (reader : Reader α) : id <$> reader = reader := by
  funext content position
  show (reader >>= fun value => pure (id value)) content position = _
  rw [bind_apply]
  cases reader content position <;> rfl

theorem bind_assoc_eq {γ : Type} (reader : Reader α) (next : α → Reader β) (last : β → Reader γ) :
    reader >>= next >>= last = reader >>= fun value => next value >>= last := by
  funext content position
  simp only [bind_apply]
  cases reader content position <;> rfl

instance : LawfulMonad Reader :=
  LawfulMonad.mk' Reader id_map_eq (fun _ _ => rfl) bind_assoc_eq

theorem map_apply (f : α → β) (reader : Reader α) :
    (f <$> reader) content position =
      match reader content position with
      | .done value position => .done (f value) position
      | .failed error position => .failed error position := rfl

theorem bind_eq_done_iff {reader : Reader α} {next : α → Reader β} {value : β} {stop : Nat} :
    (reader >>= next) content position = .done value stop ↔
      ∃ first middle, reader content position = .done first middle ∧
        next first content middle = .done value stop := by
  rw [bind_apply]
  cases hreader : reader content position with
  | done first middle => simp
  | failed error middle => simp

/-! ### Positions -/

theorem position_apply : Reader.position content position = .done position position := rfl

theorem seek_of_le {target : Nat} (h : target ≤ content.size) :
    seek target content position = .done () target := by
  rw [seek, if_pos h]

theorem seek_eq_done_iff {target stop : Nat} {value : Unit} :
    seek target content position = .done value stop ↔ target ≤ content.size ∧ stop = target := by
  rw [seek]
  by_cases h : target ≤ content.size
  · simp [h, eq_comm]
  · simp [h]

/-- A value that is given with the position set is that value, at that position. -/
theorem seek_return_eq_done {target stop : Nat} {given value : α}
    (h : (do seek target; return given : Reader α) content position = .done value stop) :
    value = given ∧ stop = target ∧ target ≤ content.size := by
  obtain ⟨_, middle, hseek, hreturn⟩ := bind_eq_done_iff.mp h
  obtain ⟨hle, hmiddle⟩ := seek_eq_done_iff.mp hseek
  cases hreturn
  exact ⟨rfl, hmiddle, hle⟩

/-! ### Alignment -/

/-- Clearing the low bits of a 64-bit number rounds it down. -/
theorem and_mask_eq {number bits : Nat} (hnumber : number < 2 ^ 64) (hbits : bits ≤ 64) :
    number &&& (2 ^ 64 - 2 ^ bits) = 2 ^ bits * (number / 2 ^ bits) := by
  have hmask : 2 ^ 64 - 2 ^ bits = 2 ^ bits * (2 ^ (64 - bits) - 1) := by
    rw [Nat.mul_sub, ← Nat.pow_add, Nat.add_sub_cancel' hbits, Nat.mul_one]
  rw [hmask]
  apply Nat.eq_of_testBit_eq
  intro index
  rw [Nat.testBit_and, Nat.testBit_two_pow_mul, Nat.testBit_two_pow_sub_one,
    Nat.testBit_two_pow_mul, Nat.testBit_div_two_pow]
  by_cases hindex : bits ≤ index
  · rw [Nat.sub_add_cancel hindex]
    by_cases hhigh : index < 64
    · simp [hindex, show index - bits < 64 - bits by omega]
    · have hzero : number.testBit index = false :=
        Nat.testBit_lt_two_pow (Nat.lt_of_lt_of_le hnumber
          (Nat.pow_le_pow_right (by decide) (by omega)))
      simp [hzero]
  · simp [hindex]

/-- The bit trick rounds down the number in front of the next multiple, which may have wrapped
around. -/
theorem toNat_alignUp_mod {start bits : Nat} (hbits : bits < 64) :
    (alignUp (UInt64.ofNat start) (UInt64.ofNat (2 ^ bits))).toNat
      = 2 ^ bits * ((start + 2 ^ bits - 1) % 2 ^ 64 / 2 ^ bits) := by
  have hpos : 0 < 2 ^ bits := Nat.two_pow_pos bits
  have hpow : 2 ^ bits < 2 ^ 64 := Nat.pow_lt_pow_right (by decide) hbits
  have hsum : (UInt64.ofNat start + UInt64.ofNat (2 ^ bits) - 1).toNat
      = (start + 2 ^ bits - 1) % 2 ^ 64 := by
    rw [UInt64.toNat_sub, UInt64.toNat_add, UInt64.toNat_ofNat', UInt64.toNat_ofNat',
      UInt64.toNat_one]
    omega
  have hmask : (~~~(UInt64.ofNat (2 ^ bits) - 1)).toNat = 2 ^ 64 - 2 ^ bits := by
    rw [UInt64.toNat_not, UInt64.toNat_sub, UInt64.toNat_ofNat', UInt64.toNat_one]
    show 2 ^ 64 - 1 - _ = _
    omega
  rw [alignUp, UInt64.toNat_and, hsum, hmask, and_mask_eq (Nat.mod_lt _ (by decide)) (by omega)]

/-- The bit trick gives the least multiple of a power of two that is not below the start. -/
theorem toNat_alignUp {start bits : Nat} (hbits : bits < 64) (hstart : start + 2 ^ bits ≤ 2 ^ 64) :
    (alignUp (UInt64.ofNat start) (UInt64.ofNat (2 ^ bits))).toNat
      = 2 ^ bits * ((start + 2 ^ bits - 1) / 2 ^ bits) := by
  have hpos : 0 < 2 ^ bits := Nat.two_pow_pos bits
  rw [toNat_alignUp_mod hbits, Nat.mod_eq_of_lt (by omega)]

theorem align_four_eq_done_iff {value : Unit} {next : Nat} :
    align 4 content position = .done value next ↔
      next = 4 * ((position + 3) % 2 ^ 64 / 4) ∧ next ≤ content.size := by
  have haligned := @toNat_alignUp_mod position 2 (by decide)
  rw [show UInt64.ofNat (2 ^ 2) = UInt64.ofNat 4 from rfl] at haligned
  rw [align, seek_eq_done_iff]
  omega

/-! ### Numbers -/

theorem word_eq_done_iff {width value stop : Nat} :
    word width content position = .done value stop ↔
      position + width ≤ content.size ∧ value = LittleEndian.read content position width ∧
        stop = position + width := by
  rw [word]
  by_cases h : position + width ≤ content.size
  · simp [h, eq_comm]
  · simp [h]

theorem uint16_eq_done {value : UInt16} {stop : Nat}
    (h : uint16 content position = .done value stop) :
    position + 2 ≤ content.size ∧ stop = position + 2 := by
  obtain ⟨number, middle, hword, h⟩ := bind_eq_done_iff.mp h
  obtain ⟨hle, -, hmiddle⟩ := word_eq_done_iff.mp hword
  cases h
  exact ⟨hle, hmiddle⟩

theorem uint32_eq_done {value : UInt32} {stop : Nat}
    (h : uint32 content position = .done value stop) :
    position + 4 ≤ content.size ∧ value = UInt32.ofNat (LittleEndian.read content position 4) ∧
      stop = position + 4 := by
  obtain ⟨number, middle, hword, h⟩ := bind_eq_done_iff.mp h
  obtain ⟨hle, rfl, hmiddle⟩ := word_eq_done_iff.mp hword
  cases h
  exact ⟨hle, rfl, hmiddle⟩

theorem uint16_of_le (h : position + 2 ≤ content.size) :
    uint16 content position
      = .done (UInt16.ofNat (LittleEndian.read content position 2)) (position + 2) := by
  rw [uint16, bind_apply, word, if_pos h]
  rfl

theorem uint32_of_le (h : position + 4 ≤ content.size) :
    uint32 content position
      = .done (UInt32.ofNat (LittleEndian.read content position 4)) (position + 4) := by
  rw [uint32, bind_apply, word, if_pos h]
  rfl

theorem uint32_of_lt (h : content.size < position + 4) :
    uint32 content position = .failed (.ofKindAt .unexpectedEnd position) position := by
  rw [uint32, bind_apply, word, if_neg (Nat.not_le.mpr h)]

theorem uint32s_eq_done_iff {count stop : Nat} {values : List UInt32} :
    uint32s count content position = .done values stop ↔
      position + count * 4 ≤ content.size ∧ stop = position + count * 4 ∧
        values = (List.range count).map fun index =>
          UInt32.ofNat (LittleEndian.read content (position + index * 4) 4) := by
  rw [uint32s, skip]
  by_cases h : position + count * 4 ≤ content.size
  · simp [h, eq_comm, and_comm]
  · simp [h]

theorem guid_eq_done_iff {value : Guid} {stop : Nat} :
    guid content position = .done value stop ↔ position + 16 ≤ content.size ∧
      value = Guid.ofBytes content position ∧ stop = position + 16 := by
  rw [guid, skip]
  by_cases h : position + 16 ≤ content.size
  · simp [h, eq_comm]
  · simp [h]

/-! ### Loops -/

theorem iterate_of_done {step : σ → Reader (σ ⊕ α)} {state : σ} {value : α} {next : Nat}
    (h : step state content position = .done (.inr value) next) :
    iterate step state content position = .done value next := by
  rw [iterate, h]

theorem iterate_of_failed {step : σ → Reader (σ ⊕ α)} {state : σ} {error : DecodeError}
    {stopped : Nat} (h : step state content position = .failed error stopped) :
    iterate step state content position = .failed error stopped := by
  rw [iterate, h]

theorem iterate_of_step {step : σ → Reader (σ ⊕ α)} {state state' : σ} {next : Nat}
    (h : step state content position = .done (.inl state') next) (lt : position < next)
    (le : next ≤ content.size) :
    iterate step state content position = iterate step state' content next := by
  rw [iterate, h]
  exact if_pos ⟨lt, le⟩

/-- What each step of a loop carries from its end back to its start, the whole loop does. -/
theorem iterate_backward {step : σ → Reader (σ ⊕ α)} {P Q : Nat → Prop}
    (hstep : ∀ {state state' position next},
      step state content position = .done (.inl state') next → P next → P position)
    (hlast : ∀ {state value position next},
      step state content position = .done (.inr value) next → Q next → P position)
    {state : σ} {value : α} {stop : Nat}
    (h : iterate step state content position = .done value stop) (hstop : Q stop) :
    P position := by
  induction hlength : content.size - position using Nat.strongRecOn
    generalizing position state with
  | ind _ ih =>
    subst hlength
    rw [iterate] at h
    cases hfirst : step state content position with
    | failed error stopped => rw [hfirst] at h; cases h
    | done found next =>
      rw [hfirst] at h
      cases found with
      | inr last => cases h; exact hlast hfirst hstop
      | inl state' =>
        simp only [] at h
        by_cases hnext : position < next ∧ next ≤ content.size
        · rw [if_pos hnext] at h
          exact hstep hfirst (ih _ (by omega) h rfl)
        · rw [if_neg hnext] at h
          cases h

theorem whileBelow_of_le {stop : Nat} {body : σ → Reader σ} {state : σ} (h : stop ≤ position) :
    whileBelow stop body state content position = .done state position := by
  refine iterate_of_done ?_
  rw [bind_apply, position_apply]
  simp only [if_neg (Nat.not_lt.mpr h)]
  rfl

/-- A loop whose next step advances is that step and the loop behind it. -/
theorem whileBelow_of_lt {stop : Nat} {body : σ → Reader σ} {state : σ} (h : position < stop)
    (advances : ∀ state' next, body state content position = .done state' next →
      position < next ∧ next ≤ content.size) :
    whileBelow stop body state content position
      = (body state >>= whileBelow stop body) content position := by
  rw [bind_apply]
  cases hbody : body state content position with
  | done state' next =>
    obtain ⟨hlt, hle⟩ := advances state' next hbody
    refine iterate_of_step ?_ hlt hle
    rw [bind_apply, position_apply]
    simp only [if_pos h, bind_apply, hbody]
    rfl
  | failed error stopped =>
    refine iterate_of_failed ?_
    rw [bind_apply, position_apply]
    simp only [if_pos h, bind_apply, hbody]

/-- A loop that is done was over at once, or is its next step and the loop behind it. -/
theorem whileBelow_eq_done {stop : Nat} {body : σ → Reader σ} {state value : σ} {last : Nat}
    (h : whileBelow stop body state content position = .done value last) :
    stop ≤ position ∧ value = state ∧ last = position ∨
      ∃ state' next, body state content position = .done state' next ∧ position < next ∧
        next ≤ content.size ∧ whileBelow stop body state' content next = .done value last := by
  by_cases hstop : position < stop
  · refine .inr ?_
    unfold whileBelow at h
    rw [iterate, bind_apply, position_apply] at h
    simp only [if_pos hstop, bind_apply] at h
    cases hbody : body state content position with
    | failed error stopped =>
      rw [hbody] at h
      cases h
    | done state' next =>
      simp only [hbody, pure_apply] at h
      by_cases hnext : position < next ∧ next ≤ content.size
      · rw [if_pos hnext] at h
        exact ⟨state', next, rfl, hnext.1, hnext.2, h⟩
      · rw [if_neg hnext] at h
        cases h
  · have hle := Nat.le_of_not_lt hstop
    rw [whileBelow_of_le hle] at h
    cases h
    exact .inl ⟨hle, rfl, rfl⟩

/-- What each step of a loop up to `stop` carries from its end back to its start, the whole loop
does, if the end of the loop has it. -/
theorem whileBelow_backward {stop : Nat} {body : σ → Reader σ} {P : Nat → Prop}
    (hbody : ∀ {state state' position next}, position < stop →
      body state content position = .done state' next → P next → P position)
    (hend : ∀ {position}, stop ≤ position → P position) {state value : σ} {last : Nat}
    (h : whileBelow stop body state content position = .done value last) : P position := by
  induction hlength : content.size - position using Nat.strongRecOn
    generalizing position state with
  | ind _ ih =>
    subst hlength
    rcases Nat.lt_or_ge position stop with hstart | hstart
    · rcases whileBelow_eq_done h with ⟨hstop, -, -⟩ | ⟨state', next, hfirst, hlt, hle, hrest⟩
      · exact hend hstop
      · exact hbody hstart hfirst (ih _ (by omega) hrest rfl)
    · exact hend hstart

end Reader

end ManagedPdb
