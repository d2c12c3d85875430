import ManagedPdb.Proofs.Terminated

/-!
# How much of the content decides

A reader that is done may have looked at less than the whole content.  `Reader.Needs` says how much
it has looked at: the same is read from every content that starts with those bytes, and content that
is cut off before they end is too short.

Most readers need what is in front of the place where they stop (`Reader.Measured`); one that moves
back needs more.  A reader that ends with padding is measured only inside content that fits into the
address space, for an alignment may wrap around at its end (`Reader.EndsAligned`).
-/

namespace ManagedPdb

namespace Reader

variable {α β σ : Type} {content : ByteArray} {position middle next needed : Nat}

/-- The reader takes a value and stops at `next`, and for that it needs the first `needed` bytes of
the content, no more and no less. -/
structure Needs (reader : Reader α) (content : ByteArray) (position : Nat) (value : α)
    (next needed : Nat) : Prop where
  le : position ≤ needed
  next_le : next ≤ needed
  whole {other : ByteArray} : other.extract 0 needed = content.extract 0 needed →
    reader other position = .done value next
  short {limit : Nat} : position ≤ limit → limit < needed →
    ∃ error stopped, reader (content.extract 0 limit) position = .failed error stopped ∧
      error.kind = .unexpectedEnd

/-- Whatever the reader is done with, it needs what is in front of the place where it stops. -/
structure Measured (reader : Reader α) : Prop where
  needs {content : ByteArray} {position next : Nat} {value : α} :
    reader content position = .done value next → Needs reader content position value next next

/-! ### Contents with the same start -/

theorem extract_eq_of_le {other : ByteArray} {limit : Nat}
    (h : other.extract 0 limit = content.extract 0 limit) (hle : needed ≤ limit) :
    other.extract 0 needed = content.extract 0 needed := by
  have hcut := congrArg (fun bytes => bytes.extract 0 needed) h
  simpa [ByteArray.extract_extract, Nat.min_eq_left hle] using hcut

theorem le_size_of_extract_eq {other : ByteArray} {limit : Nat}
    (h : other.extract 0 limit = content.extract 0 limit) (hle : needed ≤ limit)
    (hsize : needed ≤ content.size) : needed ≤ other.size := by
  have hsizes := congrArg ByteArray.size h
  rw [ByteArray.size_extract, ByteArray.size_extract] at hsizes
  omega

theorem extract_extract_of_le {limit : Nat} (hle : needed ≤ limit) :
    (content.extract 0 limit).extract 0 needed = content.extract 0 needed := by
  rw [ByteArray.extract_extract, Nat.zero_add, Nat.zero_add, Nat.min_eq_left hle]

namespace Needs

/-- What is needed is there. -/
theorem le_size {reader : Reader α} {value found : α} {last : Nat}
    (h : Needs reader content position value next needed)
    (hdone : reader content position = .done found last) (hposition : position ≤ content.size) :
    needed ≤ content.size := by
  apply Nat.le_of_not_lt
  intro hlt
  obtain ⟨error, stopped, hfailed, -⟩ := h.short hposition hlt
  rw [ByteArray.extract_zero_size, hdone] at hfailed
  cases hfailed

/-- The second step may move back, but it starts where the first one stops. -/
protected theorem bind {reader : Reader α} {step : α → Reader β} {first : α} {value : β}
    {needed₁ needed₂ : Nat} (hfirst : Needs reader content position first middle needed₁)
    (hrest : Needs (step first) content middle value next needed₂)
    (hneeded : needed = max needed₁ needed₂) :
    Needs (reader >>= step) content position value next needed where
  le := by
    have hle := hfirst.le
    omega
  next_le := by
    have hle := hrest.next_le
    omega
  whole hother :=
    bind_eq_done_iff.mpr ⟨first, middle, hfirst.whole (extract_eq_of_le hother (by omega)),
      hrest.whole (extract_eq_of_le hother (by omega))⟩
  short {limit} hposition hshort := by
    rw [bind_apply]
    rcases Nat.lt_or_ge limit needed₁ with hcut | hcut
    · obtain ⟨error, stopped, hfailed, hkind⟩ := hfirst.short hposition hcut
      exact ⟨error, stopped, by rw [hfailed], hkind⟩
    · rw [hfirst.whole (extract_extract_of_le hcut)]
      exact hrest.short (Nat.le_trans hfirst.next_le hcut) (by omega)

theorem bind_of_le {reader : Reader α} {step : α → Reader β} {first : α} {value : β}
    {needed₁ : Nat} (hfirst : Needs reader content position first middle needed₁)
    (hrest : Needs (step first) content middle value next needed) (hle : needed₁ ≤ needed) :
    Needs (reader >>= step) content position value next needed :=
  hfirst.bind hrest (Nat.max_eq_right hle).symm

/-- The place that is moved to must be there. -/
protected theorem seek {target : Nat} (h : target ≤ content.size) :
    Needs (Reader.seek target) content position () target (max position target) where
  le := Nat.le_max_left ..
  next_le := Nat.le_max_right ..
  whole hother := seek_of_le (le_size_of_extract_eq hother (Nat.le_max_right ..) h)
  short {limit} hposition hshort := by
    refine ⟨.ofKindAt .unexpectedEnd target, position, ?_, rfl⟩
    rw [Reader.seek, if_neg]
    rw [ByteArray.size_extract]
    omega

/-! ### Loops -/

theorem whileBelow_done {stop : Nat} {body : σ → Reader σ} {state : σ} (h : stop ≤ position) :
    Needs (Reader.whileBelow stop body state) content position state position position where
  le := Nat.le_refl _
  next_le := Nat.le_refl _
  whole _ := whileBelow_of_le h
  short hposition hshort := by omega

theorem whileBelow_step {stop : Nat} {body : σ → Reader σ} {state state' last : σ}
    (hstop : position < stop) (advances : position < middle) (inside : middle ≤ content.size)
    (hbody : Needs (body state) content position state' middle middle)
    (hrest : Needs (Reader.whileBelow stop body state') content middle last next needed) :
    Needs (Reader.whileBelow stop body state) content position last next needed := by
  have hturn : ∀ {other : ByteArray}, body state other position = .done state' middle →
      middle ≤ other.size → Reader.whileBelow stop body state other position
        = Reader.whileBelow stop body state' other middle := by
    intro other hfirst hsize
    rw [whileBelow_of_lt hstop, bind_apply, hfirst]
    intro found after hdone
    rw [hfirst] at hdone
    cases hdone
    exact ⟨advances, hsize⟩
  refine ⟨Nat.le_trans hbody.le hrest.le, hrest.next_le, fun hother => ?_,
    fun {limit} hposition hshort => ?_⟩
  · have hfirst := hbody.whole (extract_eq_of_le hother hrest.le)
    rw [hturn hfirst (le_size_of_extract_eq hother hrest.le inside)]
    exact hrest.whole hother
  · rcases Nat.lt_or_ge limit middle with hcut | hcut
    · obtain ⟨error, stopped, hfailed, hkind⟩ := hbody.short hposition hcut
      refine ⟨error, stopped, ?_, hkind⟩
      rw [whileBelow_of_lt hstop, bind_apply, hfailed]
      intro found after hdone
      rw [hfailed] at hdone
      cases hdone
    · have hsize : middle ≤ (content.extract 0 limit).size := by
        rw [ByteArray.size_extract]
        omega
      rw [hturn (hbody.whole (extract_extract_of_le hcut)) hsize]
      exact hrest.short hcut hshort

end Needs

/-! ### Readers that are measured -/

namespace Measured

theorem of_sequential {reader : Reader α} (h : Sequential reader) (hstable : Stable reader) :
    Measured reader := by
  refine ⟨fun {content position next value} hdone =>
    ⟨h.advances hdone, Nat.le_refl _, fun {other} hother => ?_, h.short hdone⟩⟩
  have hpart := h.whole hdone (Nat.le_refl next)
  rw [← hother] at hpart
  have hwhole := hstable.append hpart (other.extract next other.size)
  rwa [ByteArray.extract_append_extract, Nat.zero_min, ByteArray.extract_zero_max_size] at hwhole

protected theorem pure (value : α) : Measured (Pure.pure value) :=
  .of_sequential (.pure value) (.pure value)

protected theorem position : Measured Reader.position := .of_sequential .position .position

protected theorem bind {reader : Reader α} {step : α → Reader β} (h : Measured reader)
    (hstep : ∀ value, Measured (step value)) : Measured (reader >>= step) := by
  constructor
  intro content position next value hdone
  obtain ⟨first, middle, hfirst, hrest⟩ := bind_eq_done_iff.mp hdone
  have hneeds := (hstep first).needs hrest
  exact (h.needs hfirst).bind_of_le hneeds hneeds.le

protected theorem map {reader : Reader α} (f : α → β) (h : Measured reader) :
    Measured (f <$> reader) :=
  h.bind fun value => .pure (f value)

protected theorem skip (count : Nat) : Measured (Reader.skip count) :=
  .of_sequential (.skip count) (.skip count)

protected theorem uint16 : Measured Reader.uint16 := .of_sequential .uint16 .uint16

protected theorem uint32 : Measured Reader.uint32 := .of_sequential .uint32 .uint32

protected theorem int32 : Measured Reader.int32 := .of_sequential .int32 .int32

protected theorem terminatedString : Measured Reader.terminatedString :=
  .of_sequential .terminatedString .terminatedString

protected theorem skipTerminated : Measured Reader.skipTerminated :=
  .of_sequential .skipTerminated .skipTerminated

protected theorem times (count : Nat) {item : Reader α} (hsequential : Sequential item)
    (hstable : Stable item) : Measured (Reader.times count item) :=
  .of_sequential (.times count hsequential) (.times count hstable)

end Measured

namespace Needs

protected theorem pure (value : α) :
    Needs (Pure.pure value : Reader α) content position value position position :=
  (Measured.pure value).needs rfl

protected theorem position : Needs Reader.position content position position position position :=
  Measured.position.needs rfl

end Needs

/-! ### Padding -/

/-- The reader ends with an alignment.  If that has not wrapped around, the reader needs what is in
front of the place where it stops. -/
structure EndsAligned (reader : Reader α) : Prop where
  needs {content : ByteArray} {position next : Nat} {value : α} :
    content.size < 2 ^ 64 → position ≤ content.size →
      reader content position = .done value next → 0 < next →
        next % 4 = 0 ∧ Needs reader content position value next next

namespace EndsAligned

protected theorem align (value : α) : EndsAligned (do align 4; return value) := by
  constructor
  intro content position next found hsize hposition h hnext
  obtain ⟨_, _, halign, h⟩ := bind_eq_done_iff.mp h
  cases h
  obtain ⟨hequal, hle⟩ := align_four_eq_done_iff.mp halign
  have hneeds : Needs (align 4) content position () next (max position next) := by
    obtain ⟨hinside, rfl⟩ := seek_eq_done_iff.mp halign
    have hseek := @Needs.seek content position _ hinside
    exact ⟨hseek.le, hseek.next_le, hseek.whole, hseek.short⟩
  exact ⟨by omega, hneeds.bind (.pure value) (by omega)⟩

protected theorem bind {reader : Reader α} {step : α → Reader β} (h : Measured reader)
    (hstep : ∀ value, EndsAligned (step value)) : EndsAligned (reader >>= step) := by
  constructor
  intro content position next value hsize hposition hdone hnext
  obtain ⟨first, middle, hfirst, hrest⟩ := bind_eq_done_iff.mp hdone
  have hneeds := h.needs hfirst
  have hmiddle := hneeds.le_size hfirst hposition
  obtain ⟨haligned, hlast⟩ := (hstep first).needs hsize hmiddle hrest hnext
  exact ⟨haligned, hneeds.bind_of_le hlast hlast.le⟩

theorem ite {condition : Prop} [Decidable condition] {left right : Reader α}
    (htrue : EndsAligned left) (hfalse : EndsAligned right) :
    EndsAligned (if condition then left else right) := by
  by_cases h : condition
  · rwa [if_pos h]
  · rwa [if_neg h]

end EndsAligned

end Reader

end ManagedPdb
