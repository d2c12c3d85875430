import ManagedPdb.Proofs.Line.SiteSearch
import ManagedPdb.Proofs.Machine.Line

/-!
# Attaching lines on a machine

The walk from a method to a free one looks at the methods in front and behind, and at the marks of
those that have got their lines.  There is a mark for each method, so that the walk stays inside.
-/

namespace ManagedPdb

namespace Checked

/-- The value at an index. -/
def get {α : Type} (values : Array α) (index : Nat) : Option α := values[index]?

end Checked

/-! ### The walk -/

namespace Machine

/-- Goes back from a free method.  It does so only if there is a method in front. -/
def backToFirstFree (attachment : Attachment) (site : Site) : (index : Nat) → Option Nat
  | 0 => return 0
  | index + 1 => do
    if ← Checked.get attachment.taken index then return index + 1
    else if (← Checked.get attachment.methods index).site = site then
      backToFirstFree attachment site index
    else return index + 1

/-- Goes forward from a taken method.  It looks at the next one only if that is there. -/
def forwardToFree (attachment : Attachment) (site : Site) (index : Nat) : Option Nat := do
  if ← Checked.get attachment.taken index then
    let _ ← Checked.add 64 index 1
    if _inside : index + 1 < attachment.methods.size then
      if (← Checked.get attachment.methods (index + 1)).site = site then
        forwardToFree attachment site (index + 1)
      else return index
    else return index
  else return index
termination_by attachment.methods.size - index

/-- Goes from a method at the place towards a free one. -/
def walk (attachment : Attachment) (site : Site) (index : Nat) : Option Nat := do
  if ← Checked.get attachment.taken index then forwardToFree attachment site index
  else backToFirstFree attachment site index

def freeFrom (attachment : Attachment) (site : Site) (index : Nat) : Option (Option Nat) := do
  let target ← walk attachment site index
  if ← Checked.get attachment.taken target then return none else return some target

def free? (attachment : Attachment) (site : Site) : Option (Option Nat) :=
  match SiteSearch.binary attachment.methods site with
  | none => return none
  | some index => freeFrom attachment site index

/-- Gives lines to the method at an index, which must be there, and marks it. -/
def attach (attachment : Attachment) (index : Nat) (lines : List LineTable) :
    Option Attachment := do
  Checked.require (index < attachment.methods.size)
  Checked.require (index < attachment.taken.size)
  return attachment.attach index lines

/-! ### Lines subsections -/

def linesSubsection (checksums : ChecksumTable) (attachment : Attachment)
    (subsection : Subsection) : Machine Attachment := do
  seek subsection.start
  let header ← linesHeader
  match ← free? attachment ⟨header.segment, header.address⟩ with
  | none => return attachment
  | some index =>
    let tables ← lineBlocks checksums header.hasColumns subsection.stop
    attach attachment index tables

def linesSubsections (checksums : ChecksumTable) (attachment : Attachment) :
    (subsections : List Subsection) → Machine Attachment
  | [] => return attachment
  | subsection :: rest => do
    let attachment ← linesSubsection checksums attachment subsection
    linesSubsections checksums attachment rest

def lines (checksums : ChecksumTable) (start stop : Nat) (methods : List Method) :
    Machine (List Method) := do
  let subsections ← subsectionsOf Subsection.linesKind start stop
  let attachment ← linesSubsections checksums (Attachment.ofMethods methods) subsections
  return attachment.methods.toList

end Machine

namespace Attachment

/-- There is a mark for each method, and the methods can be counted in 64 bits. -/
structure Sound (attachment : Attachment) : Prop where
  marked : attachment.taken.size = attachment.methods.size
  short : attachment.methods.size < 2 ^ 32

theorem Sound.attach {attachment : Attachment} (sound : attachment.Sound) (index : Nat)
    (lines : List LineTable) : (attachment.attach index lines).Sound where
  marked := by simp [Attachment.attach, sound.marked]
  short := by simpa [Attachment.attach] using sound.short

theorem sound_ofMethods {methods : List Method} (short : methods.length < 2 ^ 32) :
    (ofMethods methods).Sound where
  marked := by simp [ofMethods]
  short := by simpa [ofMethods] using short

variable {attachment : Attachment} {site : Site} {index : Nat}

theorem get_taken (inside : index < attachment.taken.size) :
    Checked.get attachment.taken index = some (attachment.isTaken index) := by
  rw [Checked.get, isTaken, Array.getElem?_eq_getElem inside]
  rfl

/-- Whether a method that is there is at the place. -/
theorem get_methods (site : Site) (inside : index < attachment.methods.size) :
    ∃ method, Checked.get attachment.methods index = some method ∧
      attachment.isAt site index = decide (method.site = site) := by
  refine ⟨attachment.methods[index], Array.getElem?_eq_getElem inside, ?_⟩
  rw [isAt, Array.getElem?_eq_getElem inside, Option.map_some, Bool.eq_iff_iff]
  simp

/-- One step of the walk back. -/
theorem backToFirstFree_succ (sound : attachment.Sound) (inside : index < attachment.methods.size) :
    Machine.backToFirstFree attachment site (index + 1)
      = if !attachment.isTaken index && attachment.isAt site index then
          Machine.backToFirstFree attachment site index
        else some (index + 1) := by
  obtain ⟨method, hmethod, hat⟩ := get_methods site inside
  rw [Machine.backToFirstFree, get_taken (sound.marked ▸ inside), hmethod, hat]
  by_cases htaken : attachment.isTaken index
  · simp [htaken]
  · by_cases hsite : method.site = site <;> simp [htaken, hsite]

/-- The walk back stays inside. -/
theorem backToFirstFree_eq (sound : attachment.Sound) (inside : index < attachment.methods.size) :
    Machine.backToFirstFree attachment site index
        = some (attachment.backToFirstFree site index) ∧
      attachment.backToFirstFree site index < attachment.methods.size := by
  -- along the walk: the machine and the decoder take the same steps, each to a lower index
  induction index with
  | zero => exact ⟨rfl, inside⟩
  | succ index ih =>
    have hinside : index < attachment.methods.size := by omega
    rw [backToFirstFree_succ sound hinside, backToFirstFree]
    by_cases hback : (!attachment.isTaken index && attachment.isAt site index) = true
    · rw [if_pos hback, if_pos hback]
      exact ih hinside
    · rw [if_neg hback, if_neg hback]
      exact ⟨rfl, inside⟩

/-- One step of the walk forward. -/
theorem forwardToFree_step (sound : attachment.Sound) (inside : index < attachment.methods.size) :
    Machine.forwardToFree attachment site index
      = if attachment.isTaken index && index + 1 < attachment.methods.size
            && attachment.isAt site (index + 1) then
          Machine.forwardToFree attachment site (index + 1)
        else some index := by
  have hshort := sound.short
  rw [Machine.forwardToFree, get_taken (sound.marked ▸ inside), Checked.add_eq (by omega)]
  by_cases hnext : index + 1 < attachment.methods.size
  · obtain ⟨method, hmethod, hat⟩ := get_methods site hnext
    rw [hmethod, hat]
    by_cases hsite : method.site = site <;> simp [hnext, hsite]
  · simp [hnext]

/-- The walk forward stays inside. -/
theorem forwardToFree_eq (sound : attachment.Sound) (inside : index < attachment.methods.size) :
    Machine.forwardToFree attachment site index = some (attachment.forwardToFree site index) ∧
      attachment.forwardToFree site index < attachment.methods.size := by
  fun_induction attachment.forwardToFree site index with
  | case1 index hforward ih =>
    have hnext : index + 1 < attachment.methods.size := by simp_all
    rw [forwardToFree_step sound inside, if_pos hforward]
    exact ih hnext
  | case2 index hstay =>
    rw [forwardToFree_step sound inside, if_neg hstay]
    exact ⟨rfl, inside⟩

/-- The walk leads to a method. -/
theorem walk_eq (sound : attachment.Sound) (inside : index < attachment.methods.size) :
    ∃ target < attachment.methods.size, Machine.walk attachment site index = some target ∧
      target = if attachment.isTaken index then attachment.forwardToFree site index
        else attachment.backToFirstFree site index := by
  rw [Machine.walk, get_taken (sound.marked ▸ inside)]
  cases attachment.isTaken index with
  | true =>
    obtain ⟨hwalk, hinside⟩ := @forwardToFree_eq _ site _ sound inside
    exact ⟨_, hinside, hwalk, rfl⟩
  | false =>
    obtain ⟨hwalk, hinside⟩ := @backToFirstFree_eq _ site _ sound inside
    exact ⟨_, hinside, hwalk, rfl⟩

theorem freeFrom_eq (sound : attachment.Sound) (inside : index < attachment.methods.size) :
    Machine.freeFrom attachment site index = some (attachment.freeFrom site index) ∧
      ∀ target, attachment.freeFrom site index = some target →
        target < attachment.methods.size := by
  obtain ⟨target, hinside, hmachine, hwalk⟩ := @walk_eq _ site _ sound inside
  rw [Machine.freeFrom, freeFrom, hmachine, ← hwalk]
  simp only [Option.bind_eq_bind, Option.bind_some, get_taken (sound.marked ▸ hinside)]
  by_cases htaken : attachment.isTaken target = true
  · rw [if_pos htaken, if_pos htaken]
    exact ⟨rfl, fun target h => nomatch h⟩
  · rw [if_neg htaken, if_neg htaken]
    refine ⟨rfl, fun target h => ?_⟩
    cases h
    exact hinside

theorem free?_eq (sound : attachment.Sound) (site : Site) :
    Machine.free? attachment site = some (attachment.free? .binary site) ∧
      ∀ target, attachment.free? .binary site = some target → target < attachment.methods.size := by
  rw [Machine.free?, free?]
  cases hfound : SiteSearch.binary attachment.methods site with
  | none => exact ⟨rfl, fun target h => nomatch h⟩
  | some index =>
    have hsite := SiteSearch.site_of_probe_eq_some hfound
    obtain ⟨method, hmethod, -⟩ := Option.map_eq_some_iff.mp hsite
    exact freeFrom_eq sound (Array.getElem?_eq_some_iff.mp hmethod).1

end Attachment

/-! ### Lines subsections -/

namespace Agrees

variable {buffer : ByteArray} {length start : Nat}

theorem linesSubsection (staged : Staged buffer length) (checksums : ChecksumTable)
    {attachment : Attachment} (sound : attachment.Sound) (subsection : Subsection) :
    Agrees buffer length start (Machine.linesSubsection checksums attachment subsection)
      (attachment.readSubsection .binary checksums subsection) fun attachment _ =>
        attachment.Sound := by
  refine (Agrees.seek staged subsection.start).bind fun _ _ hinside _ => ?_
  refine (Follows.linesHeader.agrees staged hinside).bind fun header _ hinside _ => ?_
  obtain ⟨hfree, hindex⟩ := Attachment.free?_eq sound ⟨header.segment, header.address⟩
  refine .lift_bind hfree ?_
  cases hfound : attachment.free? .binary ⟨header.segment, header.address⟩ with
  | none => exact .pure hinside sound
  | some index =>
    have hmethod := hindex index hfound
    refine ((Follows.lineBlocks checksums header.hasColumns subsection.stop).agrees staged
      hinside).bind fun tables _ hinside _ => ?_
    have hattach : Machine.attach attachment index tables
        = some (attachment.attach index tables) := by
      rw [Machine.attach, Checked.require_eq hmethod,
        Checked.require_eq (sound.marked.symm ▸ hmethod)]
      rfl
    rw [hattach]
    exact .pure hinside (sound.attach index tables)

theorem linesSubsections (staged : Staged buffer length) (inside : start ≤ length)
    (checksums : ChecksumTable) {attachment : Attachment} (sound : attachment.Sound)
    (subsections : List Subsection) :
    Agrees buffer length start (Machine.linesSubsections checksums attachment subsections)
      (attachment.readSubsections .binary checksums subsections) fun _ _ => True := by
  induction subsections generalizing attachment start with
  | nil => exact .pure inside trivial
  | cons subsection rest ih =>
    exact (linesSubsection staged checksums sound subsection).bind fun _ _ hinside sound =>
      ih hinside sound

end Agrees

theorem Matches.lines (checksums : ChecksumTable) (start stop : Nat) {methods : List Method}
    (short : methods.length < 2 ^ 32) :
    Matches (Machine.lines checksums start stop methods)
      (readLines checksums start stop methods) := by
  refine (subsectionsOf _ start stop).bind fun subsections => Moves.map ?_ _
  exact ⟨fun staged inside =>
    .linesSubsections staged inside checksums (Attachment.sound_ofMethods short) subsections⟩

end ManagedPdb
