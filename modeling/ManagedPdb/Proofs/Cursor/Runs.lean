import ManagedPdb.Proofs.Container.Staging
import ManagedPdb.Proofs.Cursor.Failure
import ManagedPdb.Proofs.Cursor.RegionWriter
import Mathlib.Data.List.Induction

/-!
# What can be seen of a cursor

Whatever a cursor goes through, its position is in its content and its content in its buffer
(`Cursor.Valid`), and all its reads are exact.  If the writers it is handed deliver the bytes they
are for, what can be seen of it, the content and the position, is the same as if there were no
buffer: `Step.viewAfter` is the machine without one, and no byte is left over in it.  Each step is
shown to keep both (`Step.valid_after`, `Step.view_after`), and so a whole run does
(`Start.valid_run`, `Start.mirrors_run`).  The main statement is `Start.run_exact`.
-/

namespace ManagedPdb.Cursor

/-! ### Runs -/

/-- The ways to make a cursor. -/
inductive Start where
  | empty
  | withCapacity (capacity : Nat)
  | ofBytes (bytes : ByteArray)

/-- What can be done with a cursor.  A staging writes all of its region, so that a source to fill it
from has to have enough bytes; an append hands its region to any writer, which is to write `bytes`
there and may fail. -/
inductive Step : Type 1 where
  | stage (bytes : ByteArray)
  | fill (source : ByteArray) (count : Nat) (enough : count ≤ source.size)
  | append (bytes : ByteArray) (writer : RegionWriter)
  | clear
  | seek (target : Nat)
  | skip (count : Nat)
  | align (alignment : Nat)
  | read {α : Type} (field : Field α)
  | readAt (target : Nat)

def Start.cursor : Start → Cursor
  | empty => Cursor.empty
  | withCapacity capacity => Cursor.withCapacity capacity
  | ofBytes bytes => Cursor.ofBytes bytes

def Step.after : Step → Cursor → Cursor
  | stage bytes, cursor => cursor.stage bytes
  | fill source count _, cursor => (cursor.fill source count).2
  | append bytes writer, cursor => (cursor.append writer bytes.size).2
  | clear, cursor => cursor.clear
  | seek target, cursor => (cursor.run (Reader.seek target)).2
  | skip count, cursor => (cursor.run (Reader.skip count)).2
  | align alignment, cursor => (cursor.run (Reader.align alignment)).2
  | read field, cursor => (cursor.run field.reader).2
  | readAt target, cursor => (cursor.run (Reader.terminatedStringAt target)).2

/-- An append has a writer that delivers its bytes. -/
def Step.Delivers : Step → Prop
  | append bytes writer => writer.Delivers bytes
  | _ => True

/-- The cursor behind the steps. -/
def Start.run (start : Start) (steps : List Step) : Cursor :=
  steps.foldl (fun cursor step => step.after cursor) start.cursor

/-! ### The machine without a buffer -/

/-- What can be seen of a cursor. -/
structure View where
  content : ByteArray
  position : Nat

def view (cursor : Cursor) : View := ⟨cursor.content, cursor.position⟩

/-- Where a reader stops, with a value or an error. -/
def stopOf {α : Type} : Outcome α → Nat
  | .done _ stop => stop
  | .failed _ stop => stop

namespace View

def empty : View := ⟨ByteArray.empty, 0⟩

def run {α : Type} (view : View) (reader : Reader α) : View :=
  { view with position := stopOf (reader view.content view.position) }

/-- The bytes take the place of those behind the position, and go on behind the end. -/
def append (view : View) (bytes : ByteArray) : View where
  content := view.content.extract 0 view.position ++ bytes
    ++ view.content.extract (view.position + bytes.size) view.content.size
  position := view.position + bytes.size

/-- The content with room for more behind it. -/
def grown (view : View) (count : Nat) : ByteArray := view.content ++ Bytes.zeros count

/-- The region of `count` bytes from the position on. -/
def region (view : View) (count : Nat) : ByteArray :=
  (view.grown count).extract view.position (view.position + count)

/-- What was written of a region takes the place of the content there, and the content does not
grow. -/
def overwrite (view : View) (written : ByteArray) : View :=
  { view with
    content := (Bytes.overwrite (view.grown written.size) view.position written).extract 0
      view.content.size }

/-- An append, which has something to write in the region and fails or does not. -/
def write (view : View) (bytes : ByteArray) (writer : RegionWriter) : View :=
  match writer.write (view.region bytes.size) with
  | (.ok (), _) => view.append bytes
  | (.error _, written) => view.overwrite written

end View

def Start.view : Start → View
  | empty | withCapacity _ => View.empty
  | ofBytes bytes => ⟨bytes, 0⟩

def Step.viewAfter : Step → View → View
  | stage bytes, _ => ⟨bytes, 0⟩
  | fill source count _, _ => ⟨source.extract 0 count, 0⟩
  | append bytes writer, view => view.write bytes writer
  | clear, _ => View.empty
  | seek target, view => view.run (Reader.seek target)
  | skip count, view => view.run (Reader.skip count)
  | align alignment, view => view.run (Reader.align alignment)
  | read field, view => view.run field.reader
  | readAt _, view => view

def Start.runView (start : Start) (steps : List Step) : View :=
  steps.foldl (fun view step => step.viewAfter view) start.view

/-- The bytes that were given since the content was last replaced, also by an append that failed,
for it may have written some of them. -/
def Step.givenAfter : Step → List ByteArray → List ByteArray
  | stage bytes, _ => [bytes]
  | fill source count _, _ => [source.extract 0 count]
  | append bytes _, given => given ++ [bytes]
  | clear, _ => []
  | _, given => given

def Start.given : Start → List ByteArray
  | ofBytes bytes => [bytes]
  | _ => []

def Start.runGiven (start : Start) (steps : List Step) : List ByteArray :=
  steps.foldl (fun given step => step.givenAfter given) start.given

/-! ### Content and buffer -/

/-- The position is in the content, and the content in the buffer. -/
structure Valid (cursor : Cursor) : Prop where
  position_le : cursor.position ≤ cursor.length
  length_le : cursor.length ≤ cursor.buffer.size

variable {cursor : Cursor}

theorem Valid.size_content (h : Valid cursor) : cursor.content.size = cursor.length := by
  rw [content, size_extract_of_le h.length_le, Nat.sub_zero]

theorem Valid.position_le_size (h : Valid cursor) : cursor.position ≤ cursor.content.size := by
  rw [h.size_content]
  exact h.position_le

/-- Growing keeps what is in front. -/
theorem extract_grow {capacity low high : Nat} (inside : high ≤ cursor.buffer.size) :
    (cursor.grow capacity).buffer.extract low high = cursor.buffer.extract low high :=
  Bytes.extract_append_left inside

theorem length_le_size_grow (capacity : Nat) (h : Valid cursor) :
    cursor.length ≤ (cursor.grow capacity).buffer.size := by
  have hlength := h.length_le
  rw [grow]
  dsimp only
  rw [ByteArray.size_append]
  omega

theorem valid_stage (cursor : Cursor) (bytes : ByteArray) : Valid (cursor.stage bytes) := by
  have hsize := cursor.size_grow bytes.size
  constructor
  case position_le => exact Nat.zero_le _
  case length_le =>
    rw [stage]
    dsimp only
    rwa [Bytes.size_overwrite (by omega)]

/-- The content is what was staged, whatever the buffer held before. -/
theorem content_stage (cursor : Cursor) (bytes : ByteArray) :
    (cursor.stage bytes).content = bytes := by
  have hsize := cursor.size_grow bytes.size
  have hpiece := @Bytes.extract_overwrite (cursor.grow bytes.size).buffer bytes 0 (by omega)
  rw [Nat.zero_add, ByteArray.extract_same, ByteArray.empty_append] at hpiece
  exact hpiece

theorem fill_of_le {source : ByteArray} {count : Nat} (h : count ≤ source.size) :
    (cursor.fill source count).2 = cursor.stage (source.extract 0 count) := by
  rw [fill, if_pos h]

/-- What an append hands to its writer. -/
def region (cursor : Cursor) (count : Nat) : ByteArray :=
  (cursor.grow (cursor.position + count)).buffer.extract cursor.position (cursor.position + count)

theorem size_region (cursor : Cursor) (count : Nat) : (cursor.region count).size = count := by
  rw [region, size_extract_of_le (cursor.size_grow _), Nat.add_sub_cancel_left]

variable {writer : RegionWriter} {count : Nat} {bytes : ByteArray} {error : DecodeError}

theorem append_of_ok (h : writer.write (cursor.region count) = (.ok (), bytes)) :
    (cursor.append writer count).2 =
      { buffer := Bytes.overwrite (cursor.grow (cursor.position + count)).buffer cursor.position
          bytes
        length := max cursor.length (cursor.position + count)
        position := cursor.position + count } := by
  unfold append
  unfold region at h
  simp only [h]

theorem append_of_error (h : writer.write (cursor.region count) = (.error error, bytes)) :
    (cursor.append writer count).2 =
      { cursor with
        buffer := Bytes.overwrite (cursor.grow (cursor.position + count)).buffer cursor.position
          bytes } := by
  unfold append
  unfold region at h
  simp only [h]

/-- Whatever is written, the cursor stays in its buffer. -/
theorem valid_append (writer : RegionWriter) (count : Nat) (hvalid : Valid cursor) :
    Valid (cursor.append writer count).2 := by
  have hgrow := cursor.size_grow (cursor.position + count)
  have hlength := length_le_size_grow (cursor.position + count) hvalid
  have hwritten := writer.size_write (cursor.region count)
  rw [size_region] at hwritten
  rcases h : writer.write (cursor.region count) with ⟨_ | _, written⟩
  all_goals
    rw [h] at hwritten
    dsimp only at hwritten
  case error =>
    rw [append_of_error h]
    refine ⟨hvalid.position_le, ?_⟩
    dsimp only
    rwa [Bytes.size_overwrite (by omega)]
  case ok =>
    rw [append_of_ok h]
    constructor
    case position_le => exact Nat.le_max_right _ _
    case length_le =>
      dsimp only
      rw [Bytes.size_overwrite (by omega)]
      omega

/-- What is written over the bytes, and what goes on behind it. -/
theorem extract_overwrite_of_le {bytes piece : ByteArray} {start high : Nat}
    (room : start + piece.size ≤ high) (inside : high ≤ bytes.size) :
    (Bytes.overwrite bytes start piece).extract 0 high
      = bytes.extract 0 start ++ piece ++ bytes.extract (start + piece.size) high := by
  have hfront : (bytes.extract 0 start ++ piece).size = start + piece.size := by
    rw [ByteArray.size_append, size_extract_of_le (by omega), Nat.sub_zero]
  have hwhole := @ByteArray.extract_zero_max_size (bytes.extract 0 start ++ piece) high
  rw [hfront, Nat.max_eq_left room] at hwhole
  rw [Bytes.overwrite, ByteArray.extract_append, hwhole, hfront, Nat.zero_sub,
    ByteArray.extract_extract, Nat.add_zero, Nat.add_sub_cancel' room, Nat.min_eq_left inside]

/-- A part of the content is a part of the buffer. -/
theorem extract_content {low high : Nat} (inside : high ≤ cursor.length) :
    cursor.content.extract low high = cursor.buffer.extract low high := by
  rw [content, ByteArray.extract_extract, Nat.zero_add, Nat.zero_add, Nat.min_eq_left inside]

/-- The bytes of an append take the place of the content behind the position, and go on behind
it. -/
theorem view_append_of_ok (hvalid : Valid cursor)
    (h : writer.write (cursor.region bytes.size) = (.ok (), bytes)) :
    (cursor.append writer bytes.size).2.view = cursor.view.append bytes := by
  have hposition := hvalid.position_le
  have hlength := hvalid.length_le
  have hgrow := cursor.size_grow (cursor.position + bytes.size)
  have hbehind := length_le_size_grow (cursor.position + bytes.size) hvalid
  rw [append_of_ok h, view, view, View.append, content]
  dsimp only
  rw [extract_overwrite_of_le (by omega) (by omega), extract_grow (by omega),
    extract_content hposition, hvalid.size_content]
  congr 2
  -- the content goes on behind the bytes, if they do not go beyond its end
  rcases Nat.le_total (cursor.position + bytes.size) cursor.length with hinside | houtside
  · rw [Nat.max_eq_left hinside, extract_grow hlength, extract_content (Nat.le_refl _)]
  · rw [Nat.max_eq_right houtside, ByteArray.extract_same]
    exact (ByteArray.extract_eq_empty_iff.mpr (by omega)).symm

theorem View.size_grown (view : View) (count : Nat) :
    (view.grown count).size = view.content.size + count := by
  rw [grown, ByteArray.size_append, Bytes.size_zeros]

theorem View.size_region (view : View) (inside : view.position ≤ view.content.size) (count : Nat) :
    (view.region count).size = count := by
  rw [region, size_extract_of_le (by rw [size_grown]; omega), Nat.add_sub_cancel_left]

namespace View

variable {view : View} {written : ByteArray}

theorem write_of_ok (h : writer.write (view.region bytes.size) = (.ok (), written)) :
    view.write bytes writer = view.append bytes := by
  unfold write
  simp only [h]

theorem write_of_error (h : writer.write (view.region bytes.size) = (.error error, written)) :
    view.write bytes writer = view.overwrite written := by
  unfold write
  simp only [h]

end View

/-- Of an append that fails, what it has written of its bytes can be seen as far as the content
goes. -/
theorem view_append_of_error {written : Nat → Bool} (hvalid : Valid cursor)
    (h : writer.write (cursor.region bytes.size)
      = (.error error, RegionWriter.laid written bytes (cursor.region bytes.size))) :
    (cursor.append writer bytes.size).2.view
      = cursor.view.overwrite
          (RegionWriter.laid written bytes (cursor.view.region bytes.size)) := by
  have hposition := hvalid.position_le_size
  have hregion : (cursor.view.region bytes.size).size = bytes.size :=
    View.size_region cursor.view hposition bytes.size
  have hagree : (cursor.grow (cursor.position + bytes.size)).buffer.extract 0 cursor.length
      = (cursor.view.grown bytes.size).extract 0 cursor.length := by
    have hcontent : cursor.length ≤ cursor.view.content.size := hvalid.size_content.ge
    rw [extract_grow hvalid.length_le, View.grown, Bytes.extract_append_left hcontent]
    exact (extract_content (Nat.le_refl _)).symm
  have hwritten := RegionWriter.extract_overwrite_laid written hagree
    (cursor.size_grow _) (by rw [View.size_grown]; exact Nat.add_le_add_right hposition _)
  rw [append_of_error h, View.overwrite, RegionWriter.size_laid, hregion]
  show View.mk (ByteArray.extract _ 0 cursor.length) _
    = View.mk (ByteArray.extract _ 0 cursor.content.size) _
  rw [hvalid.size_content]
  exact congrArg (View.mk · cursor.position) hwritten

/-- An append shows the bytes that were delivered, and nothing that the buffer held. -/
theorem view_append (hvalid : Valid cursor)
    (delivers : writer.Delivers bytes) :
    (cursor.append writer bytes.size).2.view = cursor.view.write bytes writer := by
  have hregion : (cursor.view.region bytes.size).size = bytes.size :=
    View.size_region cursor.view hvalid.position_le_size bytes.size
  cases delivers with
  | fills h =>
    rw [View.write_of_ok (h _ hregion)]
    exact view_append_of_ok hvalid (h _ (size_region cursor _))
  | fails error written h =>
    rw [View.write_of_error (h _ hregion)]
    exact view_append_of_error hvalid (h _ (size_region cursor _))

/-! ### Readers -/

/-- A reader runs on what can be seen, and changes nothing but the position. -/
theorem view_run {α : Type} (cursor : Cursor) (reader : Reader α) :
    (cursor.run reader).2.view = cursor.view.run reader := by
  rw [run, View.run, view, view]
  cases reader cursor.content cursor.position <;> rfl

theorem run_snd {α : Type} (cursor : Cursor) (reader : Reader α) :
    (cursor.run reader).2
      = { cursor with position := stopOf (reader cursor.content cursor.position) } := by
  rw [run]
  cases reader cursor.content cursor.position <;> rfl

/-- A reader that starts in the content stops in the content. -/
def StaysInside {α : Type} (reader : Reader α) : Prop :=
  ∀ content position, position ≤ content.size → stopOf (reader content position) ≤ content.size

theorem valid_run {α : Type} {reader : Reader α} (hreader : StaysInside reader)
    (hvalid : Valid cursor) : Valid (cursor.run reader).2 := by
  have hstop := hreader cursor.content cursor.position hvalid.position_le_size
  rw [hvalid.size_content] at hstop
  rw [run_snd]
  exact ⟨hstop, hvalid.length_le⟩

namespace StaysInside

protected theorem seek (target : Nat) : StaysInside (Reader.seek target) := by
  intro content position hposition
  rw [Reader.seek]
  by_cases h : target ≤ content.size
  · rwa [if_pos h]
  · rwa [if_neg h]

protected theorem skip (count : Nat) : StaysInside (Reader.skip count) := by
  intro content position hposition
  rw [Reader.skip]
  by_cases h : position + count ≤ content.size
  · rwa [if_pos h]
  · rwa [if_neg h]

protected theorem align (alignment : Nat) : StaysInside (Reader.align alignment) := by
  intro content position
  exact StaysInside.seek _ content position

protected theorem field {α : Type} (field : Field α) : StaysInside field.reader := by
  intro content position hposition
  cases h : field.reader content position with
  | done value stop =>
    obtain ⟨piece, hpiece, -, rfl⟩ := Field.reader_eq_done_iff.mp h
    exact hpiece.le_size
  | failed error stop =>
    obtain ⟨kind, offset, -, hfails⟩ := Field.reader_eq_failed_iff.mp h
    exact (hfails.stop_mem hposition).2

end StaysInside

/-! ### Steps -/

theorem Step.valid_after (step : Step) (hvalid : Valid cursor) : Valid (step.after cursor) := by
  cases step with
  | stage bytes => exact valid_stage cursor bytes
  | fill source count enough =>
    rw [after, fill_of_le enough]
    exact valid_stage cursor _
  | append bytes writer => exact valid_append writer _ hvalid
  | clear => exact ⟨Nat.le_refl _, Nat.zero_le _⟩
  | seek target => exact valid_run (.seek target) hvalid
  | skip count => exact valid_run (.skip count) hvalid
  | align alignment => exact valid_run (.align alignment) hvalid
  | read field => exact valid_run (.field field) hvalid
  | readAt target =>
    rw [after, run_terminatedStringAt]
    exact hvalid

theorem view_stage (cursor : Cursor) (bytes : ByteArray) :
    (cursor.stage bytes).view = ⟨bytes, 0⟩ := by
  rw [view, content_stage]
  rfl

theorem view_of_length_eq_zero (hlength : cursor.length = 0) (hposition : cursor.position = 0) :
    cursor.view = .empty := by
  rw [view, content, hlength, hposition, ByteArray.extract_same]
  rfl

theorem Step.view_after {step : Step} (delivers : step.Delivers) (hvalid : Valid cursor) :
    (step.after cursor).view = step.viewAfter cursor.view := by
  cases step with
  | stage bytes => exact view_stage cursor bytes
  | fill source count enough =>
    rw [after, fill_of_le enough]
    exact view_stage cursor _
  | append bytes writer => exact view_append hvalid delivers
  | clear => exact view_of_length_eq_zero rfl rfl
  | seek target => exact view_run cursor _
  | skip count => exact view_run cursor _
  | align alignment => exact view_run cursor _
  | read field => exact view_run cursor _
  | readAt target =>
    rw [after, run_terminatedStringAt]
    rfl

theorem Start.valid_cursor (start : Start) : Valid start.cursor := by
  cases start with
  | empty => exact ⟨Nat.le_refl _, Nat.le_refl _⟩
  | withCapacity capacity => exact ⟨Nat.le_refl _, Nat.zero_le _⟩
  | ofBytes bytes => exact ⟨Nat.zero_le _, Nat.le_refl _⟩

theorem Start.view_cursor (start : Start) : start.cursor.view = start.view := by
  cases start with
  | empty => rfl
  | withCapacity capacity => exact view_of_length_eq_zero rfl rfl
  | ofBytes bytes =>
    show View.mk (bytes.extract 0 bytes.size) 0 = ⟨bytes, 0⟩
    rw [ByteArray.extract_zero_size]

/-! ### Given bytes -/

theorem byteAt_of_lt {content : ByteArray} {index : Nat} (inside : index < content.size) :
    byteAt content index = content[index] := dif_pos inside

/-- Every byte of the content is in one of the pieces. -/
def Given (pieces : List ByteArray) (content : ByteArray) : Prop :=
  ∀ byte ∈ content.data.toList, ∃ piece ∈ pieces, byte ∈ piece.data.toList

namespace Given

variable {pieces : List ByteArray} {left right content : ByteArray}

theorem of_mem (h : content ∈ pieces) : Given pieces content :=
  fun _ hbyte => ⟨content, h, hbyte⟩

protected theorem append (hleft : Given pieces left) (hright : Given pieces right) :
    Given pieces (left ++ right) := by
  intro byte hbyte
  rw [ByteArray.data_append, Array.toList_append, List.mem_append] at hbyte
  exact hbyte.elim (hleft byte) (hright byte)

protected theorem extract (h : Given pieces content) (low high : Nat) :
    Given pieces (content.extract low high) := by
  intro byte hbyte
  obtain ⟨index, hindex, rfl⟩ := mem_toList_iff.mp hbyte
  rw [ByteArray.getElem_extract]
  exact h _ (mem_toList_iff.mpr ⟨_, _, rfl⟩)

theorem mono {more : List ByteArray} (h : Given pieces content) (hmore : pieces ⊆ more) :
    Given more content := by
  intro byte hbyte
  obtain ⟨piece, hpiece, hmem⟩ := h byte hbyte
  exact ⟨piece, hmore hpiece, hmem⟩

end Given

/-- Of an append that fails, the content has some bytes at most. -/
theorem View.given_overwrite {view : View} {pieces : List ByteArray} {bytes : ByteArray}
    {written : Nat → Bool} (inside : view.position ≤ view.content.size)
    (h : Given pieces view.content) :
    Given (pieces ++ [bytes])
      (view.overwrite (RegionWriter.laid written bytes (view.region bytes.size))).content := by
  intro byte hbyte
  obtain ⟨index, hindex, rfl⟩ := mem_toList_iff.mp hbyte
  have hsize : index < view.content.size := by
    rw [overwrite, ByteArray.size_extract] at hindex
    omega
  rw [← byteAt_of_lt hindex, overwrite, RegionWriter.size_laid, view.size_region inside,
    Bytes.byteAt_extract, Nat.zero_add, if_pos hsize, region,
    RegionWriter.byteAt_overwrite_laid (by rw [size_grown]; omega)]
  split
  · next hwritten =>
    -- the byte is one that the append has written
    have hbytes : index - view.position < bytes.size := by omega
    rw [byteAt_of_lt hbytes]
    exact ⟨bytes, by simp, mem_toList_iff.mpr ⟨_, hbytes, rfl⟩⟩
  · rw [grown, byteAt_append_left hsize, byteAt_of_lt hsize]
    exact h.mono (List.subset_append_left ..) _ (mem_toList_iff.mpr ⟨index, hsize, rfl⟩)

theorem Step.given_after {step : Step} (delivers : step.Delivers) {pieces : List ByteArray}
    {view : View} (inside : view.position ≤ view.content.size) (h : Given pieces view.content) :
    Given (step.givenAfter pieces) (step.viewAfter view).content := by
  cases step with
  | stage bytes => exact .of_mem List.mem_cons_self
  | fill source count enough => exact .of_mem List.mem_cons_self
  | append bytes writer =>
    have hregion := view.size_region inside bytes.size
    rw [givenAfter, viewAfter]
    cases delivers with
    | fills hwrites =>
      have hbefore := h.mono (List.subset_append_left pieces [bytes])
      rw [View.write_of_ok (hwrites _ hregion)]
      exact ((hbefore.extract _ _).append (.of_mem (by simp))).append (hbefore.extract _ _)
    | fails error written hwrites =>
      rw [View.write_of_error (hwrites _ hregion)]
      exact view.given_overwrite inside h
  | clear => nofun
  | seek | skip | align | read | readAt => exact h

theorem Start.given_view (start : Start) : Given start.given start.view.content := by
  cases start with
  | ofBytes bytes => exact .of_mem List.mem_cons_self
  | empty | withCapacity => nofun

/-! ### Whole runs -/

/-- What one step keeps, a run keeps. -/
theorem Start.valid_run (start : Start) (steps : List Step) : Valid (start.run steps) := by
  induction steps using List.reverseRecOn with
  | nil => exact start.valid_cursor
  | append_singleton steps step ih =>
    rw [run, List.foldl_append]
    exact step.valid_after ih

/-- What can be seen of the cursor is what the machine without a buffer has, which is made of the
pieces. -/
structure Mirrors (cursor : Cursor) (view : View) (pieces : List ByteArray) : Prop where
  valid : Valid cursor
  view_eq : cursor.view = view
  given : Given pieces view.content

theorem Mirrors.after {view : View} {pieces : List ByteArray} (h : Mirrors cursor view pieces)
    {step : Step} (delivers : step.Delivers) :
    Mirrors (step.after cursor) (step.viewAfter view) (step.givenAfter pieces) where
  valid := step.valid_after h.valid
  view_eq := by rw [step.view_after delivers h.valid, h.view_eq]
  given := step.given_after delivers (h.view_eq ▸ h.valid.position_le_size) h.given

theorem Start.mirrors_run (start : Start) {steps : List Step}
    (deliver : ∀ step ∈ steps, step.Delivers) :
    Mirrors (start.run steps) (start.runView steps) (start.runGiven steps) := by
  induction steps using List.reverseRecOn with
  | nil => exact ⟨start.valid_cursor, start.view_cursor, start.given_view⟩
  | append_singleton steps step ih =>
    rw [run, runView, runGiven, List.foldl_append, List.foldl_append, List.foldl_append]
    exact (ih fun other hother => deliver other (List.mem_append_left _ hother)).after
      (deliver step (by simp))

/-! ### Reads -/

variable {α : Type} {after : Cursor} {error : DecodeError}

theorem run_eq_ok_iff {reader : Reader α} {value : α} :
    cursor.run reader = (.ok value, after) ↔
      ∃ stop, reader cursor.content cursor.position = .done value stop ∧
        after = { cursor with position := stop } := by
  rw [run]
  cases reader cursor.content cursor.position with
  | done value' stop => simp [eq_comm]
  | failed error stop => simp

/-- A field gives the value whose bytes are at the position, and the cursor moves over them. -/
theorem Field.run_eq_ok_iff {field : Field α} {value : α} :
    cursor.run field.reader = (.ok value, after) ↔
      ∃ piece, StandsAt piece cursor.content cursor.position ∧ field.Encodes piece value ∧
        after = { cursor with position := cursor.position + piece.size } := by
  rw [Cursor.run_eq_ok_iff]
  simp only [reader_eq_done_iff]
  constructor
  · rintro ⟨_, ⟨piece, hpiece, hvalue, rfl⟩, hafter⟩
    exact ⟨piece, hpiece, hvalue, hafter⟩
  · rintro ⟨piece, hpiece, hvalue, hafter⟩
    exact ⟨_, ⟨piece, hpiece, hvalue, rfl⟩, hafter⟩

theorem Valid.remaining_lt_iff (hvalid : Valid cursor) {count : Nat} :
    cursor.remaining < count ↔ cursor.content.size < cursor.position + count := by
  have hposition := hvalid.position_le
  rw [hvalid.size_content, remaining]
  omega

/-- A field that is taken at once fails exactly if it is longer than what remains, and then the
cursor is as before. -/
theorem Field.run_taken_eq_error_iff (hvalid : Valid cursor) {field : Field α} {width : Nat}
    (htaken : field.taken? = some width) :
    cursor.run field.reader = (.error error, after) ↔
      cursor.remaining < width ∧ error = .ofKindAt .unexpectedEnd cursor.position ∧
        after = cursor := by
  rw [hvalid.remaining_lt_iff, Cursor.run_eq_error_iff]
  constructor
  · rintro ⟨stop, hfailed, rfl⟩
    rcases Nat.lt_or_ge cursor.content.size (cursor.position + width) with hlt | hle
    · rw [reader_of_lt htaken hlt] at hfailed
      cases hfailed
      exact ⟨hlt, rfl, rfl⟩
    · obtain ⟨value, hdone⟩ := exists_reader_eq_done (width?_of_taken? htaken) hle
      rw [hdone] at hfailed
      cases hfailed
  · rintro ⟨hlt, rfl, rfl⟩
    exact ⟨_, reader_of_lt htaken hlt, rfl⟩

theorem run_skip_eq_error_iff (hvalid : Valid cursor) {count : Nat} :
    cursor.run (Reader.skip count) = (.error error, after) ↔
      cursor.remaining < count ∧ error = .ofKindAt .unexpectedEnd cursor.position ∧
        after = cursor := by
  rw [hvalid.remaining_lt_iff, run_eq_error_iff, Reader.skip]
  constructor
  · rintro ⟨stop, hfailed, rfl⟩
    split at hfailed
    · cases hfailed
    · next h =>
      cases hfailed
      exact ⟨Nat.lt_of_not_le h, rfl, rfl⟩
  · rintro ⟨hlt, rfl, rfl⟩
    exact ⟨_, if_neg (Nat.not_le.mpr hlt), rfl⟩

/-- Skipping a text stops where reading it does, whether or not the text is well formed. -/
theorem run_skipTerminated_snd (cursor : Cursor) :
    (cursor.run Reader.skipTerminated).2 = (cursor.run Reader.terminatedString).2 := by
  rw [run_snd, run_snd]
  congr 1
  cases h : Reader.terminatedBytes cursor.content cursor.position with
  | done bytes stop =>
    rw [Reader.terminatedString_of_done h, Reader.skipTerminated, Reader.bind_of_done h,
      Reader.utf8]
    cases String.fromUTF8? bytes <;> rfl
  | failed error stop =>
    rw [Reader.terminatedString_of_failed h, Reader.skipTerminated, Reader.bind_of_failed h]
    rfl

/-- Reading a text elsewhere gives what reading it there gives. -/
theorem run_terminatedStringAt_fst (cursor : Cursor) {target : Nat}
    (htarget : target ≤ cursor.content.size) :
    (cursor.run (Reader.terminatedStringAt target)).1
      = ({ cursor with position := target }.run Reader.terminatedString).1 := by
  rw [run, run, Reader.terminatedStringAt, Reader.seek_of_le htarget]
  dsimp only
  rw [show content { cursor with position := target } = cursor.content from rfl]
  cases Reader.terminatedString cursor.content target <;> rfl

/-- The cursor reads what it says, and no more. -/
structure Exact (cursor : Cursor) : Prop where
  /-- A reader, done or failed, changes nothing but the position. -/
  keeps : ∀ (α : Type) (reader : Reader α),
    (cursor.run reader).2 = { cursor with position := (cursor.run reader).2.position }
  /-- A field gives the value whose bytes are at the position, and moves over these bytes. -/
  reads : ∀ (α : Type) (field : Field α) (value : α) (after : Cursor),
    cursor.run field.reader = (.ok value, after) ↔
      ∃ piece, StandsAt piece cursor.content cursor.position ∧ field.Encodes piece value ∧
        after = { cursor with position := cursor.position + piece.size }
  /-- The bytes of a field of a known size are as many as it has. -/
  width : ∀ (α : Type) (field : Field α) (value : α) (piece : ByteArray) (width : Nat),
    field.Encodes piece value → field.width? = some width → piece.size = width
  /-- Bytes, moves over bytes and lists of numbers fail exactly if they go beyond the end, however
  many there are, and then nothing has changed. -/
  bytes : ∀ (count : Nat) (error : DecodeError) (after : Cursor),
    cursor.run (Reader.bytes count) = (.error error, after) ↔
      cursor.remaining < count ∧ error = .ofKindAt .unexpectedEnd cursor.position ∧ after = cursor
  skip : ∀ (count : Nat) (error : DecodeError) (after : Cursor),
    cursor.run (Reader.skip count) = (.error error, after) ↔
      cursor.remaining < count ∧ error = .ofKindAt .unexpectedEnd cursor.position ∧ after = cursor
  uint32s : ∀ (count : Nat) (error : DecodeError) (after : Cursor),
    cursor.run (Reader.uint32s count) = (.error error, after) ↔
      cursor.remaining < count * 4 ∧ error = .ofKindAt .unexpectedEnd cursor.position ∧
        after = cursor
  /-- Skipping a text stops where reading it does. -/
  skipTerminated : (cursor.run Reader.skipTerminated).2 = (cursor.run Reader.terminatedString).2
  /-- A text elsewhere is read as if the cursor were there, but the cursor stays. -/
  readAt : ∀ target, (cursor.run (Reader.terminatedStringAt target)).2 = cursor ∧
    (target ≤ cursor.length → (cursor.run (Reader.terminatedStringAt target)).1
      = ({ cursor with position := target }.run Reader.terminatedString).1)

theorem Valid.exact (hvalid : Valid cursor) : Exact cursor where
  keeps := fun _ reader => by rw [run_snd]
  reads := fun _ _ _ _ => Field.run_eq_ok_iff
  width := fun _ _ _ _ _ hvalue hwidth => Field.size_of_encodes hvalue hwidth
  bytes := fun count _ _ =>
    @Field.run_taken_eq_error_iff cursor ByteArray _ _ hvalid (.bytes count) _ rfl
  skip := fun _ _ _ => run_skip_eq_error_iff hvalid
  uint32s := fun count _ _ =>
    @Field.run_taken_eq_error_iff cursor (List UInt32) _ _ hvalid (.uint32s count) _ rfl
  skipTerminated := run_skipTerminated_snd cursor
  readAt := fun target => ⟨run_terminatedStringAt cursor target, fun htarget =>
    run_terminatedStringAt_fst cursor (hvalid.size_content ▸ htarget)⟩

/-- Whatever was done with a cursor, the position is in the content and the content in the buffer,
and all reads are exact.  If each append had a writer that delivers its bytes, the content and the
position are those of the machine without a buffer, so that the content is made of the bytes given
since it was last replaced. -/
theorem Start.run_exact (start : Start) (steps : List Step) :
    let cursor := start.run steps
    cursor.position ≤ cursor.length ∧ cursor.length ≤ cursor.buffer.size ∧
      cursor.content.size = cursor.length ∧ Exact cursor ∧
      ((∀ step ∈ steps, step.Delivers) →
        cursor.view = start.runView steps ∧ Given (start.runGiven steps) cursor.content) := by
  intro cursor
  have hvalid : Valid cursor := start.valid_run steps
  refine ⟨hvalid.position_le, hvalid.length_le, hvalid.size_content, hvalid.exact, ?_⟩
  intro deliver
  have h : Mirrors cursor (start.runView steps) (start.runGiven steps) := start.mirrors_run deliver
  have hgiven := h.given
  rw [← h.view_eq] at hgiven
  exact ⟨h.view_eq, hgiven⟩

/-- Writes the first `count` bytes and fails. -/
def failingWriter (bytes : ByteArray) (count : Nat) : RegionWriter where
  write region :=
    (.error (.ofKind .sourceUnreadable), RegionWriter.laid (· < count) bytes region)
  size_write _ := by simp only [RegionWriter.size_laid]

/-- What was staged first leaves bytes behind what is staged then, and the second append fails with
one of its bytes written. -/
def leftOverSteps : List Step := [
  .stage ⟨#[1, 2, 3, 4]⟩,
  .stage ⟨#[5]⟩,
  .skip 1,
  .append ⟨#[6, 7]⟩ (.ofSource ⟨#[6, 7, 8]⟩),
  .seek 1,
  .append ⟨#[9, 10, 11]⟩ (failingWriter ⟨#[9, 10, 11]⟩ 1)]

theorem Start.run_exact_leftOverSteps :
    let cursor := Start.empty.run leftOverSteps
    (∀ step ∈ leftOverSteps, step.Delivers) ∧ cursor.buffer = ⟨#[5, 9, 7, 4]⟩ ∧
      cursor.view = ⟨⟨#[5, 9, 7]⟩, 1⟩ ∧
      Given [⟨#[5]⟩, ⟨#[6, 7]⟩, ⟨#[9, 10, 11]⟩] cursor.content ∧
      cursor.run (Reader.bytes 3) = (.error (.ofKindAt .unexpectedEnd 1), cursor) := by
  intro cursor
  have deliver : ∀ step ∈ leftOverSteps, step.Delivers := by
    simp only [leftOverSteps, List.forall_mem_cons]
    refine ⟨trivial, trivial, trivial, ?filled, trivial, ?failed, nofun⟩
    case filled => exact RegionWriter.delivers_ofSource ⟨#[6, 7, 8]⟩ 2
    case failed => exact .fails _ _ fun _ _ => rfl
  obtain ⟨-, -, -, exact, hview⟩ := Start.run_exact .empty leftOverSteps
  obtain ⟨hviewed, hgiven⟩ := hview deliver
  have hbuffer : cursor.buffer = ⟨#[5, 9, 7, 4]⟩ := by decide +kernel
  have hremaining : cursor.remaining = 2 ∧ cursor.position = 1 := by decide +kernel
  refine ⟨deliver, hbuffer, hviewed, hgiven, (exact.bytes ..).mpr ⟨?_, ?_, rfl⟩⟩
  · exact hremaining.1.trans_lt (by decide)
  · rw [hremaining.2]

end ManagedPdb.Cursor
