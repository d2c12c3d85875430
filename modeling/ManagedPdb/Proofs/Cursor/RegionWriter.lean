import ManagedPdb.Cursor
import ManagedPdb.Proofs.Bytes

/-!
# What is written to a region

A writer finds in a region what earlier contents have left there.  One that delivers its bytes
(`RegionWriter.Delivers`) does not depend on that: it writes them over all of the region, or it
fails with some of them written and the rest of the region as it was.  What it has written then is
the same in all buffers that agree (`RegionWriter.extract_overwrite_laid`).
-/

namespace ManagedPdb.RegionWriter

/-- The bytes of a region after those of `bytes` were written that `written` says. -/
def laid (written : Nat → Bool) (bytes region : ByteArray) : ByteArray :=
  ⟨((List.range region.size).map fun index =>
    if written index then byteAt bytes index else byteAt region index).toArray⟩

/-- The writer is for regions of the size of `bytes`, and all that it ever writes are these bytes,
each at its place.  Whether it fails and how much it writes is up to the writer and not to what the
region holds; a writer that does not fail writes all of them. -/
inductive Delivers (writer : RegionWriter) (bytes : ByteArray) : Prop where
  | fills : (∀ region, region.size = bytes.size → writer.write region = (.ok (), bytes)) →
      Delivers writer bytes
  | fails (error : DecodeError) (written : Nat → Bool) :
      (∀ region, region.size = bytes.size →
        writer.write region = (.error error, laid written bytes region)) →
      Delivers writer bytes

variable {written : Nat → Bool} {bytes region : ByteArray}

@[simp] theorem size_laid : (laid written bytes region).size = region.size := by
  show (List.toArray _).size = _
  rw [List.size_toArray, List.length_map, List.length_range]

theorem byteAt_laid {index : Nat} (inside : index < region.size) :
    byteAt (laid written bytes region) index
      = if written index then byteAt bytes index else byteAt region index := by
  rw [byteAt, dif_pos (size_laid.symm ▸ inside)]
  simp only [laid, ByteArray.getElem_eq_getElem_data, List.getElem_toArray, List.getElem_map,
    List.getElem_range]

/-- Nothing is written. -/
theorem laid_false : laid (fun _ => false) bytes region = region :=
  Bytes.ext_byteAt size_laid fun _ inside => by
    rw [byteAt_laid (size_laid ▸ inside)]
    rfl

/-- A source delivers the bytes that it has, filled up if they are too few. -/
theorem delivers_ofSource (source : ByteArray) (count : Nat) :
    (ofSource source).Delivers (Bytes.resize source count) := by
  rcases Nat.lt_or_ge source.size count with hlt | hle
  · refine .fails (.ofKind .sourceUnreadable) (fun _ => false) fun region hregion => ?_
    rw [Bytes.size_resize] at hregion
    rw [laid_false, ofSource]
    exact if_neg (by omega)
  · refine .fills fun region hregion => ?_
    rw [Bytes.size_resize] at hregion
    have hresize : Bytes.resize source count = source.extract 0 count := by
      have hzeros : Bytes.zeros 0 = ByteArray.empty := rfl
      rw [Bytes.resize, Nat.sub_eq_zero_of_le hle, hzeros, ByteArray.append_empty]
    rw [hresize, ofSource, ← hregion]
    exact if_pos (by omega)

/-! ### Regions of a buffer -/

variable {start index : Nat} {buffer : ByteArray}

/-- A byte of a buffer after a region of it was written to. -/
theorem byteAt_overwrite_laid (room : start + bytes.size ≤ buffer.size) :
    byteAt (Bytes.overwrite buffer start
        (laid written bytes (buffer.extract start (start + bytes.size)))) index
      = if start ≤ index ∧ index < start + bytes.size ∧ written (index - start) then
          byteAt bytes (index - start)
        else byteAt buffer index := by
  have hregion : (buffer.extract start (start + bytes.size)).size = bytes.size := by
    rw [ByteArray.size_extract]
    omega
  rw [Bytes.byteAt_overwrite (by rw [size_laid, hregion]; exact room), size_laid, hregion]
  by_cases hinside : start ≤ index ∧ index < start + bytes.size
  · rw [if_pos hinside, byteAt_laid (by omega), Bytes.byteAt_extract,
      Nat.add_sub_cancel' hinside.1, if_pos hinside.2]
    simp only [hinside, true_and]
  · rw [if_neg hinside, if_neg fun h => hinside ⟨h.1, h.2.1⟩]

/-- Buffers that agree in front still do after the same was written to them. -/
theorem extract_overwrite_laid (written : Nat → Bool) {left right : ByteArray} {length : Nat}
    (agree : left.extract 0 length = right.extract 0 length)
    (hleft : start + bytes.size ≤ left.size) (hright : start + bytes.size ≤ right.size) :
    (Bytes.overwrite left start
        (laid written bytes (left.extract start (start + bytes.size)))).extract 0 length
      = (Bytes.overwrite right start
          (laid written bytes (right.extract start (start + bytes.size)))).extract 0 length := by
  have hsize : ∀ {buffer : ByteArray}, start + bytes.size ≤ buffer.size →
      (Bytes.overwrite buffer start
        (laid written bytes (buffer.extract start (start + bytes.size)))).size = buffer.size := by
    intro buffer room
    refine Bytes.size_overwrite ?_
    rw [size_laid, ByteArray.size_extract]
    omega
  apply Bytes.ext_byteAt
  · have hsizes := congrArg ByteArray.size agree
    rw [ByteArray.size_extract, ByteArray.size_extract] at hsizes ⊢
    rwa [hsize hleft, hsize hright]
  · intro index _
    have hbyte := congrArg (byteAt · index) agree
    rw [Bytes.byteAt_extract, Bytes.byteAt_extract, Nat.zero_add] at hbyte ⊢
    rw [byteAt_overwrite_laid hleft, byteAt_overwrite_laid hright]
    by_cases hindex : index < length
    · rw [if_pos hindex, if_pos hindex] at hbyte ⊢
      rw [hbyte]
    · rw [if_neg hindex, if_neg hindex]

end ManagedPdb.RegionWriter
