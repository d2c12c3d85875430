import ManagedPdb.Container.Stream
import ManagedPdb.Proofs.Bytes

/-!
# Paged reads are slices

A stream is read page by page, but what a read gives is a slice of one sequence of bytes: the pages
of the stream joined in the order of its page list.  The read fails exactly if the range goes
beyond the length of the stream or if some byte of it is not covered, and the first page with such a
byte says how.  The main statement is `read_eq_slice`.

The invariant of the page loop is an equation: the bytes gathered so far are the slice of the joined
pages from the start of the range to the page at hand.
-/

namespace ManagedPdb

namespace PageFile

/-- The bytes of a page, filled up with zeros where the source ends before the page does. -/
def pageBytes (file : PageFile) (page : UInt32) : ByteArray :=
  let start := page.toNat * file.pageSize.toNat
  Bytes.resize (file.source.extract start (start + file.pageSize.toNat)) file.pageSize.toNat

theorem size_pageBytes (file : PageFile) (page : UInt32) :
    (file.pageBytes page).size = file.pageSize.toNat := by
  simp [pageBytes]

/-- A part of a page that the source holds is that part of the source. -/
theorem extract_pageBytes (file : PageFile) (page : UInt32) {low high : Nat}
    (on_page : high ≤ file.pageSize.toNat)
    (in_source : page.toNat * file.pageSize.toNat + high ≤ file.source.size) :
    (file.pageBytes page).extract low high
      = file.source.extract (page.toNat * file.pageSize.toNat + low)
          (page.toNat * file.pageSize.toNat + high) := by
  rw [pageBytes, Bytes.extract_resize _ on_page (by rw [ByteArray.size_extract]; omega),
    ByteArray.extract_extract]
  congr 1
  omega

theorem read_of_le {file : PageFile} {page : UInt32} {offset count : Nat}
    (h : page.toNat * file.pageSize.toNat + offset + count ≤ file.source.size) :
    file.read page offset count
      = .ok (file.source.extract (page.toNat * file.pageSize.toNat + offset)
          (page.toNat * file.pageSize.toNat + offset + count)) := by
  rw [read]
  exact if_pos (by omega)

theorem read_of_lt {file : PageFile} {page : UInt32} {offset count : Nat} (some_bytes : 0 < count)
    (h : file.source.size < page.toNat * file.pageSize.toNat + offset + count) :
    file.read page offset count = .error (.ofKind .sourceUnreadable) := by
  rw [read]
  exact if_neg (by omega)

end PageFile

namespace StreamDescriptor

/-- The pages of a stream, one after the other. -/
def joinedPages (stream : StreamDescriptor) (file : PageFile) : ByteArray :=
  Bytes.concat (stream.pages.toList.map file.pageBytes)

/-- The byte at a place of a stream is on a page of its list, and the source holds it. -/
def Covers (stream : StreamDescriptor) (file : PageFile) (place : Nat) : Prop :=
  ∃ number, stream.pages[place / file.pageSize.toNat]? = some number ∧
    number.toNat * file.pageSize.toNat + place % file.pageSize.toNat < file.source.size

/-- All bytes of the range `start … stop` that belong on a page are covered. -/
def CoversPage (stream : StreamDescriptor) (file : PageFile) (start stop page : Nat) : Prop :=
  ∀ place, start ≤ place → place < stop → place / file.pageSize.toNat = page →
    stream.Covers file place

/-- What is wrong with a page on which a byte is not covered, in a read of `count` bytes from
`position` on: the page is not listed, or the source ends too early. -/
def pageFault (stream : StreamDescriptor) (file : PageFile) (position : UInt32)
    (count page : Nat) : DecodeError :=
  match stream.pages[page]? with
  | none => .ofKind (.streamOutOfBounds position count)
  | some number => .ofKindAt .sourceUnreadable (number.toNat * file.pageSize.toNat)

/-- Reads adjacent pieces of the given sizes and joins them. -/
def readPieces (stream : StreamDescriptor) (file : PageFile) (position : UInt32) :
    (counts : List Nat) → Except DecodeError ByteArray
  | [] => .ok ByteArray.empty
  | count :: counts => do
    let piece ← stream.read file position count
    let rest ← stream.readPieces file (position + UInt32.ofNat count) counts
    return piece ++ rest

variable {stream : StreamDescriptor} {file : PageFile} {position : UInt32} {count start stop : Nat}

/-! ### The joined pages -/

theorem size_of_mem_pages {piece : ByteArray}
    (member : piece ∈ stream.pages.toList.map file.pageBytes) :
    piece.size = file.pageSize.toNat := by
  obtain ⟨page, -, rfl⟩ := List.mem_map.mp member
  exact file.size_pageBytes page

theorem size_joinedPages (stream : StreamDescriptor) (file : PageFile) :
    (stream.joinedPages file).size = stream.pages.size * file.pageSize.toNat := by
  rw [joinedPages, Bytes.size_concat_of_size fun _ => size_of_mem_pages, List.length_map,
    Array.length_toList]

/-- A part of a listed page that the source holds is a slice of the joined pages. -/
theorem extract_joinedPages {page : Nat} {number : UInt32} (low : Nat) {high : Nat}
    (listed : stream.pages[page]? = some number) (on_page : high ≤ file.pageSize.toNat)
    (in_source : number.toNat * file.pageSize.toNat + high ≤ file.source.size) :
    (stream.joinedPages file).extract (page * file.pageSize.toNat + low)
        (page * file.pageSize.toNat + high)
      = file.source.extract (number.toNat * file.pageSize.toNat + low)
          (number.toNat * file.pageSize.toNat + high) := by
  have hpiece : (stream.pages.toList.map file.pageBytes)[page]? = some (file.pageBytes number) := by
    rw [List.getElem?_map, Array.getElem?_toList, listed]
    rfl
  rw [joinedPages, Bytes.extract_concat (fun _ => size_of_mem_pages) hpiece on_page,
    PageFile.extract_pageBytes file number on_page in_source]

/-! ### One page -/

/-- On a page that the range touches, coverage is one comparison with the size of the source. -/
theorem coversPage_iff {page : Nat}
    (touched : max start (page * file.pageSize.toNat)
      < min stop (page * file.pageSize.toNat + file.pageSize.toNat)) :
    stream.CoversPage file start stop page ↔
      ∃ number, stream.pages[page]? = some number ∧ number.toNat * file.pageSize.toNat
        + (min stop (page * file.pageSize.toNat + file.pageSize.toNat)
          - page * file.pageSize.toNat) ≤ file.source.size := by
  have hpage : 0 < file.pageSize.toNat := by omega
  have hdiv : ∀ place, place / file.pageSize.toNat = page ↔
      page * file.pageSize.toNat ≤ place ∧
        place ≤ page * file.pageSize.toNat + file.pageSize.toNat - 1 :=
    fun place => Nat.div_eq_iff hpage
  have hmod : ∀ place, place / file.pageSize.toNat = page →
      place % file.pageSize.toNat = place - page * file.pageSize.toNat := by
    rintro place rfl
    have := Nat.div_add_mod' place file.pageSize.toNat
    omega
  constructor
  · intro covered
    -- the last byte of the range on the page is the one that matters
    have hlast : (min stop (page * file.pageSize.toNat + file.pageSize.toNat) - 1)
        / file.pageSize.toNat = page := (hdiv _).mpr (by omega)
    obtain ⟨number, listed, hsource⟩ := covered _ (by omega) (by omega) hlast
    rw [hlast] at listed
    rw [hmod _ hlast] at hsource
    exact ⟨number, listed, by omega⟩
  · rintro ⟨number, listed, hsource⟩ place hstart hstop hplace
    have hbounds := (hdiv place).mp hplace
    refine ⟨number, hplace ▸ listed, ?_⟩
    rw [hmod place hplace]
    omega

/-- A covered page that the range touches gives its slice of the joined pages. -/
theorem readPages_succ_of_covered {page remaining : Nat} {before : ByteArray}
    (touched : max start (page * file.pageSize.toNat)
      < min stop (page * file.pageSize.toNat + file.pageSize.toNat))
    (covered : stream.CoversPage file start stop page) :
    stream.readPages file start stop before (remaining + 1) page
      = stream.readPages file start stop
          (before ++ (stream.joinedPages file).extract (max start (page * file.pageSize.toNat))
            (min stop (page * file.pageSize.toNat + file.pageSize.toNat)))
          remaining (page + 1) := by
  obtain ⟨number, listed, hsource⟩ := (coversPage_iff touched).mp covered
  generalize hlow : max start (page * file.pageSize.toNat) = low at *
  generalize hhigh : min stop (page * file.pageSize.toNat + file.pageSize.toNat) = high at *
  have hread : file.read number (low - page * file.pageSize.toNat) (high - low)
      = .ok ((stream.joinedPages file).extract low high) := by
    have hslice := extract_joinedPages (low - page * file.pageSize.toNat) listed
      (show high - page * file.pageSize.toNat ≤ file.pageSize.toNat by omega) hsource
    rw [show page * file.pageSize.toNat + (low - page * file.pageSize.toNat) = low by omega,
      show page * file.pageSize.toNat + (high - page * file.pageSize.toNat) = high by omega]
      at hslice
    rw [hslice, PageFile.read_of_le (by omega)]
    congr 2
    omega
  rw [readPages]
  simp only [listed, hlow, hhigh, hread]

/-- A page with a byte that is not covered ends the read. -/
theorem readPages_succ_of_not_covered {page remaining : Nat} {before : ByteArray}
    (touched : max position.toNat (page * file.pageSize.toNat)
      < min (position.toNat + count) (page * file.pageSize.toNat + file.pageSize.toNat))
    (uncovered : ¬ stream.CoversPage file position.toNat (position.toNat + count) page) :
    stream.readPages file position.toNat (position.toNat + count) before (remaining + 1) page
      = .error (stream.pageFault file position count page) := by
  rw [coversPage_iff touched] at uncovered
  rw [readPages, pageFault]
  cases listed : stream.pages[page]? with
  | none => simp only [UInt32.ofNat_toNat, Nat.add_sub_cancel_left]
  | some number =>
    have hsource : ¬ _ ≤ file.source.size := fun h => uncovered ⟨number, listed, h⟩
    rw [Nat.not_le] at hsource
    simp only []
    rw [PageFile.read_of_lt (by omega) (by omega)]
    rfl

/-! ### All pages -/

/-- A range touches the pages from that of its first byte to that of its last. -/
theorem touched_of_le (paged : 0 < file.pageSize.toNat) {page : Nat}
    (first_le : start / file.pageSize.toNat ≤ page)
    (le_last : page ≤ (stop - 1) / file.pageSize.toNat) (some_bytes : start < stop) :
    max start (page * file.pageSize.toNat)
      < min stop (page * file.pageSize.toNat + file.pageSize.toNat) := by
  have hfirst : start < page * file.pageSize.toNat + file.pageSize.toNat := by
    have := Nat.lt_div_mul_add (a := start) paged
    have := Nat.mul_le_mul_right file.pageSize.toNat first_le
    omega
  have hlast : page * file.pageSize.toNat ≤ stop - 1 := (Nat.le_div_iff_mul_le paged).mp le_last
  omega

/-- Of a range that does not touch a page, no byte belongs on it. -/
theorem coversPage_of_not_touched {page : Nat}
    (untouched : page < start / file.pageSize.toNat ∨ (stop - 1) / file.pageSize.toNat < page) :
    stream.CoversPage file start stop page := by
  rintro place hstart hstop rfl
  have hfirst : start / file.pageSize.toNat ≤ place / file.pageSize.toNat :=
    Nat.div_le_div_right hstart
  have hlast : place / file.pageSize.toNat ≤ (stop - 1) / file.pageSize.toNat :=
    Nat.div_le_div_right (by omega)
  omega

/-- If all pages are covered, the slices of the pages to go complete the slice of the range. -/
theorem readPages_of_covered (paged : 0 < file.pageSize.toNat) (some_bytes : start < stop)
    (covered : ∀ page, stream.CoversPage file start stop page) {remaining page : Nat}
    (first_le : start / file.pageSize.toNat ≤ page)
    (last : page + remaining = (stop - 1) / file.pageSize.toNat + 1) :
    stream.readPages file start stop ((stream.joinedPages file).extract start
        (max start (min stop (page * file.pageSize.toNat)))) remaining page
      = .ok ((stream.joinedPages file).extract start stop) := by
  -- the slice so far ends where the next page starts, or with the range on the last page
  induction remaining generalizing page with
  | zero =>
    have hlt := Nat.lt_div_mul_add (a := stop - 1) paged
    rw [← Nat.succ_mul, Nat.succ_eq_add_one, ← last, Nat.add_zero] at hlt
    rw [readPages, show max start (min stop (page * file.pageSize.toNat)) = stop by omega]
  | succ remaining ih =>
    have touched := touched_of_le paged first_le (by omega) some_bytes
    have hreached := @ih (page + 1) (by omega) (by omega)
    rw [Nat.succ_mul] at hreached
    rw [readPages_succ_of_covered touched (covered page),
      show min stop (page * file.pageSize.toNat) = page * file.pageSize.toNat by omega,
      ByteArray.extract_append_extract, ← hreached]
    congr 2 <;> omega

/-- The first page with a byte that is not covered decides how the read fails. -/
theorem readPages_of_not_covered (paged : 0 < file.pageSize.toNat) (some_bytes : 0 < count)
    {failing : Nat}
    (uncovered : ¬ stream.CoversPage file position.toNat (position.toNat + count) failing)
    (first : ∀ earlier < failing,
      stream.CoversPage file position.toNat (position.toNat + count) earlier)
    {before : ByteArray} {remaining page : Nat}
    (first_le : position.toNat / file.pageSize.toNat ≤ page) (le_failing : page ≤ failing)
    (last : page + remaining = (position.toNat + count - 1) / file.pageSize.toNat + 1) :
    stream.readPages file position.toNat (position.toNat + count) before remaining page
      = .error (stream.pageFault file position count failing) := by
  -- a page that the range does not touch cannot fail it, so the loop reaches the failing one
  have hlast : failing ≤ (position.toNat + count - 1) / file.pageSize.toNat := by
    apply Nat.le_of_not_lt
    exact fun h => uncovered (coversPage_of_not_touched (.inr h))
  induction remaining generalizing page before with
  | zero => omega
  | succ remaining ih =>
    have touched := touched_of_le paged first_le (by omega)
      (show position.toNat < position.toNat + count by omega)
    by_cases hpage : page = failing
    · subst hpage
      exact readPages_succ_of_not_covered touched uncovered
    · rw [readPages_succ_of_covered touched (first page (by omega))]
      exact ih (by omega) (by omega) (by omega)

/-! ### The whole range -/

/-- A range is covered if each of its pages is. -/
theorem forall_covers_iff :
    (∀ place, start ≤ place → place < stop → stream.Covers file place) ↔
      ∀ page, stream.CoversPage file start stop page :=
  ⟨fun h _ place hstart hstop _ => h place hstart hstop,
    fun h place hstart hstop => h _ place hstart hstop rfl⟩

theorem read_of_length_lt (h : stream.length.toNat < position.toNat + count) :
    stream.read file position count = .error (.ofKind (.streamOutOfBounds position count)) := by
  rw [read]
  exact if_pos h

/-- A covered range inside the stream is read as a slice of the joined pages. -/
theorem read_of_covered (paged : 0 < file.pageSize.toNat)
    (inside : position.toNat + count ≤ stream.length.toNat)
    (covered : ∀ page, stream.CoversPage file position.toNat (position.toNat + count) page) :
    stream.read file position count
      = .ok ((stream.joinedPages file).extract position.toNat (position.toNat + count)) := by
  simp only [read]
  rw [if_neg (by omega)]
  by_cases hcount : count = 0
  · rw [if_pos hcount, hcount, Nat.add_zero, ByteArray.extract_same]
  · have hfirst_le : position.toNat / file.pageSize.toNat
        ≤ (position.toNat + count - 1) / file.pageSize.toNat :=
      Nat.div_le_div_right (by omega)
    have hstart : max position.toNat (min (position.toNat + count)
        (position.toNat / file.pageSize.toNat * file.pageSize.toNat)) = position.toNat := by
      have := Nat.div_mul_le_self position.toNat file.pageSize.toNat
      omega
    have hread := readPages_of_covered paged (show position.toNat < position.toNat + count by omega)
      covered (Nat.le_refl _)
      (show _ + ((position.toNat + count - 1) / file.pageSize.toNat
        - position.toNat / file.pageSize.toNat + 1) = _ by omega)
    rw [hstart, ByteArray.extract_same] at hread
    rw [if_neg hcount, hread]

/-- Of the pages with a byte that is not covered, the first decides how the read fails. -/
theorem read_of_not_covered (paged : 0 < file.pageSize.toNat)
    (inside : position.toNat + count ≤ stream.length.toNat) {failing : Nat}
    (uncovered : ¬ stream.CoversPage file position.toNat (position.toNat + count) failing)
    (first : ∀ earlier < failing,
      stream.CoversPage file position.toNat (position.toNat + count) earlier) :
    stream.read file position count = .error (stream.pageFault file position count failing) := by
  have hcount : 0 < count := by
    apply Nat.pos_of_ne_zero
    rintro rfl
    exact uncovered fun place hstart hstop _ => by omega
  have hfailing : position.toNat / file.pageSize.toNat ≤ failing := by
    apply Nat.le_of_not_lt
    exact fun h => uncovered (coversPage_of_not_touched (.inl h))
  have hfirst_le : position.toNat / file.pageSize.toNat
      ≤ (position.toNat + count - 1) / file.pageSize.toNat :=
    Nat.div_le_div_right (by omega)
  simp only [read]
  rw [if_neg (by omega), if_neg (by omega)]
  exact readPages_of_not_covered paged hcount uncovered first (Nat.le_refl _) hfailing (by omega)

/-- A read succeeds exactly on a covered range inside the stream. -/
theorem exists_read_eq_ok_iff (paged : 0 < file.pageSize.toNat) :
    (∃ bytes, stream.read file position count = .ok bytes) ↔
      position.toNat + count ≤ stream.length.toNat ∧
        ∀ page, stream.CoversPage file position.toNat (position.toNat + count) page := by
  constructor
  · rintro ⟨bytes, hread⟩
    have hinside : position.toNat + count ≤ stream.length.toNat := by
      apply Nat.le_of_not_lt
      intro h
      rw [read_of_length_lt h] at hread
      cases hread
    refine ⟨hinside, fun page => ?_⟩
    -- below a page that is not covered there is a first such page, and it fails the read
    induction page using Nat.strongRecOn with
    | ind page ih =>
      apply Classical.byContradiction
      intro huncovered
      rw [read_of_not_covered paged hinside huncovered ih] at hread
      cases hread
  · rintro ⟨hinside, hcovered⟩
    exact ⟨_, read_of_covered paged hinside hcovered⟩

/-- The value of a read that succeeds. -/
theorem eq_slice_of_read_eq_ok (paged : 0 < file.pageSize.toNat) {bytes : ByteArray}
    (h : stream.read file position count = .ok bytes) :
    bytes = (stream.joinedPages file).extract position.toNat (position.toNat + count) := by
  obtain ⟨hinside, hcovered⟩ := (exists_read_eq_ok_iff paged).mp ⟨bytes, h⟩
  rw [read_of_covered paged hinside hcovered] at h
  exact (Except.ok.inj h).symm

/-- A read gives as many bytes as it is asked for. -/
theorem size_of_read_eq_ok (paged : 0 < file.pageSize.toNat) {bytes : ByteArray}
    (h : stream.read file position count = .ok bytes) : bytes.size = count := by
  have hcovered := forall_covers_iff.mpr ((exists_read_eq_ok_iff paged).mp ⟨bytes, h⟩).2
  rw [eq_slice_of_read_eq_ok paged h, ByteArray.size_extract, size_joinedPages]
  rcases Nat.eq_zero_or_pos count with rfl | hcount
  · omega
  · -- the page of the last byte is listed, so the joined pages reach behind it
    obtain ⟨number, listed, -⟩ := hcovered (position.toNat + count - 1) (by omega) (by omega)
    obtain ⟨hlisted, -⟩ := Array.getElem?_eq_some_iff.mp listed
    have hlast := Nat.lt_div_mul_add (a := position.toNat + count - 1) paged
    have hsize := Nat.mul_le_mul_right file.pageSize.toNat hlisted
    rw [Nat.succ_mul] at hsize
    omega

/-! ### Pieces -/

/-- The bytes in the range of both parts are covered if those in the range of each part are. -/
theorem coversPage_add_iff (middle : Nat) {page : Nat} (start_le : start ≤ middle)
    (le_stop : middle ≤ stop) :
    stream.CoversPage file start stop page ↔
      stream.CoversPage file start middle page ∧ stream.CoversPage file middle stop page := by
  constructor
  · intro h
    exact ⟨fun place hstart hstop => h place hstart (by omega),
      fun place hstart hstop => h place (by omega) hstop⟩
  · rintro ⟨hleft, hright⟩ place hstart hstop hplace
    rcases Nat.lt_or_ge place middle with hlt | hge
    · exact hleft place hstart hlt hplace
    · exact hright place hge hstop hplace

/-- Reading a range is reading its first part and then the other. -/
theorem read_add_eq_ok_iff (paged : 0 < file.pageSize.toNat) {more : Nat} {bytes : ByteArray} :
    stream.read file position (count + more) = .ok bytes ↔
      ∃ left right, stream.read file position count = .ok left ∧
        stream.read file (position + UInt32.ofNat count) more = .ok right ∧
        bytes = left ++ right := by
  -- a part that succeeds ends inside the stream, so that the position behind it does not wrap
  have hnext : position.toNat + count ≤ stream.length.toNat →
      (position + UInt32.ofNat count).toNat = position.toNat + count := by
    intro h
    have hlength := stream.length.toNat_lt
    rw [UInt32.toNat_add, UInt32.toNat_ofNat']
    omega
  constructor
  · intro h
    obtain ⟨hinside, hcovered⟩ := (exists_read_eq_ok_iff paged).mp ⟨bytes, h⟩
    have hnext := hnext (by omega)
    have hparts := fun page => (coversPage_add_iff (position.toNat + count)
      (by omega) (by omega)).mp (hcovered page)
    have hleft := read_of_covered paged (by omega) fun page => (hparts page).1
    have hright : stream.read file (position + UInt32.ofNat count) more = .ok _ :=
      read_of_covered paged (by omega) fun page => by
        rw [hnext, Nat.add_assoc]
        exact (hparts page).2
    refine ⟨_, _, hleft, hright, ?_⟩
    rw [hnext, ByteArray.extract_append_extract, eq_slice_of_read_eq_ok paged h]
    congr 1 <;> omega
  · rintro ⟨left, right, hleft, hright, rfl⟩
    obtain ⟨hinside, hleft_covered⟩ := (exists_read_eq_ok_iff paged).mp ⟨left, hleft⟩
    obtain ⟨hinside_right, hright_covered⟩ := (exists_read_eq_ok_iff paged).mp ⟨right, hright⟩
    rw [hnext hinside] at hinside_right hright_covered
    rw [read_of_covered paged (by omega) fun page => (coversPage_add_iff
        (position.toNat + count) (by omega) (by omega)).mpr
          ⟨hleft_covered page, by rw [← Nat.add_assoc]; exact hright_covered page⟩,
      eq_slice_of_read_eq_ok paged hleft, eq_slice_of_read_eq_ok paged hright, hnext hinside,
      ByteArray.extract_append_extract]
    congr 2 <;> omega

theorem readPieces_cons_eq_ok_iff {counts : List Nat} {bytes : ByteArray} :
    stream.readPieces file position (count :: counts) = .ok bytes ↔
      ∃ piece rest, stream.read file position count = .ok piece ∧
        stream.readPieces file (position + UInt32.ofNat count) counts = .ok rest ∧
        bytes = piece ++ rest := by
  rw [readPieces]
  cases hpiece : stream.read file position count with
  | error error => simp [bind, Except.bind]
  | ok piece =>
    cases stream.readPieces file (position + UInt32.ofNat count) counts with
    | error error => simp [bind, Except.bind]
    | ok rest => simp [bind, Except.bind, pure, Except.pure, eq_comm]

/-- Reading a range in adjacent pieces is reading it at once. -/
theorem readPieces_eq_ok_iff (paged : 0 < file.pageSize.toNat) {first : Nat} {counts : List Nat}
    {bytes : ByteArray} :
    stream.readPieces file position (first :: counts) = .ok bytes ↔
      stream.read file position (first + counts.sum) = .ok bytes := by
  induction counts generalizing first position bytes with
  | nil =>
    rw [readPieces_cons_eq_ok_iff, List.sum_nil, Nat.add_zero]
    constructor
    · rintro ⟨piece, rest, hpiece, hrest, rfl⟩
      cases hrest
      rw [ByteArray.append_empty]
      exact hpiece
    · intro h
      exact ⟨bytes, .empty, h, rfl, ByteArray.append_empty.symm⟩
  | cons second counts ih =>
    rw [readPieces_cons_eq_ok_iff, List.sum_cons, read_add_eq_ok_iff paged]
    constructor
    · rintro ⟨piece, rest, hpiece, hrest, rfl⟩
      exact ⟨piece, rest, hpiece, ih.mp hrest, rfl⟩
    · rintro ⟨piece, rest, hpiece, hrest, rfl⟩
      exact ⟨piece, rest, hpiece, ih.mpr hrest, rfl⟩

/-! ### The law of paged reads -/

/-- A read of `count` bytes from `position` on succeeds exactly if the range ends inside the stream
and all of it is covered, and gives the slice of the joined pages.  A range beyond the stream is
refused as a whole; otherwise the first page with a byte that is not covered decides the error.
Adjacent pieces of a range, read one by one, join to the range. -/
theorem read_eq_slice (stream : StreamDescriptor) (file : PageFile) (position : UInt32)
    (count : Nat) (paged : 1 ≤ file.pageSize) :
    ((∃ bytes, stream.read file position count = .ok bytes) ↔
      position.toNat + count ≤ stream.length.toNat ∧
        ∀ place, position.toNat ≤ place → place < position.toNat + count →
          stream.Covers file place) ∧
    (∀ bytes, stream.read file position count = .ok bytes →
      bytes.size = count ∧ bytes
        = (stream.joinedPages file).extract position.toNat (position.toNat + count)) ∧
    (stream.length.toNat < position.toNat + count →
      stream.read file position count = .error (.ofKind (.streamOutOfBounds position count))) ∧
    (position.toNat + count ≤ stream.length.toNat → ∀ failing,
      ¬ stream.CoversPage file position.toNat (position.toNat + count) failing →
      (∀ earlier < failing,
        stream.CoversPage file position.toNat (position.toNat + count) earlier) →
      stream.read file position count = .error (stream.pageFault file position count failing)) ∧
    (∀ counts, counts ≠ [] → counts.sum = count → ∀ bytes,
      stream.readPieces file position counts = .ok bytes ↔
        stream.read file position count = .ok bytes) := by
  have hpaged : 0 < file.pageSize.toNat := UInt32.le_iff_toNat_le.mp paged
  refine ⟨?_, ?_, read_of_length_lt, fun hinside failing => ?_, ?_⟩
  · rw [forall_covers_iff, exists_read_eq_ok_iff hpaged]
  · intro bytes h
    exact ⟨size_of_read_eq_ok hpaged h, eq_slice_of_read_eq_ok hpaged h⟩
  · exact read_of_not_covered hpaged hinside
  · rintro (_ | ⟨first, counts⟩) hne rfl bytes
    · exact absurd rfl hne
    · exact readPieces_eq_ok_iff hpaged

/-- A range across the end of a page, in a stream whose pages stand in the wrong order. -/
theorem read_eq_slice_swapped :
    let stream : StreamDescriptor := ⟨8, #[1, 0]⟩
    let file : PageFile := ⟨⟨#[0, 1, 2, 3, 4, 5, 6, 7]⟩, 4⟩
    1 ≤ file.pageSize ∧ ∃ bytes, stream.read file 2 4 = .ok bytes ∧ bytes.data = #[6, 7, 0, 1] ∧
      bytes = (stream.joinedPages file).extract 2 6 ∧
      stream.readPieces file 2 [1, 3] = .ok bytes := by
  intro stream file
  have hpaged : 1 ≤ file.pageSize := by decide
  obtain ⟨-, hslice, -, -, hpieces⟩ := read_eq_slice stream file 2 4 hpaged
  have hread : stream.read file 2 4 = .ok ⟨#[6, 7, 0, 1]⟩ := by decide +kernel
  exact ⟨hpaged, _, hread, rfl, (hslice _ hread).2,
    (hpieces [1, 3] (by decide) (by decide) _).mpr hread⟩

end StreamDescriptor

end ManagedPdb
