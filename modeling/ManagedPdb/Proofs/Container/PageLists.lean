import ManagedPdb.Proofs.Bounds
import ManagedPdb.Proofs.Machine.Container
import Mathlib.Algebra.Order.Floor.Div
import Mathlib.Data.List.Forall2

/-!
# Page lists

Three page counts have to agree: the header counts the root pages, the directory the page numbers
that it takes from each of them, and every stream the pages that its length needs.  All of them are
rounded up, and a page has room for a whole number of page numbers (`Header.four_dvd_pageSize`).  So
the shares of the root pages (`Directory.shares`) add up to the pages of the directory, and every
stream has a page for each of its bytes (`StreamDescriptor.Paged`).  What can be wrong with a read
inside such a stream is only that the file ends too early
(`StreamDescriptor.kind_of_read_eq_error`).
-/

namespace ManagedPdb

/-! ### Rounding up -/

theorem pagesFor_eq_ceilDiv (length pageSize : Nat) :
    pagesFor length pageSize = length ⌈/⌉ pageSize :=
  rfl

/-- Four bytes for each of some page numbers, on pages with room for `perPage` of them. -/
theorem pagesFor_mul_four {perPage : Nat} (count : Nat) (room : 0 < perPage) :
    pagesFor (count * 4) (perPage * 4) = pagesFor count perPage := by
  apply eq_of_forall_ge_iff
  intro pages
  rw [pagesFor_le_iff (by omega), pagesFor_le_iff room, ← Nat.mul_assoc]
  omega

/-- One page less is needed for what does not stand on the first page. -/
theorem pagesFor_sub {length pageSize : Nat} (paged : 0 < pageSize) :
    pagesFor (length - min length pageSize) pageSize = pagesFor length pageSize - 1 := by
  apply eq_of_forall_ge_iff
  intro pages
  have hone : pagesFor length pageSize ≤ pages + 1 ↔ length ≤ (pages + 1) * pageSize :=
    pagesFor_le_iff paged
  rw [pagesFor_le_iff paged, Nat.sub_le_iff_le_add, Nat.sub_le_iff_le_add, hone, Nat.succ_mul]
  omega

/-- A page has room for a whole number of page numbers. -/
theorem Header.four_dvd_pageSize {size : UInt32} (h : isPageSize size = true) :
    4 ∣ size.toNat := by
  have hge := pageSize_ge h
  rw [isPageSize, Bool.and_eq_true, Bool.and_eq_true, beq_iff_eq] at h
  have hbits : size.toNat &&& (size.toNat - 1) = 0 := by
    have hand := congrArg UInt32.toNat h.1.1
    have hone : (1 : UInt32) ≤ size := UInt32.le_iff_toNat_le.mpr (Nat.le_trans (by decide) hge)
    rwa [UInt32.toNat_and, UInt32.toNat_sub_of_le _ _ hone] at hand
  obtain ⟨exponent, hsize⟩ :=
    (Nat.and_sub_one_eq_zero_iff_isPowerOfTwo (by omega)).mp hbits
  rw [hsize] at hge ⊢
  have hexponent : 2 ≤ exponent := by
    by_contra hsmall
    have := Nat.pow_le_pow_right (n := 2) (by decide) (show exponent ≤ 1 by omega)
    omega
  exact pow_dvd_pow 2 hexponent

theorem Header.length_directoryRoots {source : ByteArray} {header : Header}
    (h : decode source = .ok header) :
    header.directoryRoots.length = rootCount header.pageSize header.directorySize := by
  unfold decode at h
  obtain ⟨bytes, -, h⟩ := bind_eq_ok_iff.mp h
  obtain ⟨⟨pageSize, directorySize⟩, -, h⟩ := bind_eq_ok_iff.mp h
  obtain ⟨rootBytes, -, h⟩ := bind_eq_ok_iff.mp h
  obtain ⟨roots, hroots, h⟩ := bind_eq_ok_iff.mp h
  cases h
  obtain ⟨stop, hroots⟩ := Reader.run_eq_ok_iff.mp hroots
  obtain ⟨-, -, rfl⟩ := Reader.uint32s_eq_done_iff.mp hroots
  simp

/-- The header names as many root pages as the page numbers of the directory need. -/
theorem Header.length_directoryRoots_eq_pagesFor {source : ByteArray} {header : Header}
    (h : decode source = .ok header) :
    header.directoryRoots.length
      = pagesFor (pagesFor header.directorySize.toNat header.pageSize.toNat)
          (header.pageSize.toNat / 4) := by
  have hsize := isPageSize_of_decode h
  have hge := pageSize_ge hsize
  obtain ⟨perPage, hperPage⟩ := four_dvd_pageSize hsize
  rw [length_directoryRoots h, rootCount, hperPage, Nat.mul_comm 4,
    pagesFor_mul_four _ (by omega), Nat.mul_div_cancel _ (by decide)]

/-! ### The root pages -/

theorem PageFile.eq_of_read_eq_error {file : PageFile} {page : UInt32} {offset count : Nat}
    {error : DecodeError} (h : file.read page offset count = .error error) :
    error = .ofKind .sourceUnreadable := by
  rw [read] at h
  split at h
  · cases h
  · cases h
    rfl

namespace Directory

/-- How many of the page numbers that are still to be found each of some pages gives, if a page has
room for `perPage`. -/
def shares (perPage : Nat) : (toGo pages : Nat) → List Nat
  | _, 0 => []
  | toGo, pages + 1 => min toGo perPage :: shares perPage (toGo - min toGo perPage) pages

@[simp] theorem length_shares (perPage toGo pages : Nat) :
    (shares perPage toGo pages).length = pages := by
  induction pages generalizing toGo with
  | zero => rfl
  | succ pages ih => rw [shares, List.length_cons, ih]

/-- As many pages as are needed give all page numbers, and each of them gives some. -/
theorem shares_of_pagesFor {perPage toGo pages : Nat} (room : 0 < perPage)
    (hpages : pages = pagesFor toGo perPage) :
    (∀ share ∈ shares perPage toGo pages, 1 ≤ share ∧ share ≤ perPage) ∧
      (shares perPage toGo pages).sum = toGo := by
  induction pages generalizing toGo with
  | zero =>
    have hzero := (pagesFor_le_iff room).mp (Nat.le_of_eq hpages.symm)
    exact ⟨nofun, by rw [shares, List.sum_nil]; omega⟩
  | succ pages ih =>
    have hpos : 0 < toGo := by
      have hneeded : 0 < pagesFor toGo perPage := by omega
      rwa [lt_pagesFor_iff room, Nat.zero_mul] at hneeded
    obtain ⟨hshares, hsum⟩ := @ih (toGo - min toGo perPage) (by rw [pagesFor_sub room]; omega)
    constructor
    · intro share member
      rcases List.mem_cons.mp member with rfl | member
      · omega
      · exact hshares share member
    · rw [shares, List.sum_cons, hsum]
      omega

/-- The part of a root page that holds its share of the page numbers. -/
def readShare (file : PageFile) (part : UInt32 × Nat) : Except DecodeError ByteArray :=
  file.read part.1 0 (part.2 * 4)

theorem gatherPages_eq (file : PageFile) (before : ByteArray) (toGo : Nat) (roots : List UInt32) :
    gatherPages file before toGo roots
      = (fun pieces => before ++ Bytes.concat pieces) <$>
        (roots.zip (shares (file.pageSize.toNat / 4) toGo roots.length)).mapM (readShare file) := by
  induction roots generalizing before toGo with
  | nil =>
    show Except.ok before = .ok (before ++ Bytes.concat [])
    rw [Bytes.concat_nil, ByteArray.append_empty]
  | cons root roots ih =>
    rw [gatherPages, List.length_cons, shares, List.zip_cons_cons, List.mapM_cons]
    show file.read root 0 _ >>= _ = _ <$> (file.read root 0 _ >>= _)
    cases file.read root 0 (min toGo (file.pageSize.toNat / 4) * 4) with
    | error error => rfl
    | ok piece =>
      show gatherPages file (before ++ piece) _ roots = _
      rw [ih]
      show _ = _ <$> (_ <$> _)
      rw [← comp_map]
      congr 1
      funext pieces
      rw [Function.comp_apply, Bytes.concat_cons, ByteArray.append_assoc]

/-- Either all root pages give their shares, or one of them cannot be read. -/
theorem gatherPages_cases (file : PageFile) (toGo : Nat) (roots : List UInt32) :
    let parts := roots.zip (shares (file.pageSize.toNat / 4) toGo roots.length)
    (∃ pieces, List.Forall₂ (fun part piece => readShare file part = .ok piece) parts pieces ∧
      gatherPages file .empty toGo roots = .ok (Bytes.concat pieces)) ∨
    ∃ part ∈ parts, readShare file part = .error (.ofKind .sourceUnreadable) ∧
      gatherPages file .empty toGo roots = .error (.ofKind .sourceUnreadable) := by
  intro parts
  rw [gatherPages_eq]
  cases hpieces : parts.mapM (readShare file) with
  | ok pieces =>
    refine .inl ⟨pieces, forall₂_of_mapM_eq_ok hpieces, ?_⟩
    show Except.ok (ByteArray.empty ++ Bytes.concat pieces) = _
    rw [ByteArray.empty_append]
  | error error =>
    obtain ⟨part, member, hpart⟩ := exists_of_mapM_eq_error hpieces
    obtain rfl := PageFile.eq_of_read_eq_error hpart
    exact .inr ⟨part, member, hpart, rfl⟩

theorem size_concat_of_readShare {file : PageFile} {parts : List (UInt32 × Nat)}
    {pieces : List ByteArray}
    (h : List.Forall₂ (fun part piece => readShare file part = .ok piece) parts pieces) :
    (Bytes.concat pieces).size = (parts.map (·.2)).sum * 4 := by
  induction h with
  | nil => rfl
  | cons hpart _ ih =>
    rw [Bytes.concat_cons, ByteArray.size_append, ih, PageFile.size_of_read_eq_ok hpart,
      List.map_cons, List.sum_cons, Nat.add_mul]

end Directory

/-! ### Complete page lists -/

namespace StreamDescriptor

/-- The list has as many pages as the length needs. -/
def Complete (stream : StreamDescriptor) (pageSize : Nat) : Prop :=
  stream.pages.size = stream.length.toNat ⌈/⌉ pageSize

variable {stream : StreamDescriptor} {file : PageFile}

/-- Inside a complete stream no page is missing from the list. -/
theorem kind_of_read_eq_error (paged : 0 < file.pageSize.toNat)
    (complete : stream.Complete file.pageSize.toNat) {position : UInt32} {count : Nat}
    (inside : position.toNat + count ≤ stream.length.toNat) {error : DecodeError}
    (h : stream.read file position count = .error error) : error.kind = .sourceUnreadable := by
  obtain ⟨failing, huncovered, hfirst⟩ : ∃ failing,
      ¬ stream.CoversPage file position.toNat (position.toNat + count) failing ∧
        ∀ earlier < failing,
          stream.CoversPage file position.toNat (position.toNat + count) earlier := by
    classical
    have huncovered : ∃ page,
        ¬ stream.CoversPage file position.toNat (position.toNat + count) page := by
      by_contra hcovered
      rw [read_of_covered paged inside (by simpa using hcovered)] at h
      cases h
    exact ⟨Nat.find huncovered, Nat.find_spec huncovered,
      fun _ hearlier => not_not.mp (Nat.find_min huncovered hearlier)⟩
  rw [read_of_not_covered paged inside huncovered hfirst] at h
  cases h
  -- a byte of the range is on the failing page, so that the page is one of those the length needs
  have hpage : failing < stream.pages.size := by
    by_contra hbehind
    apply huncovered
    rintro place - hstop rfl
    have hlength := le_pagesFor_mul stream.length.toNat paged
    rw [pagesFor_eq_ceilDiv, ← complete] at hlength
    have := (Nat.le_div_iff_mul_le paged).mp (Nat.le_of_not_lt hbehind)
    omega
  rw [pageFault, Array.getElem?_eq_getElem hpage]
  rfl

theorem kind_of_content_eq_error (paged : 0 < file.pageSize.toNat)
    (complete : stream.Complete file.pageSize.toNat) {error : DecodeError}
    (h : stream.content file = .error error) : error.kind = .sourceUnreadable :=
  kind_of_read_eq_error paged complete (by rw [UInt32.toNat_zero]; omega) h

end StreamDescriptor

/-! ### The directory -/

/-- A stored length that is positive as a signed number. -/
theorem toNat_lt_of_toInt32_pos {length : UInt32} (h : ¬ length.toInt32 ≤ 0) :
    length.toNat < 2 ^ 31 := by
  have hlength := length.toNat_lt
  have hvalue : length.toInt32.toInt
      = if 2 * length.toNat < 2 ^ 32 then (length.toNat : Int)
        else (length.toNat : Int) - (2 ^ 32 : Nat) := BitVec.toInt_eq_toNat_cond _
  rw [Int32.le_iff_toInt_le, hvalue, Int32.toInt_zero] at h
  by_contra hlarge
  rw [if_neg (by omega)] at h
  omega

namespace Directory

variable {file : PageFile}

theorem descriptor_eq_done {length : UInt32} {pageCount start stop : Nat} {content : ByteArray}
    {stream : StreamDescriptor}
    (h : descriptor length pageCount content start = .done stream stop) :
    stream.length = length ∧ stream.pages.size = pageCount := by
  obtain ⟨pages, middle, hpages, h⟩ := Reader.bind_eq_done_iff.mp h
  cases h
  rw [(Reader.uint32s_eq_done_iff.mp hpages).2.2]
  exact ⟨rfl, by simp⟩

/-- A page list that is all there can be read. -/
theorem exists_descriptor_run (length : UInt32) {pageCount : Nat} {content : ByteArray}
    (h : content.size = 4 * pageCount) :
    ∃ stream, (descriptor length pageCount).run content = .ok stream ∧ stream.length = length ∧
      stream.pages.size = pageCount := by
  have hpages := Reader.uint32s_eq_done_iff.mpr
    ⟨show 0 + pageCount * 4 ≤ content.size by omega, rfl, rfl⟩
  have hdone : descriptor length pageCount content 0 = .done _ _ :=
    Reader.bind_eq_done_iff.mpr ⟨_, _, hpages, rfl⟩
  exact ⟨_, Reader.run_eq_ok_iff.mpr ⟨_, hdone⟩, descriptor_eq_done hdone⟩

/-- What the directory holds of a stream with a stored length: none if that is not positive as a
signed number, and otherwise as many pages as the length needs. -/
structure Lists (pageSize : Nat) (stored : UInt32) (stream : StreamDescriptor) : Prop where
  length : stream.length = if stored.toInt32 ≤ 0 then 0 else stored
  short : stream.length.toNat < 2 ^ 31
  complete : stream.Complete pageSize

theorem lists_of_entry (paged : 0 < file.pageSize.toNat) {stored : UInt32} {start stop : Nat}
    {content : ByteArray} {stream : StreamDescriptor}
    (h : entry file stored content start = .done stream stop) :
    Lists file.pageSize.toNat stored stream := by
  unfold entry at h
  by_cases hstored : stored.toInt32 ≤ 0
  · rw [if_pos hstored] at h
    cases h
    refine ⟨(if_pos hstored).symm, by decide, ?_⟩
    show 0 = pagesFor 0 file.pageSize.toNat
    exact (Nat.le_zero.mp (pagesFor_le_self 0 paged)).symm
  · rw [if_neg hstored] at h
    obtain ⟨hlength, hpages⟩ := descriptor_eq_done h
    refine ⟨by rw [if_neg hstored, hlength], hlength ▸ toNat_lt_of_toInt32_pos hstored, ?_⟩
    rw [StreamDescriptor.Complete, hpages, hlength, PageFile.toNat_pagesFor paged]
    rfl

theorem lists_of_entriesOnto (paged : 0 < file.pageSize.toNat) {stored : List UInt32}
    {start stop : Nat} {content : ByteArray} {before streams : Array StreamDescriptor}
    (h : entriesOnto file before stored content start = .done streams stop) :
    ∃ found, streams.toList = before.toList ++ found ∧
      List.Forall₂ (Lists file.pageSize.toNat) stored found := by
  induction stored generalizing before start with
  | nil =>
    cases h
    exact ⟨[], (List.append_nil _).symm, .nil⟩
  | cons length stored ih =>
    obtain ⟨stream, middle, hentry, h⟩ := Reader.bind_eq_done_iff.mp h
    obtain ⟨found, hstreams, hfound⟩ := ih h
    rw [Array.toList_push, List.append_assoc] at hstreams
    exact ⟨stream :: found, hstreams, .cons (lists_of_entry paged hentry) hfound⟩

/-- The stored lengths of all streams, with which the directory starts. -/
def storedLengths : Reader (List UInt32) := do
  let count ← Reader.uint32
  Reader.uint32s count.toNat

theorem lists_of_entries (paged : 0 < file.pageSize.toNat) {content : ByteArray}
    {directory : Directory} (h : (entries file).run content = .ok directory) :
    ∃ stored, storedLengths.run content = .ok stored ∧
      List.Forall₂ (Lists file.pageSize.toNat) stored directory.streams.toList := by
  obtain ⟨stop, h⟩ := Reader.run_eq_ok_iff.mp h
  obtain ⟨count, middle, hcount, h⟩ := Reader.bind_eq_done_iff.mp h
  obtain ⟨stored, middle', hstored, h⟩ := Reader.bind_eq_done_iff.mp h
  obtain ⟨streams, middle'', hstreams, h⟩ := Reader.bind_eq_done_iff.mp h
  cases h
  obtain ⟨found, hfound, hlists⟩ := lists_of_entriesOnto paged hstreams
  refine ⟨stored, Reader.run_eq_ok_iff.mpr ⟨middle',
    Reader.bind_eq_done_iff.mpr ⟨count, middle, hcount, hstored⟩⟩, ?_⟩
  rwa [show streams.toList = found from hfound]

end Directory

end ManagedPdb
