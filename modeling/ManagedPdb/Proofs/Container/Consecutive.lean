import ManagedPdb.Container.Directory
import ManagedPdb.Proofs.Container.PagedRead
import ManagedPdb.Proofs.Reads

/-!
# Consecutive pages

Where a piece of bytes stands at the start of a page and goes on over the pages behind it, reading
these pages one by one gives the piece back: for the page loop of streams
(`StreamDescriptor.content_of_standsAt`) and for that of the directory
(`Directory.gatherPages_of_standsAt`).  The header stands on the first page, with the numbers of the
root pages behind its fixed part (`Header.decode_of_standsAt`); a header that can be read has a page
size in the range (`Header.isPageSize_of_decode`).
-/

namespace ManagedPdb

/-! ### Page counts -/

/-- The page count is the least number of pages in which the bytes have room. -/
theorem pagesFor_le_iff {length pageSize count : Nat} (paged : 0 < pageSize) :
    pagesFor length pageSize ≤ count ↔ length ≤ count * pageSize := by
  rw [pagesFor, ← Nat.lt_succ_iff, Nat.div_lt_iff_lt_mul paged, Nat.succ_mul]
  omega

theorem lt_pagesFor_iff {length pageSize count : Nat} (paged : 0 < pageSize) :
    count < pagesFor length pageSize ↔ count * pageSize < length := by
  rw [← Nat.not_le, pagesFor_le_iff paged, Nat.not_le]

theorem le_pagesFor_mul {pageSize : Nat} (length : Nat) (paged : 0 < pageSize) :
    length ≤ pagesFor length pageSize * pageSize :=
  (pagesFor_le_iff paged).mp (Nat.le_refl _)

theorem pagesFor_le_self {pageSize : Nat} (length : Nat) (paged : 0 < pageSize) :
    pagesFor length pageSize ≤ length :=
  (pagesFor_le_iff paged).mpr (Nat.le_mul_of_pos_right length paged)

/-- The page of the last byte is the last page. -/
theorem pagesFor_of_pos {length : Nat} (pageSize : Nat) (paged : 0 < pageSize)
    (some_bytes : 0 < length) : pagesFor length pageSize = (length - 1) / pageSize + 1 := by
  rw [pagesFor, show length + pageSize - 1 = length - 1 + pageSize by omega,
    Nat.add_div_right _ paged]

/-! ### Pieces in consecutive pages -/

namespace Layout

/-- The numbers of `count` consecutive pages, of which `first` is the first. -/
def pageNumbers (first count : Nat) : List UInt32 := (List.range' first count).map UInt32.ofNat

@[simp] theorem length_pageNumbers (first count : Nat) :
    (pageNumbers first count).length = count := by
  rw [pageNumbers, List.length_map, List.length_range']

theorem pageNumbers_add (first left right : Nat) :
    pageNumbers first (left + right)
      = pageNumbers first left ++ pageNumbers (first + left) right := by
  rw [pageNumbers, ← List.range'_append_1, List.map_append]
  rfl

theorem pageNumbers_succ (first count : Nat) :
    pageNumbers first (count + 1) = UInt32.ofNat first :: pageNumbers (first + 1) count := rfl

theorem getElem?_pageNumbers {first count page : Nat} (h : page < count) :
    (pageNumbers first count)[page]? = some (UInt32.ofNat (first + page)) := by
  rw [pageNumbers, List.getElem?_map, List.getElem?_range' h, Nat.one_mul]
  rfl

end Layout

variable {file : PageFile} {bytes : ByteArray} {first : Nat}

/-- A part of one page is a part of the piece that stands in consecutive pages. -/
theorem PageFile.read_of_standsAt (h : StandsAt bytes file.source (first * file.pageSize.toNat))
    {page count : Nat} (inside : page * file.pageSize.toNat + count ≤ bytes.size)
    (fits : first + page < 2 ^ 32) :
    file.read (UInt32.ofNat (first + page)) 0 count
      = .ok (bytes.extract (page * file.pageSize.toNat) (page * file.pageSize.toNat + count)) := by
  have hle := h.le_size
  have hpart := h.extract_part (page * file.pageSize.toNat) inside
  unfold PageFile.read
  rw [UInt32.toNat_ofNat_of_lt' fits, Nat.add_mul, Nat.add_zero]
  simp only []
  rw [if_pos (by omega), Nat.add_assoc, hpart]

/-- The page loop of a stream gives back what stands in its pages. -/
theorem StreamDescriptor.readPages_of_standsAt {stream : StreamDescriptor} (page : Nat)
    (paged : 0 < file.pageSize.toNat)
    (h : StandsAt bytes file.source (first * file.pageSize.toNat))
    (hpages : stream.pages.toList
      = Layout.pageNumbers first (pagesFor bytes.size file.pageSize.toNat))
    (fits : first + pagesFor bytes.size file.pageSize.toNat ≤ 2 ^ 32) {remaining : Nat}
    (last : page + remaining = pagesFor bytes.size file.pageSize.toNat) :
    stream.readPages file 0 bytes.size
        (bytes.extract 0 (min bytes.size (page * file.pageSize.toNat))) remaining page
      = .ok bytes := by
  -- the bytes so far are those on the pages in front of the one at hand
  induction remaining generalizing page with
  | zero =>
    have hle := le_pagesFor_mul bytes.size paged
    rw [← last, Nat.add_zero] at hle
    rw [readPages, Nat.min_eq_left hle, ByteArray.extract_zero_size]
  | succ remaining ih =>
    have hstart : page * file.pageSize.toNat < bytes.size := (lt_pagesFor_iff paged).mp (by omega)
    have hlisted : stream.pages[page]? = some (UInt32.ofNat (first + page)) := by
      rw [← Array.getElem?_toList, hpages, Layout.getElem?_pageNumbers (by omega)]
    have hnext := ih (page + 1) (by omega)
    rw [Nat.succ_mul] at hnext
    rw [readPages]
    simp only [hlisted, Nat.zero_max, Nat.sub_self]
    rw [PageFile.read_of_standsAt h (by omega) (by omega)]
    simp only []
    rw [Nat.min_eq_right (Nat.le_of_lt hstart), ByteArray.extract_append_extract, ← hnext]
    congr 2
    omega

/-- A stream whose content was put into consecutive pages. -/
theorem StreamDescriptor.content_of_standsAt {stream : StreamDescriptor}
    (paged : 0 < file.pageSize.toNat)
    (h : StandsAt bytes file.source (first * file.pageSize.toNat))
    (hlength : stream.length.toNat = bytes.size)
    (hpages : stream.pages.toList
      = Layout.pageNumbers first (pagesFor bytes.size file.pageSize.toNat))
    (fits : first + pagesFor bytes.size file.pageSize.toNat ≤ 2 ^ 32) :
    stream.content file = .ok bytes := by
  unfold content read
  simp only [hlength, UInt32.toNat_zero, Nat.zero_add, Nat.lt_irrefl, if_false, Nat.zero_div,
    Nat.sub_zero]
  rcases Nat.eq_zero_or_pos bytes.size with hzero | hpos
  · rw [if_pos hzero, ByteArray.size_eq_zero_iff.mp hzero]
  · rw [if_neg (by omega), ← pagesFor_of_pos _ paged hpos]
    have hloop := readPages_of_standsAt 0 paged h hpages fits (Nat.zero_add _)
    rwa [Nat.zero_mul, Nat.min_zero, ByteArray.extract_same] at hloop

/-- The page loop of the directory gives back the words that stand in the root pages. -/
theorem Directory.gatherPages_of_standsAt (file : PageFile) (page : Nat)
    (paged : 0 < file.pageSize.toNat) (hpage : file.pageSize.toNat % 4 = 0)
    (hwords : bytes.size % 4 = 0)
    (h : StandsAt bytes file.source (first * file.pageSize.toNat))
    (fits : first + pagesFor bytes.size file.pageSize.toNat ≤ 2 ^ 32) {remaining : Nat}
    (last : page + remaining = pagesFor bytes.size file.pageSize.toNat) :
    gatherPages file (bytes.extract 0 (min bytes.size (page * file.pageSize.toNat)))
        ((bytes.size - page * file.pageSize.toNat) / 4)
        (Layout.pageNumbers (first + page) remaining)
      = .ok bytes := by
  induction remaining generalizing page with
  | zero =>
    have hle := le_pagesFor_mul bytes.size paged
    rw [← last, Nat.add_zero] at hle
    show Except.ok _ = _
    rw [Nat.min_eq_left hle, ByteArray.extract_zero_size]
  | succ remaining ih =>
    have hstart : page * file.pageSize.toNat < bytes.size := (lt_pagesFor_iff paged).mp (by omega)
    have hnext := ih (page + 1) (by omega)
    rw [Nat.succ_mul, ← Nat.add_assoc] at hnext
    have hcount : min ((bytes.size - page * file.pageSize.toNat) / 4) (file.pageSize.toNat / 4) * 4
        = min (bytes.size - page * file.pageSize.toNat) file.pageSize.toNat := by
      have hmultiple : page * file.pageSize.toNat % 4 = 0 := by
        rw [Nat.mul_mod, hpage, Nat.mul_zero, Nat.zero_mod]
      omega
    rw [Layout.pageNumbers_succ, gatherPages, hcount,
      PageFile.read_of_standsAt h (by omega) (by omega), ← hnext]
    show gatherPages file _ _ _ = _
    rw [Nat.min_eq_right (Nat.le_of_lt hstart), ByteArray.extract_append_extract]
    congr 2 <;> omega

/-! ### Reading the header -/

namespace Header

/-- The fixed part of a header, with any numbers of the free page map and of the pages. -/
def fixedBytes (pageSize freePageMap pageCount directorySize reserved : UInt32) : ByteArray :=
  magic ++ Bytes.uint32s [pageSize, freePageMap, pageCount, directorySize, reserved]

theorem size_magic : magic.size = 32 := by decide +kernel

variable {pageSize freePageMap pageCount directorySize reserved : UInt32}

theorem size_fixedBytes :
    (fixedBytes pageSize freePageMap pageCount directorySize reserved).size = fixedSize := by
  rw [fixedBytes, ByteArray.size_append, size_magic, Bytes.size_uint32s]
  rfl

theorem reads_fixedPart {start : Nat} (hpage : isPageSize pageSize = true) :
    Reads fixedPart start (fixedBytes pageSize freePageMap pageCount directorySize reserved)
      (pageSize, directorySize) := by
  unfold fixedPart fixedBytes
  simp only [Bytes.uint32s_cons, Bytes.uint32s_nil]
  refine (Reads.bytes rfl).bind ?_
  simp only [show (magic != magic) = false by decide +kernel, Bool.false_eq_true, if_false]
  refine (Reads.uint32 pageSize).bind ((Reads.uint32 freePageMap).bind
    ((Reads.uint32 pageCount).bind ((Reads.uint32 directorySize).bind
      ((Reads.uint32 reserved).bind ?_))))
  simp only [hpage, Bool.not_true, Bool.false_eq_true, if_false]
  exact .pure _

theorem bytesOf_of_standsAt {source piece : ByteArray} {start : Nat}
    (h : StandsAt piece source start) : bytesOf source start piece.size = .ok piece := by
  have hle := h.le_size
  unfold bytesOf PageFile.read
  simp only [UInt32.toNat_zero, Nat.zero_mul, Nat.zero_add]
  rw [if_pos (by omega), h.extract_eq]

theorem decode_of_standsAt {source : ByteArray} {roots : List UInt32}
    (hpage : isPageSize pageSize = true)
    (hfixed : StandsAt (fixedBytes pageSize freePageMap pageCount directorySize reserved) source 0)
    (hroots : StandsAt (Bytes.uint32s roots) source fixedSize)
    (hcount : roots.length = rootCount pageSize directorySize) :
    decode source = .ok ⟨pageSize, directorySize, roots⟩ := by
  have hfixed_read := bytesOf_of_standsAt hfixed
  have hroots_read := bytesOf_of_standsAt hroots
  rw [size_fixedBytes] at hfixed_read
  rw [Bytes.size_uint32s, Nat.mul_comm, hcount] at hroots_read
  have hroots_run : (Reader.uint32s roots.length).run (Bytes.uint32s roots) = .ok roots :=
    (Reads.uint32s roots).run_eq
  rw [hcount] at hroots_run
  simp only [decode, hfixed_read, ok_bind, (reads_fixedPart hpage).run_eq, hroots_read, hroots_run]
  rfl

/-- What is wrong with a page size ends the reading of the header. -/
theorem isPageSize_of_fixedPart {content : ByteArray} {start stop : Nat} {value : UInt32 × UInt32}
    (h : fixedPart content start = .done value stop) : isPageSize value.1 = true := by
  unfold fixedPart at h
  obtain ⟨signature, middle, -, h⟩ := Reader.bind_eq_done_iff.mp h
  by_cases hmagic : (signature != magic) = true
  · rw [if_pos hmagic] at h
    cases h
  · rw [if_neg hmagic] at h
    obtain ⟨pageSize, _, -, h⟩ := Reader.bind_eq_done_iff.mp h
    obtain ⟨_, _, -, h⟩ := Reader.bind_eq_done_iff.mp h
    obtain ⟨_, _, -, h⟩ := Reader.bind_eq_done_iff.mp h
    obtain ⟨_, _, -, h⟩ := Reader.bind_eq_done_iff.mp h
    obtain ⟨_, _, -, h⟩ := Reader.bind_eq_done_iff.mp h
    cases hpage : isPageSize pageSize with
    | false =>
      rw [hpage] at h
      cases h
    | true =>
      rw [hpage] at h
      cases h
      exact hpage

theorem isPageSize_of_decode {source : ByteArray} {header : Header}
    (h : decode source = .ok header) : isPageSize header.pageSize = true := by
  unfold decode at h
  obtain ⟨bytes, -, h⟩ := bind_eq_ok_iff.mp h
  obtain ⟨⟨pageSize, directorySize⟩, hfixed, h⟩ := bind_eq_ok_iff.mp h
  obtain ⟨stop, hfixed⟩ := Reader.run_eq_ok_iff.mp hfixed
  obtain ⟨rootBytes, -, h⟩ := bind_eq_ok_iff.mp h
  obtain ⟨roots, -, h⟩ := bind_eq_ok_iff.mp h
  cases h
  exact isPageSize_of_fixedPart hfixed

theorem pageSize_pos {size : UInt32} (h : isPageSize size = true) : 0 < size.toNat := by
  rw [isPageSize, Bool.and_eq_true, Bool.and_eq_true, decide_eq_true_iff] at h
  exact Nat.lt_of_lt_of_le (by decide) (UInt32.le_iff_toNat_le.mp h.1.2)

end Header

/-- A container that can be opened has pages. -/
theorem Container.paged_of_ofImage {image : ByteArray} {container : Container}
    (h : ofImage image = .ok container) : 0 < container.file.pageSize.toNat := by
  unfold ofImage at h
  obtain ⟨header, hheader, h⟩ := bind_eq_ok_iff.mp h
  obtain ⟨directory, -, h⟩ := bind_eq_ok_iff.mp h
  cases h
  exact Header.pageSize_pos (Header.isPageSize_of_decode hheader)

end ManagedPdb
