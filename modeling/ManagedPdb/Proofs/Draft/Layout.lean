import ManagedPdb.Draft.Layout
import ManagedPdb.Proofs.Container.Consecutive

/-!
# Containers are read back

A container is paged three times over: the streams, the directory that lists their pages, and the
list of the pages of the directory.  The writer fills pages up with zeros, so that what it puts into
new pages stands in one piece in the container (`concat_paginate`), on consecutive pages
(`placeAll_eq`).  Reading these gives the piece back.  The main statement is `image_round_trip`: the
streams of a container that was laid out are those that were put in.
-/

namespace ManagedPdb

namespace Layout

/-! ### Putting pieces into pages -/

/-- Filling up the last page puts zeros behind the bytes. -/
theorem concat_paginate {pageSize : Nat} (paged : 0 < pageSize) (bytes : ByteArray) :
    Bytes.concat (paginate pageSize bytes)
      = bytes ++ Bytes.zeros (pagesFor bytes.size pageSize * pageSize - bytes.size) := by
  -- the first pages are the bytes resized to as many pages
  have hpages : ∀ count ≤ pagesFor bytes.size pageSize,
      Bytes.concat ((List.range count).map fun index =>
        Bytes.resize (bytes.extract (index * pageSize) ((index + 1) * pageSize)) pageSize)
        = Bytes.resize bytes (count * pageSize) := by
    intro count hcount
    induction count with
    | zero =>
      rw [Nat.zero_mul, Bytes.resize, ByteArray.extract_same, Nat.zero_sub, ByteArray.empty_append]
      rfl
    | succ count ih =>
      have hstart : count * pageSize < bytes.size := (lt_pagesFor_iff paged).mp hcount
      rw [List.range_succ, List.map_append, Bytes.concat_append, ih (Nat.le_of_succ_le hcount),
        List.map_singleton, Bytes.concat_cons, Bytes.concat_nil, ByteArray.append_empty,
        Nat.succ_mul, Bytes.resize_append_resize _ (Nat.le_of_lt hstart)]
  rw [paginate, hpages _ (Nat.le_refl _), Bytes.resize_of_le (le_pagesFor_mul _ paged)]

@[simp] theorem length_paginate (pageSize : Nat) (bytes : ByteArray) :
    (paginate pageSize bytes).length = pagesFor bytes.size pageSize := by
  rw [paginate, List.length_map, List.length_range]

theorem size_of_mem_paginate {pageSize : Nat} {bytes page : ByteArray}
    (member : page ∈ paginate pageSize bytes) : page.size = pageSize := by
  obtain ⟨index, -, rfl⟩ := List.mem_map.mp member
  exact Bytes.size_resize ..

/-- The pages of all streams. -/
def streamPages (pageSize : Nat) (streams : List ByteArray) : List ByteArray :=
  streams.flatMap (paginate pageSize)

theorem size_concat_streamPages (pageSize : Nat) (streams : List ByteArray) :
    (Bytes.concat (streamPages pageSize streams)).size
      = (streamPages pageSize streams).length * pageSize := by
  apply Bytes.size_concat_of_size
  intro page member
  obtain ⟨stream, -, hpage⟩ := List.mem_flatMap.mp member
  exact size_of_mem_paginate hpage

theorem place_eq (pageSize : Nat) (pages : Array ByteArray) (bytes : ByteArray) :
    place pageSize pages bytes = (pageNumbers pages.size (pagesFor bytes.size pageSize),
      pages ++ (paginate pageSize bytes).toArray) := by
  rw [place, length_paginate]
  rfl

theorem placeAll_eq (pageSize : Nat) (pages : Array ByteArray) (streams : List ByteArray) :
    placeAll pageSize pages streams
      = (pageNumbers pages.size (streamPages pageSize streams).length,
          pages ++ (streamPages pageSize streams).toArray) := by
  induction streams generalizing pages with
  | nil => simp [placeAll, streamPages, pageNumbers]
  | cons stream streams ih =>
    rw [placeAll, place_eq]
    simp only [ih]
    simp [streamPages, pageNumbers_add]

/-- The descriptors of streams that are put into pages one after the other. -/
def placed (pageSize first : Nat) : (streams : List ByteArray) → List StreamDescriptor
  | [] => []
  | stream :: streams =>
    let count := pagesFor stream.size pageSize
    ⟨UInt32.ofNat stream.size, (pageNumbers first count).toArray⟩
      :: placed pageSize (first + count) streams

/-- Streams that were put into pages are read back. -/
theorem contents_placed (file : PageFile) (paged : 0 < file.pageSize.toNat) {first : Nat}
    {streams : List ByteArray} (hsizes : ∀ stream ∈ streams, stream.size < 2 ^ 32)
    (h : StandsAt (Bytes.concat (streamPages file.pageSize.toNat streams)) file.source
      (first * file.pageSize.toNat))
    (fits : first + (streamPages file.pageSize.toNat streams).length ≤ 2 ^ 32) :
    (placed file.pageSize.toNat first streams).map (·.content file) = streams.map .ok := by
  induction streams generalizing first with
  | nil => rfl
  | cons stream streams ih =>
    rw [streamPages, List.flatMap_cons, Bytes.concat_append] at h
    rw [streamPages, List.flatMap_cons, List.length_append, length_paginate] at fits
    have hrest := h.append_right
    rw [Bytes.size_concat_of_size fun _ => size_of_mem_paginate, length_paginate, ← Nat.add_mul]
      at hrest
    have hstream := h.append_left
    rw [concat_paginate paged] at hstream
    rw [placed, List.map_cons, List.map_cons,
      StreamDescriptor.content_of_standsAt paged hstream.append_left
        (UInt32.toNat_ofNat_of_lt' (hsizes stream (by simp))) rfl (by omega),
      ih (fun stream member => hsizes stream (List.mem_cons_of_mem _ member)) hrest
        (by rw [streamPages]; omega)]

/-! ### The parts of a container -/

/-- The directory of streams that are put into the pages from the second one on. -/
def placedDirectory (pageSize : Nat) (streams : List ByteArray) : ByteArray :=
  directory streams (pageNumbers 1 (streamPages pageSize streams).length)

/-- The page behind those of the streams. -/
def directoryStart (pageSize : Nat) (streams : List ByteArray) : Nat :=
  1 + (streamPages pageSize streams).length

def directoryPages (pageSize : Nat) (streams : List ByteArray) : List UInt32 :=
  pageNumbers (directoryStart pageSize streams)
    (pagesFor (placedDirectory pageSize streams).size pageSize)

/-- The page behind those of the directory. -/
def rootStart (pageSize : Nat) (streams : List ByteArray) : Nat :=
  directoryStart pageSize streams + (directoryPages pageSize streams).length

def rootPages (pageSize : Nat) (streams : List ByteArray) : List UInt32 :=
  pageNumbers (rootStart pageSize streams)
    (pagesFor (Bytes.uint32s (directoryPages pageSize streams)).size pageSize)

/-- A container is its header page, the pages of the streams, those of the directory and the root
pages. -/
theorem image_eq (pageSize : UInt32) (streams : List ByteArray) :
    ∃ pageCount, image pageSize streams
      = header pageSize pageCount (placedDirectory pageSize.toNat streams).size
          (rootPages pageSize.toNat streams)
        ++ (Bytes.concat (streamPages pageSize.toNat streams)
          ++ (Bytes.concat (paginate pageSize.toNat (placedDirectory pageSize.toNat streams))
            ++ Bytes.concat (paginate pageSize.toNat
              (Bytes.uint32s (directoryPages pageSize.toNat streams))))) := by
  have hstart : (#[ByteArray.empty] ++ (streamPages pageSize.toNat streams).toArray).size
      = directoryStart pageSize.toNat streams := by
    simp [directoryStart, Nat.add_comm]
  have hroots : (#[ByteArray.empty] ++ (streamPages pageSize.toNat streams).toArray
      ++ (paginate pageSize.toNat (placedDirectory pageSize.toNat streams)).toArray).size
        = rootStart pageSize.toNat streams := by
    simp [directoryStart, rootStart, directoryPages]
    omega
  have hdirectory : directory streams (pageNumbers (#[ByteArray.empty] : Array ByteArray).size
      (streamPages pageSize.toNat streams).length) = placedDirectory pageSize.toNat streams := rfl
  unfold image
  simp only [placeAll_eq, place_eq, hstart, hdirectory, hroots]
  simp only [Array.append_assoc, Array.toList_setIfInBounds, Array.toList_append,
    List.singleton_append, List.set_cons_zero, Bytes.concat_cons, Bytes.concat_append]
  exact ⟨_, rfl⟩

theorem size_header (pageSize : UInt32) (pageCount size : Nat) (roots : List UInt32) :
    (header pageSize pageCount size roots).size = pageSize.toNat :=
  Bytes.size_resize ..

/-- The numbers of the root pages stand behind the fixed part if they fit on the header page. -/
theorem header_eq {pageSize : UInt32} (pageCount size : Nat) {roots : List UInt32}
    (fits : Header.fixedSize + 4 * roots.length ≤ pageSize.toNat) :
    ∃ filling, header pageSize pageCount size roots
      = Header.fixedBytes pageSize 1 (UInt32.ofNat pageCount) (UInt32.ofNat size) 0
        ++ Bytes.uint32s roots ++ filling := by
  rw [header, Bytes.uint32s_append, ← ByteArray.append_assoc]
  refine ⟨_, Bytes.resize_of_le ?_⟩
  rw [ByteArray.size_append, Bytes.size_uint32s]
  exact (Header.size_fixedBytes.symm ▸ fits :)

/-- The number of bytes of the directory: the number of streams, their sizes and their pages. -/
def directorySize (pageSize : Nat) (streams : List ByteArray) : Nat :=
  4 * (1 + streams.length + (streams.map fun stream => pagesFor stream.size pageSize).sum)

theorem length_streamPages (pageSize : Nat) (streams : List ByteArray) :
    (streamPages pageSize streams).length
      = (streams.map fun stream => pagesFor stream.size pageSize).sum := by
  simp only [streamPages, List.length_flatMap, length_paginate]

theorem size_placedDirectory (pageSize : Nat) (streams : List ByteArray) :
    (placedDirectory pageSize streams).size = directorySize pageSize streams := by
  simp only [placedDirectory, directory, directorySize, Bytes.size_uint32s, List.cons_append,
    List.length_cons, List.length_append, List.length_map, length_pageNumbers, length_streamPages]
  omega

/-- The streams fit into a container with pages of the given size. -/
structure Fits (pageSize : UInt32) (streams : List ByteArray) : Prop where
  power : ∃ bits, 9 ≤ bits ∧ bits ≤ 16 ∧ pageSize.toNat = 2 ^ bits
  sizes : ∀ stream ∈ streams, stream.size < 2 ^ 31
  directory : directorySize pageSize.toNat streams < 2 ^ 32
  /-- The numbers of the root pages stand behind the fixed part of the header. -/
  roots : Header.fixedSize + 4 * pagesFor (4 * pagesFor (directorySize pageSize.toNat streams)
    pageSize.toNat) pageSize.toNat ≤ pageSize.toNat

namespace Fits

variable {pageSize : UInt32} {streams : List ByteArray}

/-- The page sizes are eight powers of two. -/
theorem exists_bits (fits : Fits pageSize streams) :
    ∃ bits ∈ [9, 10, 11, 12, 13, 14, 15, 16], pageSize = UInt32.ofNat (2 ^ bits) := by
  obtain ⟨bits, hlow, hhigh, hpower⟩ := fits.power
  refine ⟨bits, by simp; omega, ?_⟩
  rw [← hpower, UInt32.ofNat_toNat]

theorem isPageSize (fits : Fits pageSize streams) : Header.isPageSize pageSize = true := by
  have hsizes : ∀ bits ∈ [9, 10, 11, 12, 13, 14, 15, 16],
      Header.isPageSize (UInt32.ofNat (2 ^ bits)) = true := by decide
  obtain ⟨bits, member, heq⟩ := fits.exists_bits
  rw [heq]
  exact hsizes bits member

theorem toNat_pageSize (fits : Fits pageSize streams) :
    512 ≤ pageSize.toNat ∧ pageSize.toNat ≤ 65536 ∧ pageSize.toNat % 4 = 0 := by
  have hsizes : ∀ bits ∈ [9, 10, 11, 12, 13, 14, 15, 16],
      512 ≤ 2 ^ bits ∧ 2 ^ bits ≤ 65536 ∧ 2 ^ bits % 4 = 0 := by decide
  obtain ⟨bits, hlow, hhigh, hpower⟩ := fits.power
  rw [hpower]
  exact hsizes bits (by simp; omega)

theorem paged (fits : Fits pageSize streams) : 0 < pageSize.toNat :=
  Nat.lt_of_lt_of_le (by decide) fits.toNat_pageSize.1

theorem length_rootPages (fits : Fits pageSize streams) :
    Header.fixedSize + 4 * (rootPages pageSize.toNat streams).length ≤ pageSize.toNat := by
  have hroots := fits.roots
  rwa [rootPages, length_pageNumbers, Bytes.size_uint32s, directoryPages, length_pageNumbers,
    size_placedDirectory]

/-- The number of pages is a number of 32 bits. -/
theorem pageCount_le (fits : Fits pageSize streams) :
    rootStart pageSize.toNat streams + (rootPages pageSize.toNat streams).length ≤ 2 ^ 32 := by
  have hdirectory := fits.directory
  have hstreams : (streamPages pageSize.toNat streams).length < 2 ^ 30 := by
    rw [length_streamPages]
    rw [directorySize] at hdirectory
    omega
  have hpages : (directoryPages pageSize.toNat streams).length ≤ 2 ^ 23 := by
    rw [directoryPages, length_pageNumbers, size_placedDirectory, pagesFor_le_iff fits.paged]
    have := Nat.mul_le_mul_left (2 ^ 23) fits.toNat_pageSize.1
    omega
  have hroots := fits.length_rootPages
  have hsize := fits.toNat_pageSize.2.1
  rw [rootStart, directoryStart]
  omega

/-- Where the parts of a container stand. -/
structure Parts (pageSize : UInt32) (streams : List ByteArray) (source : ByteArray) : Prop where
  header : ∃ pageCount, StandsAt (Header.fixedBytes pageSize 1 pageCount
    (UInt32.ofNat (directorySize pageSize.toNat streams)) 0) source 0
  roots : StandsAt (Bytes.uint32s (rootPages pageSize.toNat streams)) source Header.fixedSize
  contents : StandsAt (Bytes.concat (streamPages pageSize.toNat streams)) source
    (1 * pageSize.toNat)
  directory : StandsAt (placedDirectory pageSize.toNat streams) source
    (directoryStart pageSize.toNat streams * pageSize.toNat)
  pageList : StandsAt (Bytes.uint32s (directoryPages pageSize.toNat streams)) source
    (rootStart pageSize.toNat streams * pageSize.toNat)

theorem size_concat_paginate (pageSize : Nat) (bytes : ByteArray) :
    (Bytes.concat (paginate pageSize bytes)).size = pagesFor bytes.size pageSize * pageSize := by
  rw [Bytes.size_concat_of_size fun _ => size_of_mem_paginate, length_paginate]

theorem parts (fits : Fits pageSize streams) :
    Parts pageSize streams (image pageSize streams) := by
  obtain ⟨pageCount, himage⟩ := image_eq pageSize streams
  have hself := StandsAt.self (image pageSize streams)
  nth_rewrite 1 [himage] at hself
  have hheader := hself.append_left
  have hcontents := hself.append_right
  have hdirectory := hcontents.append_right
  have hpageList := hdirectory.append_right
  obtain ⟨filling, hheader_eq⟩ := header_eq pageCount
    (placedDirectory pageSize.toNat streams).size fits.length_rootPages
  rw [hheader_eq] at hheader
  rw [size_header, Nat.zero_add] at hcontents hdirectory hpageList
  have hstart : pageSize.toNat + (streamPages pageSize.toNat streams).length * pageSize.toNat
      = directoryStart pageSize.toNat streams * pageSize.toNat := by
    rw [directoryStart, Nat.add_mul, Nat.one_mul]
  rw [size_concat_streamPages, hstart] at hdirectory hpageList
  rw [size_concat_paginate, ← Nat.add_mul] at hpageList
  have hroots := hheader.append_left.append_right
  rw [Header.size_fixedBytes, Nat.zero_add] at hroots
  rw [size_placedDirectory] at hheader
  refine ⟨⟨_, hheader.append_left.append_left⟩, hroots, ?_, ?_, ?_⟩
  · rw [Nat.one_mul]
    exact hcontents.append_left
  · rw [concat_paginate fits.paged] at hdirectory
    exact hdirectory.append_left.append_left
  · rw [concat_paginate fits.paged] at hpageList
    rw [rootStart, directoryPages, length_pageNumbers]
    exact hpageList.append_left

/-! ### Reading the directory -/

variable {file : PageFile}

theorem toNat_pagesFor (length : UInt32) (paged : 0 < file.pageSize.toNat) :
    (file.pagesFor length).toNat = pagesFor length.toNat file.pageSize.toNat := by
  have hle := pagesFor_le_self length.toNat paged
  exact UInt32.toNat_ofNat_of_lt' (Nat.lt_of_le_of_lt hle length.toNat_lt)

theorem reads_descriptor (start : Nat) (length : UInt32) (pages : List UInt32) :
    Reads (Directory.descriptor length pages.length) start (Bytes.uint32s pages)
      ⟨length, pages.toArray⟩ :=
  .bind_pure (fun pages : List UInt32 => (⟨length, pages.toArray⟩ : StreamDescriptor))
    (.uint32s pages)

theorem reads_entry {start first size : Nat} (paged : 0 < file.pageSize.toNat)
    (hsize : size < 2 ^ 31) :
    Reads (Directory.entry file (UInt32.ofNat size)) start
      (Bytes.uint32s (pageNumbers first (pagesFor size file.pageSize.toNat)))
      ⟨UInt32.ofNat size, (pageNumbers first (pagesFor size file.pageSize.toNat)).toArray⟩ := by
  have hnat : (UInt32.ofNat size).toNat = size :=
    UInt32.toNat_ofNat_of_lt' (Nat.lt_trans hsize (by decide))
  unfold Directory.entry
  rcases Nat.eq_zero_or_pos size with rfl | hpos
  · have hzero : pagesFor 0 file.pageSize.toNat = 0 :=
      Nat.le_zero.mp (pagesFor_le_self 0 paged)
    rw [hzero]
    exact Reads.pure _
  · have hpositive : ¬ (UInt32.ofNat size).toInt32 ≤ 0 := by
      rw [UInt32.toInt32_ofNat', Int32.le_iff_toInt_le, Int32.toInt_ofNat_of_lt hsize]
      exact Int.not_le.mpr (Int.natCast_pos.mpr hpos)
    have hread := reads_descriptor start (UInt32.ofNat size)
      (pageNumbers first (pagesFor size file.pageSize.toNat))
    rw [length_pageNumbers] at hread
    rwa [if_neg hpositive, toNat_pagesFor _ paged, hnat]

theorem reads_entriesOnto (paged : 0 < file.pageSize.toNat) {streams : List ByteArray}
    (hsizes : ∀ stream ∈ streams, stream.size < 2 ^ 31) (start first : Nat)
    (before : Array StreamDescriptor) :
    Reads (Directory.entriesOnto file before (streams.map fun stream => UInt32.ofNat stream.size))
      start
      (Bytes.uint32s (pageNumbers first (streamPages file.pageSize.toNat streams).length))
      (before ++ (placed file.pageSize.toNat first streams).toArray) := by
  induction streams generalizing start first before with
  | nil =>
    rw [placed, Array.append_empty]
    exact .pure before
  | cons stream streams ih =>
    rw [streamPages, List.flatMap_cons, List.length_append, length_paginate, pageNumbers_add,
      Bytes.uint32s_append, List.map_cons, Directory.entriesOnto]
    refine (reads_entry paged (hsizes stream (by simp))).bind ?_
    have hrest := ih (fun stream member => hsizes stream (List.mem_cons_of_mem _ member))
      (start + (Bytes.uint32s (pageNumbers first (pagesFor stream.size file.pageSize.toNat))).size)
      (first + pagesFor stream.size file.pageSize.toNat)
      (before.push ⟨UInt32.ofNat stream.size,
        (pageNumbers first (pagesFor stream.size file.pageSize.toNat)).toArray⟩)
    rw [placed, List.toArray_cons, ← Array.append_assoc]
    exact hrest

theorem reads_entries (fits : Fits pageSize streams) (hpage : file.pageSize = pageSize)
    (start : Nat) :
    Reads (Directory.entries file) start (placedDirectory pageSize.toNat streams)
      ⟨(placed pageSize.toNat 1 streams).toArray⟩ := by
  have hcount : (UInt32.ofNat streams.length).toNat
      = (streams.map fun stream => UInt32.ofNat stream.size).length := by
    have hdirectory := fits.directory
    rw [directorySize] at hdirectory
    rw [List.length_map]
    exact UInt32.toNat_ofNat_of_lt' (show _ < 2 ^ 32 by omega)
  have hpaged := fits.paged
  subst hpage
  rw [placedDirectory, Layout.directory, List.cons_append, Bytes.uint32s_cons,
    Bytes.uint32s_append]
  unfold Directory.entries
  refine (Reads.uint32 _).bind ?_
  rw [hcount]
  refine (Reads.uint32s _).bind ?_
  refine Reads.bind_pure Directory.mk ?_
  have hentries := reads_entriesOnto hpaged fits.sizes (start + (Bytes.uint32 (UInt32.ofNat
    streams.length)).size + (Bytes.uint32s (streams.map fun stream =>
      UInt32.ofNat stream.size)).size) 1 #[]
  rwa [Array.empty_append] at hentries

/-- The directory that a container was given is the one that is found. -/
theorem decode_eq (fits : Fits pageSize streams) {source : ByteArray}
    (parts : Parts pageSize streams source) :
    Directory.decode ⟨source, pageSize⟩
        ⟨pageSize, UInt32.ofNat (directorySize pageSize.toNat streams),
          rootPages pageSize.toNat streams⟩
      = .ok ⟨(placed pageSize.toNat 1 streams).toArray⟩ := by
  have hcount := fits.pageCount_le
  have hsize : (UInt32.ofNat (directorySize pageSize.toNat streams)).toNat
      = (placedDirectory pageSize.toNat streams).size := by
    rw [size_placedDirectory]
    exact UInt32.toNat_ofNat_of_lt' fits.directory
  have hpages : (PageFile.pagesFor ⟨source, pageSize⟩
      (UInt32.ofNat (directorySize pageSize.toNat streams))).toNat
        = (directoryPages pageSize.toNat streams).length := by
    rw [toNat_pagesFor _ fits.paged, hsize, directoryPages, length_pageNumbers]
  have hgather : Directory.gatherPages ⟨source, pageSize⟩ .empty
      (directoryPages pageSize.toNat streams).length (rootPages pageSize.toNat streams)
        = .ok (Bytes.uint32s (directoryPages pageSize.toNat streams)) := by
    have hloop := Directory.gatherPages_of_standsAt ⟨source, pageSize⟩ 0
      fits.paged fits.toNat_pageSize.2.2 (by rw [Bytes.size_uint32s]; omega) parts.pageList
      (by rwa [rootPages, length_pageNumbers] at hcount) (Nat.zero_add _)
    rwa [Nat.zero_mul, Nat.min_zero, ByteArray.extract_same, Nat.sub_zero, Bytes.size_uint32s,
      Nat.mul_div_cancel_left _ (by decide), ← Bytes.size_uint32s] at hloop
  have hcontent : StreamDescriptor.content
      ⟨UInt32.ofNat (directorySize pageSize.toNat streams),
        (directoryPages pageSize.toNat streams).toArray⟩ ⟨source, pageSize⟩
        = .ok (placedDirectory pageSize.toNat streams) := by
    refine StreamDescriptor.content_of_standsAt fits.paged parts.directory hsize rfl ?_
    rw [rootStart, directoryPages, length_pageNumbers] at hcount
    exact Nat.le_trans (Nat.le_add_right ..) hcount
  have hdescriptor := (reads_descriptor 0 (UInt32.ofNat (directorySize pageSize.toNat streams))
    (directoryPages pageSize.toNat streams)).run_eq
  unfold Directory.decode
  simp only [hpages, hgather, ok_bind, hdescriptor, hcontent]
  exact (fits.reads_entries rfl 0).run_eq

end Fits

/-- A container that was laid out is opened, and its directory lists where the streams were put. -/
theorem ofImage_image {pageSize : UInt32} {streams : List ByteArray}
    (fits : Fits pageSize streams) :
    Container.ofImage (image pageSize streams)
      = .ok ⟨⟨image pageSize streams, pageSize⟩, ⟨(placed pageSize.toNat 1 streams).toArray⟩⟩ := by
  have parts := fits.parts
  obtain ⟨pageCount, hheader⟩ := parts.header
  have hroots : (rootPages pageSize.toNat streams).length = Header.rootCount pageSize
      (UInt32.ofNat (directorySize pageSize.toNat streams)) := by
    rw [Header.rootCount, UInt32.toNat_ofNat_of_lt' fits.directory, rootPages, length_pageNumbers,
      Bytes.size_uint32s, directoryPages, length_pageNumbers, size_placedDirectory, Nat.mul_comm 4]
  unfold Container.ofImage
  rw [Header.decode_of_standsAt fits.isPageSize hheader parts.roots hroots]
  simp only [ok_bind, fits.decode_eq parts]
  rfl

/-- The streams of a container are those that were put in. -/
theorem contents_image {pageSize : UInt32} {streams : List ByteArray}
    (fits : Fits pageSize streams) :
    (placed pageSize.toNat 1 streams).map (·.content ⟨image pageSize streams, pageSize⟩)
      = streams.map .ok := by
  refine contents_placed ⟨image pageSize streams, pageSize⟩ fits.paged
    (fun stream member => Nat.lt_trans (fits.sizes stream member) (by decide))
    fits.parts.contents ?_
  have hcount := fits.pageCount_le
  rw [rootStart, directoryStart] at hcount
  show 1 + (streamPages pageSize.toNat streams).length ≤ _
  omega

@[simp] theorem length_placed (pageSize first : Nat) (streams : List ByteArray) :
    (placed pageSize first streams).length = streams.length := by
  induction streams generalizing first with
  | nil => rfl
  | cons stream streams ih => rw [placed, List.length_cons, ih, List.length_cons]

theorem content_getElem_placed {pageSize : UInt32} {streams : List ByteArray}
    (fits : Fits pageSize streams) {index : Nat}
    (hplaced : index < (placed pageSize.toNat 1 streams).length) (h : index < streams.length) :
    (placed pageSize.toNat 1 streams)[index].content ⟨image pageSize streams, pageSize⟩
      = .ok streams[index] := by
  have hindex := congrArg (·[index]?) (contents_image fits)
  simpa [List.getElem?_eq_getElem h, List.getElem?_eq_getElem hplaced] using hindex

/-- A container that was laid out is opened.  It has as many streams as were put in, each with its
length and its bytes. -/
theorem image_round_trip {pageSize : UInt32} {streams : List ByteArray}
    (fits : Fits pageSize streams) :
    ∃ container, Container.ofImage (image pageSize streams) = .ok container ∧
      container.directory.streams.size = streams.length ∧
      ∀ (index : Nat) (h : index < streams.length), ∃ stream,
        container.directory.streams[index]? = some stream ∧
          stream.length.toNat = streams[index].size ∧
          stream.content container.file = .ok streams[index] := by
  refine ⟨_, ofImage_image fits, length_placed .., ?_⟩
  intro index h
  have hplaced : index < (placed pageSize.toNat 1 streams).length := by rwa [length_placed]
  have hcontent := content_getElem_placed fits hplaced h
  have hlisted : (placed pageSize.toNat 1 streams).toArray[index]?
      = some (placed pageSize.toNat 1 streams)[index] := by
    rw [List.getElem?_toArray, List.getElem?_eq_getElem hplaced]
  exact ⟨_, hlisted, (StreamDescriptor.size_of_read_eq_ok fits.paged hcontent).symm, hcontent⟩

/-- An empty stream in front of others that end on page boundaries, with a directory of three
pages. -/
theorem image_round_trip_boundaries :
    let streams := .empty :: List.replicate 130 (Bytes.zeros 512)
    Fits 512 streams ∧ ∃ container, Container.ofImage (image 512 streams) = .ok container ∧
      container.directory.streams.size = 131 ∧ ∃ stream,
        container.directory.streams[130]? = some stream ∧ stream.length.toNat = 512 ∧
          stream.content container.file = .ok (Bytes.zeros 512) := by
  intro streams
  have hsize : directorySize 512 streams = 1048 := by
    simp [directorySize, streams, pagesFor]
  have fits : Fits 512 streams := by
    refine ⟨⟨9, by decide, by decide, rfl⟩, ?_, ?_, ?_⟩
    · simp [streams]
    · show directorySize 512 streams < 2 ^ 32
      rw [hsize]
      decide
    · show _ + 4 * pagesFor (4 * pagesFor (directorySize 512 streams) 512) 512 ≤ 512
      rw [hsize]
      decide
  obtain ⟨container, hopen, hcount, hstreams⟩ := image_round_trip fits
  have hinside : 130 < streams.length := by simp [streams]
  obtain ⟨stream, hstream, hlength, hcontent⟩ := hstreams 130 hinside
  have hlast : streams[130] = Bytes.zeros 512 := by simp [streams]
  rw [hlast] at hlength hcontent
  exact ⟨fits, container, hopen, hcount, stream, hstream, by rw [hlength]; simp, hcontent⟩

end Layout

end ManagedPdb
