import ManagedPdb.Proofs.Container.Consecutive
import ManagedPdb.Proofs.Machine.Staging

/-!
# Containers on a machine

The header and the directory are read through the cursor that all streams are staged in.  The length
of the list of directory pages is a product in 32 bits, which the accepted page sizes keep small
(`pagesFor_mul_lt`).
-/

namespace ManagedPdb

namespace Checked

/-- The quotient, rounded up. -/
def divCeil (left right : Nat) : Option Nat :=
  if right = 0 then none else some (pagesFor left right)

theorem divCeil_eq {left right : Nat} (h : 0 < right) :
    divCeil left right = some (pagesFor left right) :=
  if_neg (Nat.pos_iff_ne_zero.mp h)

end Checked

namespace Machine

/-! ### The header -/

def fixedPart : Machine (UInt32 × UInt32) := do
  let signature ← take Header.magic.size
  if signature != Header.magic then fail (.ofKind .invalidMagic)
  let pageSize ← uint32
  let _freePageMap ← uint32
  let _pageCount ← uint32
  let directorySize ← uint32
  let _reserved ← uint32
  if !Header.isPageSize pageSize then fail (.ofKind (.invalidPageSize pageSize))
  return (pageSize, directorySize)

/-- The root pages, given the page size and the length of the directory. -/
def roots (source : ByteArray) (pageSize directorySize : UInt32) : Machine (List UInt32) := do
  let pageCount ← Checked.divCeil directorySize.toNat pageSize.toNat
  let listSize ← Checked.mul 32 pageCount 4
  let rootCount ← Checked.divCeil listSize pageSize.toNat
  let length ← Checked.mul 64 rootCount 4
  fill source Header.fixedSize length
  uint32s rootCount

def header (source : ByteArray) : Machine Header := do
  let sizes ← (do fill source 0 Header.fixedSize; fixedPart)
  let directoryRoots ← roots source sizes.1 sizes.2
  return { pageSize := sizes.1, directorySize := sizes.2, directoryRoots }

/-! ### The directory -/

def gatherPages (file : PageFile) (toGo : Nat) : (roots : List UInt32) → Machine Unit
  | [] => return
  | root :: roots => do
    let count := min toGo (file.pageSize.toNat / 4)
    let size ← Checked.mul 64 count 4
    append size (readPage file root 0 size)
    gatherPages file (← Checked.sub toGo count) roots

/-- Stages the page numbers of the directory. -/
def pageList (file : PageFile) (pageCount : Nat) (roots : List UInt32) : Machine Unit := do
  restart 0
  gatherPages file pageCount roots
  seek 0

def descriptor (length : UInt32) (pageCount : Nat) : Machine StreamDescriptor :=
  return ⟨length, (← uint32s pageCount).toArray⟩

def entry (file : PageFile) (length : UInt32) : Machine StreamDescriptor :=
  if length.toInt32 ≤ 0 then return .empty
  else do descriptor length (← Checked.divCeil length.toNat file.pageSize.toNat)

def entriesOnto (file : PageFile) (before : Array StreamDescriptor) :
    (lengths : List UInt32) → Machine (Array StreamDescriptor)
  | [] => return before
  | length :: lengths => do
    let stream ← entry file length
    entriesOnto file (before.push stream) lengths

def entries (file : PageFile) : Machine Directory := do
  let count ← uint32
  let lengths ← uint32s count.toNat
  Checked.room count.toNat 32
  return ⟨← entriesOnto file #[] lengths⟩

def directory (file : PageFile) (header : Header) : Machine Directory := do
  let pageCount ← Checked.divCeil header.directorySize.toNat file.pageSize.toNat
  let stream ← (do
    pageList file pageCount header.directoryRoots
    descriptor header.directorySize pageCount)
  load stream file
  entries file

def container (image : ByteArray) : Machine Container := do
  let header ← header image
  let file : PageFile := ⟨image, header.pageSize⟩
  return ⟨file, ← directory file header⟩

end Machine

/-! ### What machines stage -/

/-- From the cursor on, the machine gives the bytes or their error.  With bytes, it leaves a cursor
with `post`. -/
def Gives (machine : Machine Unit) (cursor : Cursor) (bytes : Except DecodeError ByteArray)
    (post : ByteArray → Cursor → Prop) : Prop :=
  ∃ cursor', machine cursor = some (bytes.map fun _ => (), cursor') ∧
    ∀ piece, bytes = .ok piece → post piece cursor'

namespace Gives

variable {machine : Machine Unit} {cursor cursor' : Cursor} {post : ByteArray → Cursor → Prop}

theorem of_ok {piece : ByteArray} (h : machine cursor = some (.ok (), cursor'))
    (hpost : post piece cursor') : Gives machine cursor (.ok piece) post := by
  refine ⟨cursor', h, fun piece' heq => ?_⟩
  cases heq
  exact hpost

theorem of_error {error : DecodeError} (h : machine cursor = some (.error error, cursor')) :
    Gives machine cursor (.error error) post := by
  refine ⟨cursor', h, fun piece heq => ?_⟩
  cases heq

protected theorem bind {bytes : Except DecodeError ByteArray} {next : Machine Unit}
    {next' : ByteArray → Except DecodeError ByteArray} {post' : ByteArray → Cursor → Prop}
    (first : Gives machine cursor bytes post)
    (second : ∀ piece cursor', bytes = .ok piece → post piece cursor' →
      Gives next cursor' (next' piece) post') :
    Gives (do machine; next) cursor (bytes >>= next') post' := by
  obtain ⟨cursor', hmachine, hpost⟩ := first
  cases bytes with
  | error error => exact .of_error (Machine.bind_of_error hmachine)
  | ok piece =>
    obtain ⟨last, hnext, hlast⟩ := second piece cursor' rfl (hpost piece rfl)
    exact ⟨last, (Machine.bind_of_ok hmachine).trans hnext, hlast⟩

end Gives

/-- The bytes are the content of the cursor, which is at their start. -/
structure Cursor.Shows (bytes : ByteArray) (cursor : Cursor) : Prop where
  staged : Staged cursor.buffer cursor.length
  content : cursor.content = bytes
  start : cursor.position = 0

/-- From every cursor, the machine stages the bytes, or gives their error. -/
def Stages (machine : Machine Unit) (bytes : Except DecodeError ByteArray) : Prop :=
  ∀ cursor, Gives machine cursor bytes Cursor.Shows

namespace Stages

variable {stage : Machine Unit} {bytes : Except DecodeError ByteArray}

/-- A machine reads what has been staged. -/
theorem read {machine : Machine α} {reader : Reader α} (h : Stages stage bytes)
    (hmatches : Matches machine reader) :
    Yields (do stage; machine) (do reader.run (← bytes)) := by
  intro cursor
  obtain ⟨cursor', hstage, hshows⟩ := h cursor
  cases bytes with
  | error error => exact ⟨cursor', Machine.bind_of_error hstage⟩
  | ok piece =>
    obtain ⟨staged, hcontent, hstart⟩ := hshows piece rfl
    obtain ⟨buffer, length, position⟩ := cursor'
    obtain rfl : position = 0 := hstart
    have hsame := (hmatches.agrees staged (Nat.zero_le _)).same
    rw [Machine.bind_of_ok hstage, hsame]
    refine ⟨(Cursor.run ⟨buffer, length, 0⟩ reader).2, ?_⟩
    have hrun : (Cursor.run ⟨buffer, length, 0⟩ reader).1 = reader.run piece := by
      rw [← hcontent, Cursor.run, Reader.run]
      cases reader (Cursor.content ⟨buffer, length, 0⟩) 0 <;> rfl
    exact congrArg some (Prod.ext hrun rfl)

theorem fill (source : ByteArray) (start : Nat) {count : Nat} (short : count < 2 ^ 32) :
    Stages (Machine.fill source start count) (Header.bytesOf source start count) := by
  intro cursor
  have hroom := cursor.size_grow count
  cases hbytes : Header.bytesOf source start count with
  | error error =>
    have hmachine : Machine.fill source start count cursor
        = some (.error error, ⟨(cursor.grow count).buffer, count, 0⟩) := by
      rw [Machine.fill, Machine.bind_of_ok (Machine.stage_eq short cursor), hbytes]
      rfl
    exact .of_error hmachine
  | ok piece =>
    have hsize : piece.size = count := PageFile.size_of_read_eq_ok hbytes
    have hmachine : Machine.fill source start count cursor
        = some (.ok (), ⟨Bytes.overwrite (cursor.grow count).buffer 0 piece, count, 0⟩) := by
      rw [Machine.fill, Machine.bind_of_ok (Machine.stage_eq short cursor), hbytes]
      apply Machine.write_eq
      show 0 + piece.size ≤ (cursor.grow count).buffer.size
      omega
    refine .of_ok hmachine ⟨⟨?_, short⟩, ?_, rfl⟩
    · rw [Bytes.size_overwrite (by omega)]
      exact hroom
    · obtain rfl : count = 0 + piece.size := by omega
      rw [Cursor.content, Bytes.extract_overwrite (by omega)]
      simp

theorem load {stream : StreamDescriptor} {file : PageFile} (paged : 0 < file.pageSize.toNat) :
    Stages (Machine.load stream file) (stream.content file) := by
  intro cursor
  obtain ⟨dropped, hload⟩ := @Serves.load stream file paged cursor
  have hlength := stream.length.toNat_lt
  rw [StreamDescriptor.load_eq paged] at hload
  cases hcontent : stream.content file with
  | error error =>
    rw [hcontent] at hload
    exact .of_error hload
  | ok bytes =>
    have hsize : bytes.size = stream.length.toNat :=
      StreamDescriptor.size_of_read_eq_ok paged hcontent
    rw [hcontent] at hload
    refine .of_ok hload ⟨⟨?_, hlength⟩, ?_, rfl⟩
    · show stream.length.toNat ≤ (bytes ++ _).size
      rw [ByteArray.size_append, hsize]
      exact Nat.le_add_right _ _
    · simp only [Cursor.content, ← hsize, Bytes.extract_append_left (Nat.le_refl _),
        ByteArray.extract_zero_size]

end Stages

/-! ### The page list of the directory -/

/-- The bytes are the content of the cursor, which is at their end. -/
structure Cursor.Holds (bytes : ByteArray) (cursor : Cursor) : Prop where
  fits : bytes.size ≤ cursor.buffer.size
  content : cursor.content = bytes
  length : cursor.length = bytes.size
  stop : cursor.position = bytes.size

namespace Machine

/-- A piece that is read behind the content becomes a part of it. -/
theorem append_gives {before : ByteArray} {cursor : Cursor} {count : Nat}
    {result : Except DecodeError ByteArray} (holds : Cursor.Holds before cursor)
    (short : before.size + count < 2 ^ 32)
    (hsize : ∀ piece, result = .ok piece → piece.size = count) :
    Gives (append count (some result)) cursor result
      fun piece cursor => Cursor.Holds (before ++ piece) cursor := by
  obtain ⟨buffer, length, position⟩ := cursor
  obtain ⟨hfits, hcontent, rfl, rfl⟩ := holds
  have hgrow := Cursor.size_grow ⟨buffer, before.size, before.size⟩ (before.size + count)
  have happend : append count (some result) ⟨buffer, before.size, before.size⟩
      = (do write before.size (← ofExcept result); extend (before.size + count))
        (Cursor.grow ⟨buffer, before.size, before.size⟩ (before.size + count)) := by
    rw [append, bind_of_ok (show position _ = some (.ok before.size, _) from rfl),
      lift_bind (Checked.add_eq (by omega)), bind_of_ok (reserve_eq (by omega) _),
      bind_of_ok (target_eq (Nat.le_add_right _ _) hgrow)]
    rfl
  cases result with
  | error error => exact .of_error happend
  | ok piece =>
    obtain rfl := hsize piece rfl
    have hgrown : (Cursor.grow ⟨buffer, before.size, before.size⟩
        (before.size + piece.size)).buffer.extract 0 before.size = before :=
      (Bytes.extract_append_left hfits).trans hcontent
    refine .of_ok (happend.trans (bind_of_ok (write_eq hgrow))) ⟨?_, ?_, ?_, ?_⟩
    · show (before ++ piece).size ≤ (Bytes.overwrite _ before.size piece).size
      rw [Bytes.size_overwrite hgrow, ByteArray.size_append]
      exact hgrow
    · show (Bytes.overwrite _ before.size piece).extract 0
        (max before.size (before.size + piece.size)) = before ++ piece
      rw [Nat.max_eq_right (Nat.le_add_right _ _), Bytes.extract_overwrite hgrow, hgrown]
    · show max before.size (before.size + piece.size) = (before ++ piece).size
      rw [Nat.max_eq_right (Nat.le_add_right _ _), ByteArray.size_append]
    · exact ByteArray.size_append.symm

/-- So far the page numbers `before` have been gathered. -/
theorem gatherPages_gives (file : PageFile) {before : ByteArray} {cursor : Cursor} {toGo : Nat}
    (roots : List UInt32) (holds : Cursor.Holds before cursor)
    (short : before.size + toGo * 4 < 2 ^ 32) :
    Gives (gatherPages file toGo roots) cursor (Directory.gatherPages file before toGo roots)
      fun bytes cursor => bytes.size < 2 ^ 32 ∧ Cursor.Holds bytes cursor := by
  induction roots generalizing before cursor toGo with
  | nil => exact .of_ok rfl ⟨by omega, holds⟩
  | cons root roots ih =>
    -- what is taken from this page is not more than is still to be found, nor than a page holds
    obtain ⟨count, hcount⟩ : ∃ count, count = min toGo (file.pageSize.toNat / 4) := ⟨_, rfl⟩
    rw [gatherPages, Directory.gatherPages, ← hcount, lift_bind (Checked.mul_eq (by omega)),
      readPage_eq root (by decide) (by omega), lift_bind (Checked.sub_eq (by omega))]
    have hpiece : ∀ piece, file.read root 0 (count * 4) = .ok piece → piece.size = count * 4 :=
      fun piece h => PageFile.size_of_read_eq_ok h
    refine (append_gives holds (by omega) hpiece).bind fun piece cursor' hread holds => ih holds ?_
    rw [ByteArray.size_append, hpiece piece hread]
    omega

end Machine

theorem Stages.pageList (file : PageFile) {pageCount : Nat} (roots : List UInt32)
    (short : pageCount * 4 < 2 ^ 32) :
    Stages (Machine.pageList file pageCount roots)
      (Directory.gatherPages file ByteArray.empty pageCount roots) := by
  intro cursor
  have hempty : Cursor.Holds ByteArray.empty { cursor with length := 0, position := 0 } :=
    ⟨Nat.zero_le _, ByteArray.extract_same, rfl, rfl⟩
  have hgather := Machine.gatherPages_gives file roots hempty (by simpa using short)
  have hlist : Gives (do Machine.gatherPages file pageCount roots; Machine.seek 0)
      { cursor with length := 0, position := 0 }
      (Directory.gatherPages file ByteArray.empty pageCount roots >>= pure) Cursor.Shows := by
    refine hgather.bind fun piece cursor' _ hpost => ?_
    obtain ⟨hsize, holds⟩ := hpost
    have hlength := holds.length
    have hseek : Machine.seek 0 cursor' = some (.ok (), { cursor' with position := 0 }) :=
      if_pos (Nat.zero_le _)
    exact .of_ok hseek ⟨⟨hlength ▸ holds.fits, hlength ▸ hsize⟩, holds.content, rfl⟩
  rwa [bind_pure] at hlist

/-! ### The header -/

theorem Follows.fixedPart : Follows Machine.fixedPart Header.fixedPart := by
  unfold Machine.fixedPart Header.fixedPart
  refine (take _).bind fun signature => .ite (fun _ => .fail_bind _) fun _ => ?_
  refine uint32.bind fun pageSize => uint32.bind fun _ => uint32.bind fun _ => ?_
  refine uint32.bind fun directorySize => uint32.bind fun _ => ?_
  exact .ite (fun _ => .fail_bind _) fun _ => Follows.pure _

theorem Header.pageSize_ge {size : UInt32} (h : isPageSize size = true) : 512 ≤ size.toNat := by
  rw [isPageSize, Bool.and_eq_true, Bool.and_eq_true, decide_eq_true_iff] at h
  exact UInt32.le_iff_toNat_le.mp h.1.2

/-- Pages of an accepted size are so large that the list of all of them is short. -/
theorem pagesFor_mul_lt (length : UInt32) {pageSize : Nat} (h : 512 ≤ pageSize) :
    pagesFor length.toNat pageSize * 4 < 2 ^ 26 := by
  have hlength := length.toNat_lt
  have hpages : pagesFor length.toNat pageSize ≤ 2 ^ 23 :=
    (pagesFor_le_iff (by omega)).mpr (by omega)
  omega

theorem Yields.roots (source : ByteArray) {pageSize : UInt32} (directorySize : UInt32)
    (h : Header.isPageSize pageSize = true) :
    Yields (Machine.roots source pageSize directorySize) (do
      let count := Header.rootCount pageSize directorySize
      (Reader.uint32s count).run (← Header.bytesOf source Header.fixedSize (count * 4))) := by
  have hsize := Header.pageSize_ge h
  have hpages := pagesFor_mul_lt directorySize hsize
  have hroots := pagesFor_le_self (pagesFor directorySize.toNat pageSize.toNat * 4)
    (show 0 < pageSize.toNat by omega)
  refine .lift_bind (Checked.divCeil_eq (by omega)) (.lift_bind (Checked.mul_eq (by omega)) ?_)
  refine .lift_bind (Checked.divCeil_eq (by omega)) (.lift_bind (Checked.mul_eq (by omega)) ?_)
  exact (Stages.fill source Header.fixedSize (by omega)).read (Follows.uint32s (by omega)).toMatches

theorem Yields.header (source : ByteArray) :
    Yields (Machine.header source) (Header.decode source) := by
  have hfixed := (Stages.fill source 0 (show Header.fixedSize < 2 ^ 32 by decide)).read
    Follows.fixedPart.toMatches
  have hdecode : Header.decode source = (do
      let sizes ← (do Header.fixedPart.run (← Header.bytesOf source 0 Header.fixedSize))
      let directoryRoots ← (do
        let count := Header.rootCount sizes.1 sizes.2
        (Reader.uint32s count).run (← Header.bytesOf source Header.fixedSize (count * 4)))
      return { pageSize := sizes.1, directorySize := sizes.2, directoryRoots }) := by
    simp only [Header.decode, bind_assoc]
  rw [hdecode]
  refine hfixed.bind fun sizes hsizes => (Yields.roots source sizes.2 ?_).bind fun _ _ => .pure _
  obtain ⟨bytes, -, hrun⟩ := bind_eq_ok_iff.mp hsizes
  obtain ⟨stop, hdone⟩ := Reader.run_eq_ok_iff.mp hrun
  exact Header.isPageSize_of_fixedPart hdone

/-! ### The directory -/

variable {file : PageFile}

/-- A count of pages fits into 32 bits. -/
theorem PageFile.toNat_pagesFor (paged : 0 < file.pageSize.toNat) (length : UInt32) :
    (file.pagesFor length).toNat = ManagedPdb.pagesFor length.toNat file.pageSize.toNat := by
  have hlength := length.toNat_lt
  have hpages := pagesFor_le_self length.toNat paged
  rw [pagesFor, UInt32.toNat_ofNat', Nat.mod_eq_of_lt (by omega)]

theorem Follows.descriptor (length : UInt32) {pageCount : Nat} (short : pageCount < 2 ^ 62) :
    Follows (Machine.descriptor length pageCount) (Directory.descriptor length pageCount) :=
  (uint32s short).map _

theorem Follows.entry (paged : 0 < file.pageSize.toNat) (length : UInt32) :
    Follows (Machine.entry file length) (Directory.entry file length) := by
  have hlength := length.toNat_lt
  have hpages := pagesFor_le_self length.toNat paged
  refine .ite (fun _ => Follows.pure _) fun _ => .lift_bind (Checked.divCeil_eq paged) ?_
  rw [PageFile.toNat_pagesFor paged]
  exact descriptor length (by omega)

theorem Follows.entriesOnto (paged : 0 < file.pageSize.toNat) (before : Array StreamDescriptor)
    (lengths : List UInt32) :
    Follows (Machine.entriesOnto file before lengths)
      (Directory.entriesOnto file before lengths) := by
  induction lengths generalizing before with
  | nil => exact .pure before
  | cons length lengths ih =>
    exact (entry paged length).bind fun stream => ih (before.push stream)

theorem Follows.entries (paged : 0 < file.pageSize.toNat) :
    Follows (Machine.entries file) (Directory.entries file) := by
  refine uint32.bind fun count => ?_
  have hcount := count.toNat_lt
  refine (uint32s (by omega)).bind fun lengths => .lift_bind (Checked.room_eq (by omega)) ?_
  exact (entriesOnto paged #[] lengths).map _

theorem Yields.directory (header : Header) (large : 512 ≤ file.pageSize.toNat) :
    Yields (Machine.directory file header) (Directory.decode file header) := by
  have paged : 0 < file.pageSize.toNat := by omega
  have hshort := pagesFor_mul_lt header.directorySize large
  have hcount := PageFile.toNat_pagesFor paged header.directorySize
  refine .lift_bind (Checked.divCeil_eq paged) ?_
  rw [← hcount] at hshort ⊢
  generalize hpages : (file.pagesFor header.directorySize).toNat = count at hshort ⊢
  have hdecode : Directory.decode file header = (do
      let stream ← (do
        (Directory.descriptor header.directorySize count).run
          (← Directory.gatherPages file ByteArray.empty count header.directoryRoots))
      (Directory.entries file).run (← stream.content file)) := by
    simp only [Directory.decode, bind_assoc, hpages]
  have hlist := (@Stages.pageList file count header.directoryRoots (by omega)).read
    (@Follows.descriptor header.directorySize count (by omega)).toMatches
  rw [hdecode]
  exact hlist.bind fun stream _ => (Stages.load paged).read (Follows.entries paged).toMatches

theorem Yields.container (image : ByteArray) :
    Yields (Machine.container image) (Container.ofImage image) := by
  refine (Yields.header image).bind fun header hheader => ?_
  have large := Header.pageSize_ge (Header.isPageSize_of_decode hheader)
  exact (Yields.directory header large).bind fun _ _ => .pure _

end ManagedPdb
