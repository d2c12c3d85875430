import ManagedPdb.Container.Staging
import ManagedPdb.Proofs.Container.PagedRead
import ManagedPdb.Proofs.Reader

/-!
# What staging leaves in a cursor

A stream is written into a buffer page by page, over whatever earlier streams have left there.
The page loop writes the bytes that a read of the stream gives, in front of the old bytes that it
does not reach (`StreamDescriptor.writePages_eq`).  So the content of the cursor is the stream,
and a reader that runs on it sees the stream and nothing else: the main statement is
`StreamDescriptor.run'_stage`.
-/

namespace ManagedPdb

theorem Cursor.size_grow (cursor : Cursor) (capacity : Nat) :
    capacity ≤ (cursor.grow capacity).buffer.size := by
  simp only [grow, ByteArray.size_append, Bytes.size_zeros]
  omega

theorem PageFile.size_of_read_eq_ok {file : PageFile} {page : UInt32} {offset count : Nat}
    {piece : ByteArray} (h : file.read page offset count = .ok piece) : piece.size = count := by
  unfold read at h
  by_cases hcount : count ≤ file.source.size - (page.toNat * file.pageSize.toNat + offset)
  · simp only [if_pos hcount] at h
    cases h
    rw [ByteArray.size_extract]
    omega
  · simp only [if_neg hcount] at h
    cases h

namespace StreamDescriptor

variable {stream : StreamDescriptor} {file : PageFile} {stop : Nat}

/-- A piece that is written behind the bytes `before` is put behind them, and the bytes `old` go on
behind the piece. -/
theorem overwrite_behind {before old piece : ByteArray}
    (room : before.size + piece.size ≤ old.size) :
    Bytes.overwrite (before ++ old.extract before.size old.size) before.size piece
      = (before ++ piece) ++ old.extract (before ++ piece).size old.size := by
  have hsplit : old.extract before.size old.size
      = old.extract before.size (before.size + piece.size)
        ++ old.extract (before.size + piece.size) old.size := by
    rw [ByteArray.extract_append_extract]
    congr 1 <;> omega
  have hpiece : piece.size = (old.extract before.size (before.size + piece.size)).size := by
    rw [ByteArray.size_extract]
    omega
  rw [hsplit, ← ByteArray.append_assoc, Bytes.overwrite_append hpiece, ByteArray.size_append]

/-- What the page loop writes is what it reads.  So far it has written `before` over the first bytes
of `old`; with pages to go, these are whole pages. -/
theorem writePages_eq (paged : 0 < file.pageSize.toNat) {old : ByteArray} (room : stop ≤ old.size)
    {count page : Nat} {before : ByteArray} (some_bytes : 0 < stop)
    (last : page + count = (stop - 1) / file.pageSize.toNat + 1)
    (whole : 0 < count → before.size = page * file.pageSize.toNat) :
    stream.writePages file stop (before ++ old.extract before.size old.size) count page
      = (fun bytes => bytes ++ old.extract bytes.size old.size) <$>
          stream.readPages file 0 stop before count page := by
  induction count generalizing page before with
  | zero => rfl
  | succ count ih =>
    have hwhole := whole (by omega)
    have hpage : page * file.pageSize.toNat ≤ stop - 1 :=
      (Nat.le_div_iff_mul_le paged).mp (by omega)
    rw [writePages, readPages]
    simp only [Nat.zero_max, Nat.sub_self]
    cases stream.pages[page]? with
    | none => simp only [Nat.sub_zero]; rfl
    | some number =>
      simp only []
      cases hread : file.read number 0
          (min stop (page * file.pageSize.toNat + file.pageSize.toNat)
            - page * file.pageSize.toNat) with
      | error error => rfl
      | ok piece =>
        have hpiece := PageFile.size_of_read_eq_ok hread
        simp only []
        rw [← hwhole, overwrite_behind (by omega)]
        refine ih (by omega) fun hmore => ?_
        -- the page at hand is not the last one, so that all of it lies in the stream
        have hnext : (page + 1) * file.pageSize.toNat ≤ stop - 1 :=
          (Nat.le_div_iff_mul_le paged).mp (by omega)
        rw [Nat.succ_mul] at hnext
        rw [ByteArray.size_append, hwhole, hpiece, Nat.succ_mul]
        omega

/-- The number of pages that a load writes. -/
def pageCount (stream : StreamDescriptor) (file : PageFile) : Nat :=
  if stream.length.toNat = 0 then 0 else (stream.length.toNat - 1) / file.pageSize.toNat + 1

/-- All pages of a stream are written over the first bytes of `old`. -/
theorem writePages_all (paged : 0 < file.pageSize.toNat) {old : ByteArray}
    (room : stream.length.toNat ≤ old.size) :
    stream.writePages file stream.length.toNat old (stream.pageCount file) 0
      = (fun bytes => bytes ++ old.extract bytes.size old.size) <$> stream.content file := by
  have hempty : old = ByteArray.empty ++ old.extract ByteArray.empty.size old.size := by simp
  unfold content read pageCount
  dsimp only
  simp only [UInt32.toNat_zero, Nat.zero_add, Nat.lt_irrefl, if_false]
  rcases Nat.eq_zero_or_pos stream.length.toNat with hzero | hpos
  · rw [if_pos hzero, if_pos hzero, writePages]
    conv_lhs => rw [hempty]
    rfl
  · rw [if_neg (by omega), if_neg (by omega)]
    conv_lhs => rw [hempty]
    rw [writePages_eq paged room hpos (by omega) (fun _ => by simp)]
    simp only [Nat.zero_div, Nat.sub_zero]

/-- The cursor after a load: the stream in front, then what was left of the old bytes. -/
theorem load_eq (paged : 0 < file.pageSize.toNat) (cursor : Cursor) :
    stream.load file cursor = (fun bytes =>
      let old := (cursor.grow stream.length.toNat).buffer
      ((), { buffer := bytes ++ old.extract bytes.size old.size
             length := stream.length.toNat, position := 0 })) <$> stream.content file := by
  have hwritten := @writePages_all stream file paged _ (cursor.size_grow stream.length.toNat)
  unfold load
  dsimp only
  rw [pageCount] at hwritten
  rw [hwritten]
  cases stream.content file <;> rfl

/-- A reader that runs on a staged stream runs on the bytes of the stream, whatever was in the
cursor before. -/
theorem run'_stage {α : Type} (paged : 0 < file.pageSize.toNat) (reader : Reader α)
    (cursor : Cursor) :
    (stream.stage file reader).run' cursor = stream.content file >>= reader.run := by
  show (·.1) <$> (stream.load file cursor >>= fun loaded => Staging.read reader loaded.2) = _
  rw [load_eq paged]
  cases hcontent : stream.content file with
  | error error => rfl
  | ok bytes =>
    have hsize : bytes.size = stream.length.toNat := size_of_read_eq_ok paged hcontent
    show (·.1) <$> Staging.read reader { buffer := _, length := _, position := 0 }
      = reader.run bytes
    unfold Staging.read Cursor.run Cursor.content
    simp only [← hsize, Bytes.extract_append_left (Nat.le_refl _), ByteArray.extract_zero_size]
    unfold Reader.run
    cases reader bytes 0 <;> rfl

end StreamDescriptor

end ManagedPdb
