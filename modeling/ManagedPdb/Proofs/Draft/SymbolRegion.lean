import ManagedPdb.Proofs.Draft.MethodDraft

/-!
# The bytes of a written region

The writer goes back to fill in the end of a method or block.  Here the bytes of a draft are given
without going back: `BodyDraft.bytes start` is the content as it stands from `start` on, with the
ends in their places.  `RegionDraft.written_eq` says that the commands of a region write just
that.
-/

namespace ManagedPdb

/-! ### Sizes -/

namespace SymbolRegion

@[simp] theorem size_record (kind : UInt16) (payload : ByteArray) :
    (record kind payload).size = 4 + (Bytes.padded payload).size := by
  simp [record]

theorem size_record_mod_four (kind : UInt16) (payload : ByteArray) :
    (record kind payload).size % 4 = 0 := by
  rw [size_record, Bytes.size_padded]
  omega

/-! ### Scopes -/

/-- A record that opens a scope which ends at `stop`. -/
def openingRecord (kind : RecordKind) (stop : Nat) (tail : ByteArray) : ByteArray :=
  record kind.code (Bytes.uint32s [0, UInt32.ofNat stop] ++ tail)

/-- The record that ends a scope. -/
def endRecord : ByteArray := record RecordKind.scopeEnd.code .empty

/-- A scope from `start` on: the record that opens it, its content and the record that ends it. -/
def scopeBytes (kind : RecordKind) (tail : ByteArray) (content : Nat → ByteArray) (start : Nat) :
    ByteArray :=
  let contentStart := start + (openingRecord kind 0 tail).size
  openingRecord kind (contentStart + (content contentStart).size) tail ++ content contentStart
    ++ endRecord

/-- What a block record holds behind the end of the block. -/
def blockTail (address length : UInt32) : ByteArray :=
  Bytes.uint32s [length, address] ++ Bytes.uint16 1 ++ Bytes.uint8 0

theorem methodPayload_eq (token : UInt32) (segment : UInt16) (address length : UInt32)
    (name : String) :
    methodPayload token segment address length name
      = Bytes.uint32s [0, 0] ++ methodTail token segment address length name := by
  rw [methodPayload, methodTail]
  simp [ByteArray.append_assoc]

theorem record_methodPayload (token : UInt32) (segment : UInt16) (address length : UInt32)
    (name : String) :
    record RecordKind.globalMethod.code (methodPayload token segment address length name)
      = openingRecord .globalMethod 0 (methodTail token segment address length name) := by
  rw [openingRecord, methodPayload_eq]
  rfl

theorem record_blockPayload (address length : UInt32) :
    record RecordKind.block.code (blockPayload address length)
      = openingRecord .block 0 (blockTail address length) := by
  rw [openingRecord, blockPayload, blockTail]
  simp [ByteArray.append_assoc]

theorem size_openingRecord (kind : RecordKind) (stop : Nat) (tail : ByteArray) :
    (openingRecord kind stop tail).size = (openingRecord kind 0 tail).size := by
  simp [openingRecord]

theorem size_openingRecord_mod_four (kind : RecordKind) (stop : Nat) (tail : ByteArray) :
    (openingRecord kind stop tail).size % 4 = 0 :=
  size_record_mod_four ..

theorem size_openingRecord_pos (kind : RecordKind) (stop : Nat) (tail : ByteArray) :
    0 < (openingRecord kind stop tail).size := by
  rw [openingRecord, size_record]
  omega

theorem size_endRecord : endRecord.size = 4 := rfl

/-- The record that closes a scope, of whatever kind. -/
def closingRecord (closer : UInt16) : ByteArray := record closer .empty

theorem size_closingRecord (closer : UInt16) : (closingRecord closer).size = 4 := rfl

/-- Where the parts of a scope stand: its content starts behind the record that opens it, and the
record holds the end of the content, where the end record stands. -/
structure ScopeLayout (kind : RecordKind) (tail : ByteArray) (content : Nat → ByteArray)
    (start contentStart stop : Nat) : Prop where
  bytes_eq : scopeBytes kind tail content start
    = openingRecord kind stop tail ++ (content contentStart ++ endRecord)
  contentStart_eq : start + (openingRecord kind stop tail).size = contentStart
  stop_eq : contentStart + (content contentStart).size = stop
  end_eq : start + (scopeBytes kind tail content start).size = stop + endRecord.size

theorem scopeBytes_layout (kind : RecordKind) (tail : ByteArray) (content : Nat → ByteArray)
    (start : Nat) : ∃ contentStart stop, ScopeLayout kind tail content start contentStart stop := by
  let contentStart := start + (openingRecord kind 0 tail).size
  let stop := contentStart + (content contentStart).size
  have hopening := size_openingRecord kind stop tail
  have hbytes : scopeBytes kind tail content start
      = openingRecord kind stop tail ++ (content contentStart ++ endRecord) := by
    rw [← ByteArray.append_assoc]
    rfl
  refine ⟨contentStart, stop, hbytes, by rw [hopening], rfl, ?_⟩
  rw [hbytes, ByteArray.size_append, ByteArray.size_append, hopening]
  show _ = start + (openingRecord kind 0 tail).size + (content contentStart).size + endRecord.size
  omega

/-- The end of a scope stands eight bytes behind the start of its record, and nothing else in the
record depends on it. -/
theorem openingRecord_eq (kind : RecordKind) (tail : ByteArray) :
    ∃ front back, front.size = 8 ∧ ∀ stop,
      openingRecord kind stop tail = front ++ Bytes.uint32 (UInt32.ofNat stop) ++ back := by
  have hsize (stop : Nat) :
      (Bytes.uint32s [0, UInt32.ofNat stop] ++ tail).size = 8 + tail.size := by simp
  let padding := (4 - (8 + tail.size) % 4) % 4
  refine ⟨Bytes.uint16 (UInt16.ofNat (8 + tail.size + padding) + 2) ++ Bytes.uint16 kind.code
    ++ Bytes.uint32 0, tail ++ Bytes.zeros padding, by simp, fun stop => ?_⟩
  rw [openingRecord, record, Bytes.size_padded, Bytes.padded, hsize]
  simp only [Bytes.uint32s_cons, Bytes.uint32s_nil, ByteArray.append_empty,
    ByteArray.append_assoc, padding]

/-- Closing a scope fills in its end, which the command that opened it has kept the place of. -/
theorem apply_close_kind (closer : UInt16) (before content tail : ByteArray) (kind : RecordKind)
    (openEnds : List Nat) :
    apply ⟨before ++ openingRecord kind 0 tail ++ content, (before.size + 8) :: openEnds⟩
        (.close closer)
      = ⟨before ++ (openingRecord kind
            (before.size + (openingRecord kind 0 tail).size + content.size) tail
          ++ content ++ closingRecord closer), openEnds⟩ := by
  obtain ⟨front, back, hfront, hopening⟩ := openingRecord_eq kind tail
  generalize hstop : before.size + (openingRecord kind 0 tail).size + content.size = stop
  have hsize : (before ++ openingRecord kind 0 tail ++ content).size = stop := by
    rw [ByteArray.size_append, ByteArray.size_append, hstop]
  have hparts (stop : Nat) : before ++ openingRecord kind stop tail ++ content
      = before ++ front ++ Bytes.uint32 (UInt32.ofNat stop) ++ (back ++ content) := by
    simp only [hopening, ByteArray.append_assoc]
  have hfilled : Bytes.overwrite (before ++ openingRecord kind 0 tail ++ content)
        (before.size + 8) (Bytes.uint32 (UInt32.ofNat stop))
      = before ++ openingRecord kind stop tail ++ content := by
    rw [hparts, hparts, ← hfront, ← ByteArray.size_append, Bytes.overwrite_append (by simp)]
  simp only [apply, fillEnd, nextOffset, append, hsize, hfilled]
  simp only [closingRecord, RecordKind.code, ByteArray.append_assoc]

theorem apply_close (before content tail : ByteArray) (kind : RecordKind) (openEnds : List Nat) :
    apply ⟨before ++ openingRecord kind 0 tail ++ content, (before.size + 8) :: openEnds⟩
        (.close RecordKind.scopeEnd.code)
      = ⟨before ++ (openingRecord kind
            (before.size + (openingRecord kind 0 tail).size + content.size) tail
          ++ content ++ endRecord), openEnds⟩ :=
  apply_close_kind RecordKind.scopeEnd.code before content tail kind openEnds

end SymbolRegion

/-! ### Drafts -/

def RecordDraft.bytes (record : RecordDraft) : ByteArray :=
  SymbolRegion.record record.kind.code record.payload

/-- The bytes of the content of a method or block that starts at `start`. -/
def BodyDraft.bytes : BodyDraft → (start : Nat) → ByteArray
  | done, _ => .empty
  | record first rest, start => first.bytes ++ rest.bytes (start + first.bytes.size)
  | block address length inside rest, start =>
    let scope := SymbolRegion.scopeBytes .block (SymbolRegion.blockTail address length)
      inside.bytes start
    scope ++ rest.bytes (start + scope.size)

/-- The bytes of a method whose record starts at `start`. -/
def MethodDraft.bytes (draft : MethodDraft) (start : Nat) : ByteArray :=
  SymbolRegion.scopeBytes .globalMethod draft.tail draft.body.bytes start

/-- The bytes of a method or of a record between methods. -/
def RegionDraft.bytes (draft : RegionDraft) (start : Nat) : ByteArray :=
  match draft with
  | method draft => draft.bytes start
  | raw kind payload => (RecordDraft.raw kind payload).bytes

def RegionDraft.allBytes : List RegionDraft → (start : Nat) → ByteArray
  | [], _ => .empty
  | draft :: rest, start => draft.bytes start ++ allBytes rest (start + (draft.bytes start).size)

namespace SymbolRegion

theorem apply_command (region : SymbolRegion) (record : RecordDraft) :
    region.apply record.command = ⟨region.bytes ++ record.bytes, region.openEnds⟩ := by
  cases record <;> rfl

/-- The commands of a body write its bytes and leave no end open. -/
theorem foldl_body (body : BodyDraft) (before : ByteArray) (openEnds : List Nat) :
    body.commands.foldl apply ⟨before, openEnds⟩
      = ⟨before ++ body.bytes before.size, openEnds⟩ := by
  induction body generalizing before openEnds with
  | done => simp [BodyDraft.commands, BodyDraft.bytes]
  | record first rest ih =>
    rw [BodyDraft.commands, List.foldl_cons, apply_command, ih, BodyDraft.bytes,
      ByteArray.size_append, ByteArray.append_assoc]
  | block address length inside rest ihInside ihRest =>
    have hopen : apply ⟨before, openEnds⟩ (.block address length)
        = ⟨before ++ openingRecord .block 0 (blockTail address length),
            (before.size + 8) :: openEnds⟩ := by
      simp only [apply, appendOpening, append, nextOffset, record_blockPayload]
    rw [BodyDraft.commands, List.cons_append, List.foldl_cons, hopen, List.foldl_append, ihInside,
      List.foldl_cons, apply_close, ihRest, BodyDraft.bytes, scopeBytes]
    simp only [ByteArray.size_append, ByteArray.append_assoc]

theorem foldl_method (draft : MethodDraft) (before : ByteArray) (openEnds : List Nat) :
    draft.commands.foldl apply ⟨before, openEnds⟩
      = ⟨before ++ draft.bytes before.size, openEnds⟩ := by
  have hopen : apply ⟨before, openEnds⟩
        (.method draft.token draft.segment draft.address draft.length draft.name)
      = ⟨before ++ openingRecord .globalMethod 0 draft.tail, (before.size + 8) :: openEnds⟩ := by
    simp only [apply, appendOpening, append, nextOffset, record_methodPayload, MethodDraft.tail]
  rw [MethodDraft.commands, List.cons_append, List.foldl_cons, hopen, List.foldl_append,
    foldl_body, List.foldl_cons, apply_close, List.foldl_nil, MethodDraft.bytes, scopeBytes]
  simp only [ByteArray.size_append]

theorem foldl_drafts (drafts : List RegionDraft) (before : ByteArray) (openEnds : List Nat) :
    (drafts.flatMap RegionDraft.commands).foldl apply ⟨before, openEnds⟩
      = ⟨before ++ RegionDraft.allBytes drafts before.size, openEnds⟩ := by
  induction drafts generalizing before with
  | nil => simp [RegionDraft.allBytes]
  | cons draft rest ih =>
    have hdraft : draft.commands.foldl apply ⟨before, openEnds⟩
        = ⟨before ++ draft.bytes before.size, openEnds⟩ := by
      cases draft with
      | method draft => exact foldl_method draft before openEnds
      | raw kind payload => exact apply_command ⟨before, openEnds⟩ (.raw kind payload)
    rw [List.flatMap_cons, List.foldl_append, hdraft, ih, RegionDraft.allBytes,
      ByteArray.size_append, ByteArray.append_assoc]

end SymbolRegion

/-- A region is the signature and the bytes of what it holds. -/
theorem RegionDraft.written_eq (drafts : List RegionDraft) :
    written drafts = Bytes.uint32 symbolSignature ++ allBytes drafts 4 := by
  rw [written, SymbolRegion.ofCommands, SymbolRegion.empty, SymbolRegion.foldl_drafts,
    Bytes.size_uint32]

end ManagedPdb
