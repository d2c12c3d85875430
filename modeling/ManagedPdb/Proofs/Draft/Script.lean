import ManagedPdb.Proofs.Draft.SymbolRegion

/-!
# Scripts with defects

A script is written like a draft of methods, record by record, but it may be defective in three
ways: scopes may be inside each other beyond the limit, a block may start in front of its method,
and a scope may be closed by a record of any kind.  `defects` lists the records that are defective,
in the order in which they are written (`RegionScript.defects_ordered`).

Without its defects a script is a draft (`RegionScript.method?`), and its bytes take the same place
whatever the closing records are.
-/

namespace ManagedPdb

/-- What is wrong with the record at an offset. -/
structure Defect where
  offset : Nat
  kind : ErrorKind
  deriving DecidableEq

namespace Defect

def error (defect : Defect) : DecodeError := .ofKindAt defect.kind defect.offset

/-- A block record at an offset, inside so many open scopes of a method at an address. -/
def ofBlock (methodAddress : UInt32) (depth offset : Nat) (address : UInt32) : List Defect :=
  if maxOpenScopes ≤ depth then [⟨offset, .scopeTooDeep maxOpenScopes⟩]
  else if address < methodAddress then [⟨offset, .invalidScope⟩]
  else []

/-- The record that closes a scope, at an offset. -/
def ofCloser (closer : UInt16) (offset : Nat) : List Defect :=
  if closer = RecordKind.scopeEnd.code then [] else [⟨offset, .missingEnd closer⟩]

/-- The defects stand between two offsets, each behind the one before it. -/
structure Ordered (low high : Nat) (defects : List Defect) : Prop where
  increasing : defects.Pairwise fun left right => left.offset < right.offset
  inside : ∀ defect ∈ defects, low ≤ defect.offset ∧ defect.offset < high

namespace Ordered

variable {low middle high : Nat}

theorem nil : Ordered low high [] := ⟨.nil, by simp⟩

theorem mono {low' high' : Nat} {defects : List Defect} (h : Ordered low high defects)
    (hlow : low' ≤ low) (hhigh : high ≤ high') : Ordered low' high' defects := by
  refine ⟨h.increasing, fun defect member => ?_⟩
  have hinside := h.inside defect member
  omega

theorem append {left right : List Defect} (hleft : Ordered low middle left)
    (hright : Ordered middle high right) (hlow : low ≤ middle) (hhigh : middle ≤ high) :
    Ordered low high (left ++ right) := by
  constructor
  · refine List.pairwise_append.mpr ⟨hleft.increasing, hright.increasing, ?_⟩
    intro first hfirst second hsecond
    exact Nat.lt_of_lt_of_le (hleft.inside first hfirst).2 (hright.inside second hsecond).1
  · intro defect member
    rcases List.mem_append.mp member with member | member
    · have hinside := hleft.inside defect member
      omega
    · have hinside := hright.inside defect member
      omega

theorem singleton {defect : Defect} (hlow : low ≤ defect.offset) (hhigh : defect.offset < high) :
    Ordered low high [defect] := by
  refine ⟨List.pairwise_singleton _ _, fun other member => ?_⟩
  rw [List.mem_singleton.mp member]
  exact ⟨hlow, hhigh⟩

theorem ofBlock (methodAddress : UInt32) (depth offset : Nat) (address : UInt32) :
    Ordered offset (offset + 1) (Defect.ofBlock methodAddress depth offset address) := by
  unfold Defect.ofBlock
  split
  · exact singleton (Nat.le_refl _) (Nat.lt_succ_self _)
  · split
    · exact singleton (Nat.le_refl _) (Nat.lt_succ_self _)
    · exact nil

theorem ofCloser (closer : UInt16) (offset : Nat) :
    Ordered offset (offset + 1) (Defect.ofCloser closer offset) := by
  unfold Defect.ofCloser
  split
  · exact nil
  · exact singleton (Nat.le_refl _) (Nat.lt_succ_self _)

end Ordered

end Defect

namespace SymbolRegion

/-- The number of bytes of a block record. -/
def blockRecordSize : Nat := 24

theorem size_blockRecord (stop : Nat) (address length : UInt32) :
    (openingRecord .block stop (blockTail address length)).size = blockRecordSize := by
  simp [openingRecord, blockTail, blockRecordSize]

end SymbolRegion

/-! ### Bodies -/

/-- The content of a method or block, in which blocks are closed by records of any kind. -/
inductive BodyScript where
  | done
  | record (first : RecordDraft) (rest : BodyScript)
  | block (address length : UInt32) (inside : BodyScript) (closer : UInt16) (rest : BodyScript)

namespace BodyScript

def commands : BodyScript → List SymbolCommand
  | done => []
  | record first rest => first.command :: rest.commands
  | block address length inside closer rest =>
    .block address length :: inside.commands ++ .close closer :: rest.commands

/-- The content with the blocks closed as they should be. -/
def draft : BodyScript → BodyDraft
  | done => .done
  | record first rest => .record first rest.draft
  | block address length inside _ rest => .block address length inside.draft rest.draft

/-- The number of bytes of the content. -/
def size : BodyScript → Nat
  | done => 0
  | record first rest => first.bytes.size + rest.size
  | block _ _ inside _ rest => SymbolRegion.blockRecordSize + inside.size + 4 + rest.size

/-- The bytes of the content that starts at `start`. -/
def bytes : BodyScript → (start : Nat) → ByteArray
  | done, _ => .empty
  | record first rest, start => first.bytes ++ rest.bytes (start + first.bytes.size)
  | block address length inside closer rest, start =>
    let contentStart := start + SymbolRegion.blockRecordSize
    let stop := contentStart + inside.size
    SymbolRegion.openingRecord .block stop (SymbolRegion.blockTail address length)
      ++ (inside.bytes contentStart ++ (SymbolRegion.closingRecord closer ++ rest.bytes (stop + 4)))

/-- What is wrong with the content that starts at `start`, inside so many open scopes of a method at
an address. -/
def defects (methodAddress : UInt32) : BodyScript → (depth start : Nat) → List Defect
  | done, _, _ => []
  | record first rest, depth, start => rest.defects methodAddress depth (start + first.bytes.size)
  | block address _ inside closer rest, depth, start =>
    let contentStart := start + SymbolRegion.blockRecordSize
    let stop := contentStart + inside.size
    Defect.ofBlock methodAddress depth start address
      ++ (inside.defects methodAddress (depth + 1) contentStart
        ++ (Defect.ofCloser closer stop ++ rest.defects methodAddress depth (stop + 4)))

/-- All records are writable, those in blocks as well. -/
def Writable : BodyScript → Prop
  | done => True
  | record first rest => first.Writable ∧ rest.Writable
  | block _ _ inside _ rest => inside.Writable ∧ rest.Writable

instance decidableWritable : (script : BodyScript) → Decidable script.Writable
  | done => instDecidableTrue
  | record first rest =>
    have := decidableWritable rest
    inferInstanceAs (Decidable (first.Writable ∧ rest.Writable))
  | block _ _ inside _ rest =>
    have := decidableWritable inside
    have := decidableWritable rest
    inferInstanceAs (Decidable (inside.Writable ∧ rest.Writable))

@[simp] theorem size_bytes (script : BodyScript) (start : Nat) :
    (script.bytes start).size = script.size := by
  induction script generalizing start with
  | done => rfl
  | record first rest ih => rw [bytes, ByteArray.size_append, ih, size]
  | block address length inside closer rest ihInside ihRest =>
    simp only [bytes, ByteArray.size_append, SymbolRegion.size_blockRecord,
      SymbolRegion.size_closingRecord, ihInside, ihRest, size]
    omega

theorem defects_ordered (methodAddress : UInt32) (script : BodyScript) (depth start : Nat) :
    Defect.Ordered start (start + script.size) (script.defects methodAddress depth start) := by
  induction script generalizing depth start with
  | done => exact .nil
  | record first rest ih =>
    refine (ih depth (start + first.bytes.size)).mono (Nat.le_add_right _ _) ?_
    rw [size, Nat.add_assoc]
  | block address length inside closer rest ihInside ihRest =>
    have hblock := Defect.Ordered.ofBlock methodAddress depth start address
    have hinside := ihInside (depth + 1) (start + SymbolRegion.blockRecordSize)
    have hcloser := Defect.Ordered.ofCloser closer
      (start + SymbolRegion.blockRecordSize + inside.size)
    have hrest := ihRest depth (start + SymbolRegion.blockRecordSize + inside.size + 4)
    have hclosing := hcloser.append
      (hrest.mono (show _ + 1 ≤ _ by omega) (Nat.le_refl _)) (by omega) (by omega)
    have hbehind := hinside.append hclosing (by omega) (by omega)
    have hall := hblock.append
      (hbehind.mono (show start + 1 ≤ _ by unfold SymbolRegion.blockRecordSize; omega)
        (Nat.le_refl _)) (by omega) (by omega)
    refine hall.mono (Nat.le_refl _) ?_
    rw [size]
    omega

end BodyScript

/-! ### Methods -/

/-- A method, closed by a record of any kind. -/
structure MethodScript where
  token : UInt32
  segment : UInt16
  address : UInt32
  length : UInt32
  name : String
  body : BodyScript
  closer : UInt16

namespace MethodScript

def commands (script : MethodScript) : List SymbolCommand :=
  .method script.token script.segment script.address script.length script.name
    :: script.body.commands ++ [.close script.closer]

/-- The method with all scopes closed as they should be. -/
def draft (script : MethodScript) : MethodDraft where
  token := script.token
  segment := script.segment
  address := script.address
  length := script.length
  name := script.name
  body := script.body.draft

/-- The number of bytes of the record that opens the method. -/
def headSize (script : MethodScript) : Nat :=
  (SymbolRegion.openingRecord .globalMethod 0 script.draft.tail).size

def size (script : MethodScript) : Nat := script.headSize + script.body.size + 4

/-- The bytes of a method whose record starts at `start`. -/
def bytes (script : MethodScript) (start : Nat) : ByteArray :=
  let contentStart := start + script.headSize
  SymbolRegion.openingRecord .globalMethod (contentStart + script.body.size) script.draft.tail
    ++ (script.body.bytes contentStart ++ SymbolRegion.closingRecord script.closer)

/-- What is wrong with a method whose record starts at `start`. -/
def defects (script : MethodScript) (start : Nat) : List Defect :=
  let contentStart := start + script.headSize
  script.body.defects script.address 1 contentStart
    ++ Defect.ofCloser script.closer (contentStart + script.body.size)

/-- The records of the method are writable. -/
structure Writable (script : MethodScript) : Prop where
  name : ZeroFree script.name
  fits : (SymbolRegion.methodPayload script.token script.segment script.address script.length
    script.name).size ≤ 65532
  body : script.body.Writable

instance (script : MethodScript) : Decidable script.Writable :=
  decidable_of_iff (ZeroFree script.name
      ∧ (SymbolRegion.methodPayload script.token script.segment script.address script.length
        script.name).size ≤ 65532
      ∧ script.body.Writable)
    ⟨fun ⟨name, fits, body⟩ => ⟨name, fits, body⟩, fun ⟨name, fits, body⟩ => ⟨name, fits, body⟩⟩

@[simp] theorem size_bytes (script : MethodScript) (start : Nat) :
    (script.bytes start).size = script.size := by
  simp only [bytes, ByteArray.size_append, BodyScript.size_bytes,
    SymbolRegion.size_closingRecord, size]
  rw [SymbolRegion.size_openingRecord, ← headSize]
  omega

theorem defects_ordered (script : MethodScript) (start : Nat) :
    Defect.Ordered start (start + script.size) (script.defects start) := by
  have hbody := script.body.defects_ordered script.address 1 (start + script.headSize)
  have hcloser := Defect.Ordered.ofCloser script.closer
    (start + script.headSize + script.body.size)
  refine (hbody.append hcloser (by omega) (by omega)).mono (by omega) ?_
  rw [size]
  omega

end MethodScript

/-! ### Regions -/

/-- A method, or a record between methods. -/
inductive RegionScript where
  | method (script : MethodScript)
  | raw (kind : UInt16) (payload : ByteArray)

namespace RegionScript

def commands : RegionScript → List SymbolCommand
  | method script => script.commands
  | raw kind payload => [.raw kind payload]

/-- The method without its defects, if it is one. -/
def method? : RegionScript → Option Method
  | method script => some script.draft.method
  | raw .. => none

def size : RegionScript → Nat
  | method script => script.size
  | raw kind payload => (RecordDraft.raw kind payload).bytes.size

def bytes (script : RegionScript) (start : Nat) : ByteArray :=
  match script with
  | method script => script.bytes start
  | raw kind payload => (RecordDraft.raw kind payload).bytes

def allBytes : List RegionScript → (start : Nat) → ByteArray
  | [], _ => .empty
  | script :: rest, start => script.bytes start ++ allBytes rest (start + script.size)

/-- What is wrong with a method; nothing is with a record between methods. -/
def defectsAt (script : RegionScript) (start : Nat) : List Defect :=
  match script with
  | method script => script.defects start
  | raw .. => []

def defectsFrom : List RegionScript → (start : Nat) → List Defect
  | [], _ => []
  | script :: rest, start => script.defectsAt start ++ defectsFrom rest (start + script.size)

def Writable : RegionScript → Prop
  | method script => script.Writable
  | raw kind payload => (RecordDraft.raw kind payload).Writable

instance : (script : RegionScript) → Decidable script.Writable
  | method script => inferInstanceAs (Decidable script.Writable)
  | raw kind payload => inferInstanceAs (Decidable (RecordDraft.raw kind payload).Writable)

/-- The bytes of a symbol region that holds what the scripts say. -/
def written (scripts : List RegionScript) : ByteArray :=
  (SymbolRegion.ofCommands (scripts.flatMap RegionScript.commands)).bytes

/-- What is wrong with the region, in the order of its records. -/
def defects (scripts : List RegionScript) : List Defect := defectsFrom scripts 4

@[simp] theorem size_bytes (script : RegionScript) (start : Nat) :
    (script.bytes start).size = script.size := by
  cases script with
  | method script => exact script.size_bytes start
  | raw kind payload => rfl

theorem size_allBytes (scripts : List RegionScript) (start : Nat) :
    (allBytes scripts start).size = (scripts.map size).sum := by
  induction scripts generalizing start with
  | nil => rfl
  | cons script rest ih =>
    rw [allBytes, ByteArray.size_append, size_bytes, ih, List.map_cons, List.sum_cons]

theorem defectsAt_ordered (script : RegionScript) (start : Nat) :
    Defect.Ordered start (start + script.size) (script.defectsAt start) := by
  cases script with
  | method script => exact script.defects_ordered start
  | raw kind payload => exact .nil

theorem defectsFrom_ordered (scripts : List RegionScript) (start : Nat) :
    Defect.Ordered start (start + (allBytes scripts start).size) (defectsFrom scripts start) := by
  induction scripts generalizing start with
  | nil => exact .nil
  | cons script rest ih =>
    rw [allBytes, ByteArray.size_append, size_bytes, ← Nat.add_assoc]
    exact (script.defectsAt_ordered start).append (ih (start + script.size)) (Nat.le_add_right _ _)
      (Nat.le_add_right _ _)

end RegionScript

/-! ### Bytes -/

namespace SymbolRegion

/-- The commands of a body write its bytes and leave no end open. -/
theorem foldl_bodyScript (script : BodyScript) (before : ByteArray) (openEnds : List Nat) :
    script.commands.foldl apply ⟨before, openEnds⟩
      = ⟨before ++ script.bytes before.size, openEnds⟩ := by
  induction script generalizing before openEnds with
  | done => simp [BodyScript.commands, BodyScript.bytes]
  | record first rest ih =>
    rw [BodyScript.commands, List.foldl_cons, apply_command, ih, BodyScript.bytes,
      ByteArray.size_append, ByteArray.append_assoc]
  | block address length inside closer rest ihInside ihRest =>
    have hopen : apply ⟨before, openEnds⟩ (.block address length)
        = ⟨before ++ openingRecord .block 0 (blockTail address length),
            (before.size + 8) :: openEnds⟩ := by
      simp only [apply, appendOpening, append, nextOffset, record_blockPayload]
    rw [BodyScript.commands, List.cons_append, List.foldl_cons, hopen, List.foldl_append, ihInside,
      List.foldl_cons, apply_close_kind, ihRest, BodyScript.bytes]
    simp only [ByteArray.size_append, ByteArray.append_assoc, size_blockRecord,
      BodyScript.size_bytes, size_closingRecord, Nat.add_assoc]

theorem foldl_methodScript (script : MethodScript) (before : ByteArray) (openEnds : List Nat) :
    script.commands.foldl apply ⟨before, openEnds⟩
      = ⟨before ++ script.bytes before.size, openEnds⟩ := by
  have hopen : apply ⟨before, openEnds⟩
        (.method script.token script.segment script.address script.length script.name)
      = ⟨before ++ openingRecord .globalMethod 0 script.draft.tail,
          (before.size + 8) :: openEnds⟩ := by
    simp only [apply, appendOpening, append, nextOffset, record_methodPayload, MethodDraft.tail,
      MethodScript.draft]
  rw [MethodScript.commands, List.cons_append, List.foldl_cons, hopen, List.foldl_append,
    foldl_bodyScript, List.foldl_cons, apply_close_kind, List.foldl_nil, MethodScript.bytes]
  simp only [ByteArray.size_append, ByteArray.append_assoc, BodyScript.size_bytes,
    MethodScript.headSize]

theorem foldl_scripts (scripts : List RegionScript) (before : ByteArray) (openEnds : List Nat) :
    (scripts.flatMap RegionScript.commands).foldl apply ⟨before, openEnds⟩
      = ⟨before ++ RegionScript.allBytes scripts before.size, openEnds⟩ := by
  induction scripts generalizing before with
  | nil => simp [RegionScript.allBytes]
  | cons script rest ih =>
    have hscript : script.commands.foldl apply ⟨before, openEnds⟩
        = ⟨before ++ script.bytes before.size, openEnds⟩ := by
      cases script with
      | method script => exact foldl_methodScript script before openEnds
      | raw kind payload => exact apply_command ⟨before, openEnds⟩ (.raw kind payload)
    rw [List.flatMap_cons, List.foldl_append, hscript, ih, RegionScript.allBytes,
      ByteArray.size_append, ByteArray.append_assoc, RegionScript.size_bytes]

end SymbolRegion

namespace RegionScript

/-- A region is the signature and the bytes of what it holds. -/
theorem written_eq (scripts : List RegionScript) :
    written scripts = Bytes.uint32 symbolSignature ++ allBytes scripts 4 := by
  rw [written, SymbolRegion.ofCommands, SymbolRegion.empty, SymbolRegion.foldl_scripts,
    Bytes.size_uint32]

theorem size_written (scripts : List RegionScript) :
    (written scripts).size = 4 + (scripts.map size).sum := by
  rw [written_eq, ByteArray.size_append, Bytes.size_uint32, size_allBytes]

/-- The defects of a region are listed in the order of their records. -/
theorem defects_ordered (scripts : List RegionScript) :
    Defect.Ordered 4 (written scripts).size (defects scripts) := by
  rw [written_eq, ByteArray.size_append, Bytes.size_uint32]
  exact defectsFrom_ordered scripts 4

end RegionScript

end ManagedPdb
