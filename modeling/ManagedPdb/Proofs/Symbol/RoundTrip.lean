import ManagedPdb.Proofs.Symbol.Metadata
import ManagedPdb.Proofs.Symbol.Payload

/-!
# Reading written regions

What the commands of a region write is read back as the methods they stand for.  A step of the
decoder reads one record of a draft (`Reads.step_record`), opens a block or closes a scope; a run
over the content of a scope puts all of it into the innermost open scope (`Reads.iterate_body`),
whatever scopes are around that.  The main statement is `readMethods_written`.
-/

namespace ManagedPdb

/-! ### What records add -/

namespace RecordDraft

/-- What the record adds, with `depth` open scopes. -/
def entry (depth : Nat) : RecordDraft → Entry
  | slot index typeToken name => .slot ⟨index, typeToken, 0, 0, 0, name⟩
  | constant token leaf name => .constant ⟨token, leaf.value, name⟩
  | importing name => .importing name
  | raw .. => .skipped
  | record => if depth = 1 then (record.metadata?.map Entry.metadata).getD .skipped else .skipped

theorem bytes_size (record : RecordDraft) :
    record.bytes.size = 4 + (Bytes.padded record.payload).size :=
  SymbolRegion.size_record ..

theorem size_bytes_mod_four (record : RecordDraft) : record.bytes.size % 4 = 0 :=
  SymbolRegion.size_record_mod_four ..

theorem ofCode_kind {record : RecordDraft} (hlegal : record.Legal) :
    RecordKind.ofCode record.kind.code = record.kind := by
  cases record with
  | raw kind payload => exact hlegal
  | _ => rfl

end RecordDraft

namespace Reads

variable {start limit : Nat} {body : OpenMethod}

/-- A vendor record outside of the blocks, from the start of its payload. -/
theorem metadata {record : RecordDraft} {said : Metadata} {stop : Nat}
    (hsaid : record.metadata? = some said) (hwritable : record.Writable)
    (haligned : start % 4 = 0) (hstop : stop < 2 ^ 32)
    (hend : start + record.payload.size ≤ stop) :
    ∃ front back, record.payload = front ++ back ∧
      Reads (Metadata.read stop) start front said := by
  have hfits := hwritable.fits
  cases record with
  | metadata items =>
    cases hsaid
    obtain ⟨hlength, hitems⟩ := hwritable.legal
    have hname : (Utf16.terminated "MD2").size = 8 := by decide
    rw [RecordDraft.payload, size_vendorPayload] at hfits hend
    have hread : Reads (Metadata.readBody stop "MD2") (start + (20 + (Utf16.terminated "MD2").size))
        (SymbolRegion.metadataBody items) (.items (items.map MetadataDraft.item)) :=
      bind_pure Metadata.items
        (metadataItems hlength hitems (by omega) hstop (by omega) (by omega))
    obtain ⟨payload, hpayload, hreads⟩ := vendor .empty (by decide) hread
    rw [ByteArray.append_empty] at hpayload
    exact ⟨payload, .empty, hpayload, hreads⟩
  | asynchronous kickoff catchHandler points =>
    cases hsaid
    rw [RecordDraft.payload, size_vendorPayload] at hfits
    have hread : Reads (Metadata.readBody stop "asyncMethodInfo")
        (start + (20 + (Utf16.terminated "asyncMethodInfo").size))
        (SymbolRegion.asyncBody kickoff catchHandler points) _ :=
      bind_pure Metadata.asynchronous (asyncInfo (by omega))
    obtain ⟨payload, hpayload, hreads⟩ := vendor .empty (by decide) hread
    rw [ByteArray.append_empty] at hpayload
    exact ⟨payload, .empty, hpayload, hreads⟩
  | vendor name body =>
    cases hsaid
    obtain ⟨hname, hmetadata, hasync⟩ := hwritable.legal
    have hread : Reads (Metadata.readBody stop name)
        (start + (20 + (Utf16.terminated name).size)) .empty (.unknown name) := by
      rw [Metadata.readBody, if_neg hmetadata, if_neg hasync]
      exact .pure _
    obtain ⟨payload, hpayload, hreads⟩ := vendor body hname hread
    rw [ByteArray.empty_append] at hpayload
    exact ⟨payload, body, hpayload, hreads⟩
  | slot | constant | importing | raw => cases hsaid

/-- The payload of a record, as what the record adds. -/
theorem entry {record : RecordDraft} {header : RecordHeader} {position : Nat}
    (hwritable : record.Writable) (hkind : header.kind = record.kind) (haligned : start % 4 = 0)
    (hstop : header.stop < 2 ^ 32) (hend : start + record.payload.size ≤ header.stop) :
    ∃ front back, record.payload = front ++ back ∧
      Reads (body.readEntry position header) start front (record.entry body.depth) := by
  have hfits := hwritable.fits
  have hlegal := hwritable.legal
  rw [OpenMethod.readEntry, hkind]
  cases record with
  | slot index typeToken name =>
    exact ⟨_, .empty, ByteArray.append_empty.symm, bind_pure Entry.slot (slot hlegal)⟩
  | constant token leaf name =>
    exact ⟨_, .empty, ByteArray.append_empty.symm,
      bind_pure Entry.constant (constant hlegal.1 hlegal.2 hfits)⟩
  | importing name =>
    exact ⟨_, .empty, ByteArray.append_empty.symm,
      bind_pure Entry.importing (.terminatedString hlegal)⟩
  | raw kind payload =>
    exact ⟨.empty, payload, ByteArray.empty_append.symm, .pure _⟩
  | metadata | asynchronous | vendor =>
    by_cases hdepth : body.depth = 1
    · obtain ⟨front, back, hpayload, hread⟩ := metadata rfl hwritable haligned hstop hend
      refine ⟨front, back, hpayload, ?_⟩
      simp only [RecordDraft.entry, RecordDraft.kind, if_pos hdepth]
      exact bind_pure Entry.metadata hread
    · refine ⟨.empty, _, ByteArray.empty_append.symm, ?_⟩
      simp only [RecordDraft.entry, RecordDraft.kind, if_neg hdepth]
      exact .pure _

/-- A step over a record that neither opens nor closes a scope. -/
theorem step_record {record : RecordDraft} (hwritable : record.Writable) (haligned : start % 4 = 0)
    (hinside : start < body.innermost.stop) (hlimit : start + record.bytes.size ≤ limit)
    (hregion : limit < 2 ^ 32) :
    Reads (OpenMethod.step limit body) start record.bytes
      (.inl (body.add (record.entry body.depth))) := by
  have hkind := RecordDraft.ofCode_kind hwritable.legal
  have hsize := SymbolRegion.size_record record.kind.code record.payload
  rw [RecordDraft.bytes] at hlimit ⊢
  obtain ⟨front, back, hpayload, hread⟩ := @entry (start + 4) body record
    ⟨.ofCode record.kind.code, start + (SymbolRegion.record record.kind.code record.payload).size⟩
    start hwritable hkind (by omega) (by simp only; omega) (by
      rw [Bytes.size_padded] at hsize
      simp only
      omega)
  refine .position ?_
  rw [if_pos hinside]
  exact Reads.record _ hwritable.fits hlimit hpayload hread

/-- The record that opens a block. -/
theorem step_block {stop : Nat} {address length : UInt32} (hdepth : body.depth < maxOpenScopes)
    (haddress : body.method.address ≤ address) (hstop : stop < 2 ^ 32)
    (hinside : start < body.innermost.stop)
    (hlimit : start + (SymbolRegion.openingRecord .block stop
      (SymbolRegion.blockTail address length)).size ≤ limit) :
    Reads (OpenMethod.step limit body) start
      (SymbolRegion.openingRecord .block stop (SymbolRegion.blockTail address length))
      (.inl (body.add (.block
        { offset := address - body.method.address, length, stop }))) := by
  obtain ⟨front, back, hpayload, hread⟩ :=
    @block (start + 4) body start stop address length hdepth haddress hstop
  have hentry (header : RecordHeader) (hkind : header.kind = .block) :
      Reads (body.readEntry start header) (start + 4) front (.block
        { offset := address - body.method.address, length, stop }) := by
    rw [OpenMethod.readEntry, hkind]
    exact bind_pure Entry.block hread
  refine .position ?_
  rw [if_pos hinside]
  exact Reads.record _ (by simp [SymbolRegion.blockTail]) hlimit hpayload (hentry _ rfl)

/-- The record that closes a scope, at the end of the scope. -/
theorem step_end (hstop : body.innermost.stop = start) (hlimit : start + 4 ≤ limit) :
    Reads (OpenMethod.step limit body) start SymbolRegion.endRecord body.closeInnermost := by
  refine .position ?_
  rw [if_neg (by omega), if_pos hstop.symm]
  have hsize : SymbolRegion.endRecord.size = 4 := rfl
  rw [← ByteArray.append_empty (b := SymbolRegion.endRecord)]
  refine header (by decide) (by rw [← SymbolRegion.endRecord, hsize]; exact hlimit) ?_
  exact .bind_empty (.seek (by rw [← SymbolRegion.endRecord, hsize]; rfl)) (.pure _)

end Reads

/-! ### What a body adds -/

/-- Puts a closed scope into the innermost open one. -/
def OpenMethod.addScope (body : OpenMethod) (scope : Scope) : OpenMethod :=
  { body with innermost := { body.innermost with scopes := body.innermost.scopes.push scope } }

namespace BodyDraft

/-- The state of the decoder behind the content of its innermost scope. -/
def into (draft : BodyDraft) (body : OpenMethod) : OpenMethod where
  method :=
    if body.depth = 1 then
      (draft.records.filterMap RecordDraft.metadata?).foldl Metadata.apply body.method
    else body.method
  innermost := { body.innermost with
    slots := body.innermost.slots ++ draft.slots
    constants := body.innermost.constants ++ draft.constants
    namespaces := body.innermost.namespaces ++ draft.namespaces
    scopes := body.innermost.scopes ++ draft.scopes body.method.address }
  enclosing := body.enclosing

theorem into_done (body : OpenMethod) : done.into body = body := by
  simp [into, slots, constants, namespaces, records, scopes]

theorem into_record (first : RecordDraft) (rest : BodyDraft) (body : OpenMethod) :
    (record first rest).into body = rest.into (body.add (first.entry body.depth)) := by
  cases first with
  | slot | constant | importing | raw =>
    simp [into, slots, constants, namespaces, records, scopes, List.filterMap_cons,
      RecordDraft.entry, RecordDraft.slot?, RecordDraft.constant?, RecordDraft.importing?,
      RecordDraft.metadata?, OpenMethod.add, OpenMethod.depth]
  | metadata | asynchronous | vendor =>
    by_cases houter : body.enclosing = []
    all_goals
      simp [into, slots, constants, namespaces, records, scopes, List.filterMap_cons,
        RecordDraft.entry, RecordDraft.slot?, RecordDraft.constant?, RecordDraft.importing?,
        RecordDraft.metadata?, OpenMethod.add, OpenMethod.depth, houter]

/-- The scope of a block, in a method at an address. -/
def scope (address start length : UInt32) (inside : BodyDraft) : Scope :=
  ⟨start - address, length, inside.slots, inside.constants, inside.namespaces,
    inside.scopes address⟩

/-- The scope around a block takes it in when it is closed. -/
theorem closeInnermost_into (start length : UInt32) (inside : BodyDraft) (body : OpenMethod)
    (stop : Nat) :
    (inside.into (body.add (.block
        { offset := start - body.method.address, length, stop }))).closeInnermost
      = .inl (body.addScope (scope body.method.address start length inside)) := by
  simp [into, scope, OpenMethod.add, OpenMethod.addScope, OpenMethod.closeInnermost,
    OpenMethod.depth, OpenScope.close]

theorem into_block (start length : UInt32) (inside rest : BodyDraft) (body : OpenMethod) :
    (block start length inside rest).into body
      = rest.into (body.addScope (scope body.method.address start length inside)) := by
  simp [into, scope, slots, constants, namespaces, records, scopes, OpenMethod.addScope,
    OpenMethod.depth]

theorem depth_pos (draft : BodyDraft) : 0 < draft.depth := by
  induction draft with
  | done => exact Nat.one_pos
  | record first rest ih => exact ih
  | block address length inside rest ihInside ihRest =>
    exact Nat.lt_of_lt_of_le ihRest (Nat.le_max_right _ _)

end BodyDraft

/-! ### Runs -/

namespace OpenMethod

/-- A record changes neither the open scopes nor the place of the method. -/
theorem add_entry (body : OpenMethod) (record : RecordDraft) :
    (body.add (record.entry body.depth)).depth = body.depth ∧
      (body.add (record.entry body.depth)).innermost.stop = body.innermost.stop ∧
      (body.add (record.entry body.depth)).method.address = body.method.address := by
  cases record with
  | slot | constant | importing | raw => exact ⟨rfl, rfl, rfl⟩
  | metadata | asynchronous | vendor =>
    by_cases hdepth : body.depth = 1
    · simp only [RecordDraft.entry, if_pos hdepth]
      exact ⟨rfl, rfl, Metadata.apply_address _ _⟩
    · simp only [RecordDraft.entry, if_neg hdepth]
      exact ⟨rfl, rfl, rfl⟩

end OpenMethod

/-- The content of a scope ends at a multiple of four if it starts at one. -/
theorem BodyDraft.size_bytes_mod_four (draft : BodyDraft) (start : Nat) :
    (draft.bytes start).size % 4 = 0 := by
  induction draft generalizing start with
  | done => rfl
  | record first rest ih =>
    have hfirst := first.size_bytes_mod_four
    have hrest := ih (start + first.bytes.size)
    rw [bytes, ByteArray.size_append]
    omega
  | block address length inside rest ihInside ihRest =>
    obtain ⟨contentStart, stop, hlayout⟩ := SymbolRegion.scopeBytes_layout .block
      (SymbolRegion.blockTail address length) inside.bytes start
    have hopening := SymbolRegion.size_openingRecord_mod_four .block stop
      (SymbolRegion.blockTail address length)
    have hinside := ihInside contentStart
    have hcontentStart := hlayout.contentStart_eq
    have hstop := hlayout.stop_eq
    have hending := hlayout.end_eq
    rw [SymbolRegion.size_endRecord] at hending
    simp only [bytes, ByteArray.size_append]
    have hrest := ihRest (start + (SymbolRegion.scopeBytes .block
      (SymbolRegion.blockTail address length) inside.bytes start).size)
    omega

namespace Reads

variable {start limit : Nat}

/-- A run over the content of a scope: all of it is put into the innermost open scope, and the run
goes on behind it.  The induction is on the draft; a block is a run inside a run. -/
theorem iterate_body {draft : BodyDraft} {body : OpenMethod} {after : ByteArray} {method : Method}
    (hwritable : draft.Writable body.method.address)
    (hdepth : body.depth + draft.depth ≤ maxOpenScopes + 1) (haligned : start % 4 = 0)
    (hinside : start + (draft.bytes start).size ≤ body.innermost.stop)
    (hlimit : body.innermost.stop ≤ limit) (hregion : limit < 2 ^ 32)
    (hafter : Reads (Reader.iterate (OpenMethod.step limit) (draft.into body))
      (start + (draft.bytes start).size) after method) :
    Reads (Reader.iterate (OpenMethod.step limit) body) start (draft.bytes start ++ after)
      method := by
  induction draft generalizing body start after with
  | done =>
    rw [BodyDraft.bytes, ByteArray.size_empty, Nat.add_zero, BodyDraft.into_done] at hafter
    rwa [BodyDraft.bytes, ByteArray.empty_append]
  | record first rest ih =>
    obtain ⟨hfirst, hrest⟩ := hwritable
    obtain ⟨hentryDepth, hentryStop, hentryAddress⟩ := body.add_entry first
    have hsize := first.bytes_size
    have hmod := first.size_bytes_mod_four
    rw [BodyDraft.bytes, ByteArray.size_append] at hinside hafter
    rw [BodyDraft.into_record, ← Nat.add_assoc] at hafter
    rw [BodyDraft.bytes, ByteArray.append_assoc]
    refine iterate_step (step_record hfirst haligned (by omega) (by omega) hregion) (by omega) ?_
    exact ih (by rwa [hentryAddress]) (by rwa [hentryDepth]) (by omega) (by omega) (by omega) hafter
  | block address length inside rest ihInside ihRest =>
    obtain ⟨haddress, hwritableInside, hwritableRest⟩ := hwritable
    have hdepthInside : body.depth + (inside.depth + 1) ≤ maxOpenScopes + 1 :=
      Nat.le_trans (Nat.add_le_add_left (Nat.le_max_left _ _) _) hdepth
    have hdepthRest : body.depth + rest.depth ≤ maxOpenScopes + 1 :=
      Nat.le_trans (Nat.add_le_add_left (Nat.le_max_right _ _) _) hdepth
    have hpos := inside.depth_pos
    obtain ⟨contentStart, stop, hbytes, hcontentStart, hstop, hending⟩ :=
      SymbolRegion.scopeBytes_layout .block (SymbolRegion.blockTail address length) inside.bytes
        start
    have hopening := SymbolRegion.size_openingRecord_mod_four .block stop
      (SymbolRegion.blockTail address length)
    have hopeningPos := SymbolRegion.size_openingRecord_pos .block stop
      (SymbolRegion.blockTail address length)
    have hcontent := inside.size_bytes_mod_four contentStart
    have hendRecord := SymbolRegion.size_endRecord
    simp only [BodyDraft.bytes, ByteArray.size_append, ← Nat.add_assoc, hending] at hinside hafter
    rw [BodyDraft.into_block] at hafter
    simp only [BodyDraft.bytes, hending]
    simp only [hbytes, ByteArray.append_assoc]
    -- the record that opens the block
    refine iterate_step (step_block (by omega) haddress (by omega) (by omega) (by omega))
      hopeningPos ?_
    rw [hcontentStart]
    -- the content of the block, up to its end
    refine ihInside hwritableInside ?_ (by omega) (Nat.le_of_eq hstop) ?_ ?_
    · show body.depth + 1 + inside.depth ≤ maxOpenScopes + 1
      omega
    · show stop ≤ limit
      omega
    -- the end record, and what is behind the block
    rw [hstop]
    have hclose : Reads (OpenMethod.step limit (inside.into (body.add (.block
          { offset := address - body.method.address, length, stop })))) stop
        SymbolRegion.endRecord
        (.inl (body.addScope (BodyDraft.scope body.method.address address length inside))) := by
      rw [← BodyDraft.closeInnermost_into]
      exact step_end rfl (by omega)
    refine iterate_step hclose (by omega) ?_
    exact ihRest hwritableRest hdepthRest (by omega) hinside hlimit hafter

end Reads

/-! ### Methods -/

namespace MethodDraft

/-- The whole method is there once its own scope is closed. -/
theorem closeInnermost_into (draft : MethodDraft) (stop : Nat) :
    (draft.body.into (OpenMethod.ofStart draft.start stop)).closeInnermost
      = .inr draft.method := by
  simp [BodyDraft.into, OpenMethod.ofStart, OpenMethod.closeInnermost, OpenMethod.depth,
    OpenScope.close, foldl_apply_eq, Method.withRecords, Method.withItems, start, method, items]

/-- A method is written in a whole number of words. -/
theorem size_bytes_mod_four (draft : MethodDraft) (start : Nat) :
    (draft.bytes start).size % 4 = 0 := by
  obtain ⟨contentStart, stop, hlayout⟩ :=
    SymbolRegion.scopeBytes_layout .globalMethod draft.tail draft.body.bytes start
  have hopening := SymbolRegion.size_openingRecord_mod_four .globalMethod stop draft.tail
  have hcontent := draft.body.size_bytes_mod_four contentStart
  rw [bytes, hlayout.bytes_eq]
  simp only [ByteArray.size_append, SymbolRegion.size_endRecord]
  omega

end MethodDraft

namespace Reads

variable {start limit : Nat}

/-- The record of a method and its body, with the end record. -/
theorem method {draft : MethodDraft} {found : Array Method} (hwritable : draft.Writable)
    (haligned : start % 4 = 0) (hlimit : start + (draft.bytes start).size ≤ limit)
    (hregion : limit < 2 ^ 32) :
    Reads (readMethodOrSkip limit true found) start (draft.bytes start)
      (found.push draft.method) := by
  obtain ⟨contentStart, stop, hbytes, hcontentStart, hstop, hending⟩ :=
    SymbolRegion.scopeBytes_layout .globalMethod draft.tail draft.body.bytes start
  have hopening := SymbolRegion.size_openingRecord_mod_four .globalMethod stop draft.tail
  have hendRecord := SymbolRegion.size_endRecord
  rw [MethodDraft.bytes] at hlimit ⊢
  rw [hending] at hlimit
  have hfits : (Bytes.uint32s [0, UInt32.ofNat stop] ++ draft.tail).size ≤ 65532 := by
    have hpayload := hwritable.fits
    rw [SymbolRegion.methodPayload_eq, ByteArray.size_append, Bytes.size_uint32s] at hpayload
    rwa [ByteArray.size_append, Bytes.size_uint32s]
  have hmethod : Reads (Method.read contentStart limit true) (start + 4)
      (Bytes.padded (Bytes.uint32s [0, UInt32.ofNat stop] ++ draft.tail)
        ++ (draft.body.bytes contentStart ++ SymbolRegion.endRecord)) draft.method := by
    have hheader : start + 4
        + (Bytes.padded (Bytes.uint32s [0, UInt32.ofNat stop] ++ draft.tail)).size
          = contentStart := by
      rw [← hcontentStart, SymbolRegion.openingRecord, SymbolRegion.size_record, Nat.add_assoc]
    refine .bind (methodStart hwritable.name (by omega) hheader.symm) ?_
    rw [hheader]
    refine iterate_body hwritable.body ?_ (by omega) (Nat.le_of_eq hstop) ?_ hregion ?_
    · show 0 + 1 + draft.body.depth ≤ maxOpenScopes + 1
      have hdepth := hwritable.depth
      omega
    · show stop ≤ limit
      omega
    rw [hstop]
    -- no scope is open around that of the method, so its end record ends the run
    refine iterate_done ?_
    rw [← draft.closeInnermost_into stop]
    exact step_end rfl (by omega)
  rw [hbytes, SymbolRegion.openingRecord]
  refine header hfits (by rw [← SymbolRegion.openingRecord]; omega) ?_
  rw [← SymbolRegion.openingRecord, hcontentStart]
  exact bind_pure found.push hmethod

end Reads

/-! ### Regions -/

namespace RegionDraft

/-- The methods found, with the next one if the draft is one. -/
def addTo (found : Array Method) : RegionDraft → Array Method
  | method draft => found.push draft.method
  | raw .. => found

theorem addTo_append (found : Array Method) (draft : RegionDraft) (rest : List RegionDraft) :
    draft.addTo found ++ (rest.filterMap method?).toArray
      = found ++ ((draft :: rest).filterMap method?).toArray := by
  cases draft <;> simp [addTo, method?, List.filterMap_cons]

theorem size_bytes_mod_four (draft : RegionDraft) (start : Nat) :
    (draft.bytes start).size % 4 = 0 := by
  cases draft with
  | method draft => exact draft.size_bytes_mod_four start
  | raw kind payload => exact RecordDraft.size_bytes_mod_four _

theorem size_bytes_pos (draft : RegionDraft) (start : Nat) : 0 < (draft.bytes start).size := by
  cases draft with
  | method draft =>
    obtain ⟨contentStart, stop, hlayout⟩ :=
      SymbolRegion.scopeBytes_layout .globalMethod draft.tail draft.body.bytes start
    rw [bytes, MethodDraft.bytes, hlayout.bytes_eq]
    simp only [ByteArray.size_append, SymbolRegion.size_endRecord]
    omega
  | raw kind payload =>
    rw [bytes, RecordDraft.bytes_size]
    omega

end RegionDraft

namespace Reads

variable {start limit : Nat}

/-- A step over a record between methods. -/
theorem recordBetween {kind : UInt16} {payload : ByteArray} {keepNames : Bool}
    {found : Array Method} (hwritable : (RecordDraft.raw kind payload).Writable)
    (hlimit : start + (RecordDraft.raw kind payload).bytes.size ≤ limit) :
    Reads (readMethodOrSkip limit keepNames found) start (RecordDraft.raw kind payload).bytes
      found := by
  have hkind : RecordKind.ofCode kind = .other kind := hwritable.legal
  have hfits : payload.size ≤ 65532 := hwritable.fits
  show Reads _ _ (SymbolRegion.record kind payload) _
  rw [← ByteArray.append_empty (b := SymbolRegion.record kind payload)]
  refine header hfits hlimit ?_
  simp only [hkind, ByteArray.append_empty]
  exact .bind_empty (.seek (by rw [SymbolRegion.size_record, Nat.add_assoc])) (.pure _)

/-- A step over a method or over a record between methods. -/
theorem region {draft : RegionDraft} {found : Array Method} (hwritable : draft.Writable)
    (haligned : start % 4 = 0) (hlimit : start + (draft.bytes start).size ≤ limit)
    (hregion : limit < 2 ^ 32) :
    Reads (readMethodOrSkip limit true found) start (draft.bytes start) (draft.addTo found) := by
  cases draft with
  | method draft => exact method hwritable haligned hlimit hregion
  | raw kind payload => exact recordBetween hwritable hlimit

/-- A run over methods and records up to the end of the region. -/
theorem regions {drafts : List RegionDraft} {found : Array Method}
    (hwritable : ∀ draft ∈ drafts, draft.Writable) (haligned : start % 4 = 0)
    (hlimit : start + (RegionDraft.allBytes drafts start).size = limit) (hregion : limit < 2 ^ 32) :
    Reads (Reader.whileBelow limit (readMethodOrSkip limit true) found) start
      (RegionDraft.allBytes drafts start)
      (found ++ (drafts.filterMap RegionDraft.method?).toArray) := by
  induction drafts generalizing start found with
  | nil =>
    rw [RegionDraft.allBytes, ByteArray.size_empty, Nat.add_zero] at hlimit
    rw [List.filterMap_nil, Array.append_empty]
    exact whileBelow_done (Nat.le_of_eq hlimit.symm)
  | cons draft rest ih =>
    obtain ⟨hdraft, hrest⟩ := List.forall_mem_cons.mp hwritable
    have hpos := draft.size_bytes_pos start
    have hmod := draft.size_bytes_mod_four start
    rw [RegionDraft.allBytes, ByteArray.size_append] at hlimit
    rw [RegionDraft.allBytes, ← RegionDraft.addTo_append]
    exact whileBelow_step (by omega) (region hdraft haligned (by omega) hregion) hpos
      (ih hrest (by omega) (by omega))

end Reads

/-- Methods that are written are read back as they are, whatever records stand in them and between
them. -/
theorem readMethods_written (drafts : List RegionDraft)
    (hwritable : ∀ draft ∈ drafts, draft.Writable)
    (hregion : (RegionDraft.written drafts).size < 2 ^ 32) :
    (readMethods (RegionDraft.written drafts).size true).run (RegionDraft.written drafts)
      = .ok (drafts.filterMap RegionDraft.method?) := by
  rw [RegionDraft.written_eq] at hregion ⊢
  refine Reads.run_eq (.bind .symbolSignature ?_)
  have hloop := @Reads.regions 4 _ drafts #[] hwritable rfl rfl
  rw [ByteArray.size_append, Bytes.size_uint32] at hregion ⊢
  have hfound := Reads.bind_pure Array.toList (hloop hregion)
  simpa using hfound

/-- A method with a block, and records of most kinds in them and in front of them. -/
def nestedDrafts : List RegionDraft := [
  .raw 0x1234 ⟨#[1, 2, 3]⟩,
  .method ⟨0x06000001, 1, 16, 32, "Main",
    .record (.metadata [.usingCounts [1, 2], .iteratorRanges [(1, 5)], .raw 9 ⟨#[1]⟩])
      (.block 20 8
        (.record (.slot 1 2 "count") (.record (.constant 7 (.int16 (-1)) "limit") .done))
        (.record (.asynchronous 1 2 [(3, 4, 5)]) (.record (.importing "System") .done)))⟩]

theorem readMethods_written_nested :
    (∀ draft ∈ nestedDrafts, draft.Writable) ∧ (RegionDraft.written nestedDrafts).size = 316 ∧
      ∃ method, (readMethods 316 true).run (RegionDraft.written nestedDrafts) = .ok [method] ∧
        method.usingCounts = [1, 2] ∧ method.scope.namespaces = ["System"] ∧
        method.scope.scopes.map Scope.constants = [[⟨7, .int16 (-1), "limit"⟩]] := by
  have hwritable : ∀ draft ∈ nestedDrafts, draft.Writable := by decide +kernel
  have hsize : (RegionDraft.written nestedDrafts).size = 316 := by
    rw [RegionDraft.written_eq]
    decide +kernel
  have hread := readMethods_written nestedDrafts hwritable (by omega)
  rw [hsize] at hread
  exact ⟨hwritable, hsize, _, hread, rfl, rfl, rfl⟩

end ManagedPdb
