import ManagedPdb.Proofs.Draft.Script
import ManagedPdb.Proofs.Symbol.DroppedNames
import ManagedPdb.Proofs.Symbol.RoundTrip
import Mathlib.Logic.Function.Iterate

/-!
# The first defect

A region written from a script is rejected with the error of its first defect, and if it has none it
is read as the methods of the script (`readMethods_script`).  `Answers` says how a reader ends on
bytes, either way.  Up to its first defect a script is read like the draft it would be without
defects, so that the run over a body is as in the round trip (`Answers.iterate_script`): a step that
finds a defect ends it, and otherwise the defects are those of what is left.
-/

namespace ManagedPdb

/-! ### Results -/

/-- The error of the first defect, or the result if there is none. -/
def Defect.firstOr {α : Type} (result : Except DecodeError α) : List Defect → Except DecodeError α
  | [] => result
  | defect :: _ => .error defect.error

namespace Defect

variable {α β : Type}

theorem firstOr_cons (result : Except DecodeError α) (defect : Defect)
    (defects : List Defect) : firstOr result (defect :: defects) = .error defect.error := rfl

theorem firstOr_append (result : Except DecodeError α) (left right : List Defect) :
    firstOr result (left ++ right) = firstOr (firstOr result right) left := by
  cases left <;> rfl

theorem firstOr_map (f : α → β) (result : Except DecodeError α) (defects : List Defect) :
    firstOr (result.map f) defects = (firstOr result defects).map f := by
  cases defects <;> rfl

end Defect

/-! ### Readers of bytes with defects -/

/-- The reader stops with the error when the bytes start at `start`. -/
def Rejects {α : Type} (reader : Reader α) (start : Nat) (bytes : ByteArray) (error : DecodeError) :
    Prop :=
  ∀ content, StandsAt bytes content start →
    ∃ stopped, reader content start = .failed error stopped

/-- The reader ends with the result when the bytes start at `start`, and moves over all of them if
that is a value. -/
def Answers {α : Type} (reader : Reader α) (start : Nat) (bytes : ByteArray) :
    Except DecodeError α → Prop
  | .ok value => Reads reader start bytes value
  | .error error => Rejects reader start bytes error

namespace Rejects

variable {α β σ : Type} {start : Nat} {bytes left right : ByteArray} {error : DecodeError}

/-- Nothing behind the bytes changes the error. -/
theorem append {reader : Reader α} (h : Rejects reader start left error) :
    Rejects reader start (left ++ right) error :=
  fun content hcontent => h content hcontent.append_left

theorem failAt (kind : ErrorKind) (offset : Nat) :
    Rejects (Reader.failAt kind offset : Reader α) start bytes (.ofKindAt kind offset) :=
  fun _ _ => ⟨start, rfl⟩

/-- The first step fails. -/
protected theorem bind {reader : Reader α} {next : α → Reader β}
    (h : Rejects reader start bytes error) : Rejects (reader >>= next) start bytes error := by
  intro content hcontent
  obtain ⟨stopped, hreader⟩ := h content hcontent
  exact ⟨stopped, Reader.bind_eq_failed_iff.mpr (.inl hreader)⟩

/-- The first step reads its bytes, and what follows fails. -/
theorem bind_right {reader : Reader α} {next : α → Reader β} {first : α}
    (hfirst : Reads reader start left first)
    (hnext : Rejects (next first) (start + left.size) right error) :
    Rejects (reader >>= next) start (left ++ right) error := by
  intro content hcontent
  obtain ⟨stopped, hrejects⟩ := hnext content hcontent.append_right
  exact ⟨stopped, Reader.bind_eq_failed_iff.mpr
    (.inr ⟨first, _, hfirst content hcontent.append_left, hrejects⟩)⟩

/-- A loop whose next step fails. -/
theorem iterate {step : σ → Reader (σ ⊕ α)} {state : σ}
    (h : Rejects (step state) start bytes error) :
    Rejects (Reader.iterate step state) start bytes error := by
  intro content hcontent
  obtain ⟨stopped, hstep⟩ := h content hcontent
  refine ⟨stopped, ?_⟩
  rw [Reader.iterate, hstep]

end Rejects

namespace Answers

variable {α β σ : Type} {start : Nat} {bytes left right : ByteArray}

/-- What answers on a whole content is the result of reading it. -/
theorem run_eq {reader : Reader α} {result : Except DecodeError α}
    (h : Answers reader 0 bytes result) : reader.run bytes = result := by
  cases result with
  | ok value => exact Reads.run_eq h
  | error error =>
    obtain ⟨stopped, hreader⟩ := h bytes (.self bytes)
    rw [Reader.run, hreader]

/-- The bytes of the first step are read. -/
protected theorem bind {reader : Reader α} {next : α → Reader β} {first : α}
    {result : Except DecodeError β} (hfirst : Reads reader start left first)
    (hnext : Answers (next first) (start + left.size) right result) :
    Answers (reader >>= next) start (left ++ right) result := by
  cases result with
  | ok value => exact Reads.bind hfirst hnext
  | error error => exact Rejects.bind_right hfirst hnext

/-- The last step of a row. -/
theorem bind_pure {reader : Reader α} {result : Except DecodeError α} (f : α → β)
    (h : Answers reader start bytes result) :
    Answers (reader >>= fun value => Pure.pure (f value)) start bytes (result.map f) := by
  cases result with
  | ok value => exact Reads.bind_pure f h
  | error error => exact Rejects.bind h

protected theorem position {next : Nat → Reader α} {result : Except DecodeError α}
    (h : Answers (next start) start bytes result) :
    Answers (Reader.position >>= next) start bytes result := by
  cases result with
  | ok value => exact Reads.position h
  | error error => exact h

/-- A loop goes on behind the bytes of its next step, unless there is a defect in these. -/
theorem iterate_step {step : σ → Reader (σ ⊕ α)} {state state' : σ} {defects : List Defect}
    {result : Except DecodeError α}
    (hstep : Answers (step state) start left (Defect.firstOr (.ok (.inl state')) defects))
    (hleft : 0 < left.size)
    (hrest : defects = [] →
      Answers (Reader.iterate step state') (start + left.size) right result) :
    Answers (Reader.iterate step state) start (left ++ right) (Defect.firstOr result defects) := by
  cases defects with
  | cons defect _ => exact Rejects.iterate (Rejects.append hstep)
  | nil =>
    have hrest := hrest rfl
    cases result with
    | ok value => exact Reads.iterate_step hstep hleft hrest
    | error error =>
      intro content hcontent
      have hnext := hstep content hcontent.append_left
      have hle := hcontent.append_left.le_size
      obtain ⟨stopped, hrejects⟩ := hrest content hcontent.append_right
      exact ⟨stopped, by rw [Reader.iterate_of_step hnext (by omega) hle, hrejects]⟩

/-- The last step of a loop. -/
theorem iterate_done {step : σ → Reader (σ ⊕ α)} {state : σ} {value : α} {defects : List Defect}
    (hstep : Answers (step state) start bytes (Defect.firstOr (.ok (.inr value)) defects)) :
    Answers (Reader.iterate step state) start bytes (Defect.firstOr (.ok value) defects) := by
  cases defects with
  | cons defect _ => exact Rejects.iterate hstep
  | nil => exact Reads.iterate_done hstep

theorem whileBelow_step {stop : Nat} {body : σ → Reader σ} {state state' : σ}
    {defects : List Defect} {result : Except DecodeError σ} (hstart : start < stop)
    (hbody : Answers (body state) start left (Defect.firstOr (.ok state') defects))
    (hleft : 0 < left.size)
    (hrest : Answers (Reader.whileBelow stop body state') (start + left.size) right result) :
    Answers (Reader.whileBelow stop body state) start (left ++ right)
      (Defect.firstOr result defects) := by
  refine iterate_step ?_ hleft fun _ => hrest
  refine .position ?_
  rw [if_pos hstart]
  have hstep := bind_pure (Sum.inl : σ → σ ⊕ σ) hbody
  rwa [← Defect.firstOr_map] at hstep

end Answers

/-! ### Steps -/

theorem RecordKind.code_ofCode (code : UInt16) : (RecordKind.ofCode code).code = code := by
  unfold RecordKind.ofCode
  split_ifs <;> simp_all [RecordKind.code]

namespace Rejects

variable {start : Nat} {body : OpenMethod}

/-- A block that starts in front of its method is read up to its address. -/
theorem readBlock_early {position stop : Nat} {address length : UInt32}
    (hdepth : body.depth < maxOpenScopes) (haddress : address < body.method.address) :
    Rejects (body.readBlock position) start
      (Bytes.uint32s [0, UInt32.ofNat stop] ++ SymbolRegion.blockTail address length)
      (.ofKindAt .invalidScope position) := by
  rw [OpenMethod.readBlock, if_neg (by omega), SymbolRegion.blockTail]
  simp only [Bytes.uint32s_cons, Bytes.uint32s_nil, ByteArray.append_empty, ByteArray.append_assoc]
  refine .bind_right (.uint32 0) (.bind_right (.uint32 _) (.bind_right (.uint32 _)
    (.bind_right (.uint32 _) (.bind_right (.uint16 1) ?_))))
  rw [if_pos haddress]
  exact .bind (failAt _ _)

/-- No block is opened inside as many scopes as may be open. -/
theorem readBlock_deep {position : Nat} {payload : ByteArray}
    (hdepth : body.depth = maxOpenScopes) :
    Rejects (body.readBlock position) start payload
      (.ofKindAt (.scopeTooDeep maxOpenScopes) position) := by
  rw [OpenMethod.readBlock, if_pos (Nat.le_of_eq hdepth.symm), hdepth]
  exact .bind (failAt _ _)

end Rejects

namespace Answers

variable {start limit : Nat} {body : OpenMethod}

/-- A framed record is read as its header and what follows from that. -/
theorem header {α : Type} {kind : UInt16} {payload after : ByteArray}
    {next : RecordHeader → Reader α} {result : Except DecodeError α} (hfits : payload.size ≤ 65532)
    (hlimit : start + (SymbolRegion.record kind payload).size ≤ limit)
    (hnext : Answers (next ⟨.ofCode kind, start + (SymbolRegion.record kind payload).size⟩)
      (start + 4) (Bytes.padded payload ++ after) result) :
    Answers (RecordHeader.read limit >>= next) start (SymbolRegion.record kind payload ++ after)
      result := by
  rw [SymbolRegion.record, ByteArray.append_assoc]
  exact .bind (Reads.recordHeader hfits hlimit) hnext

/-- The record that opens a block. -/
theorem openBlock {stop : Nat} {address length : UInt32} (hdepth : body.depth ≤ maxOpenScopes)
    (hstop : stop < 2 ^ 32) (hinside : start < body.innermost.stop)
    (hlimit : start + (SymbolRegion.openingRecord .block stop
      (SymbolRegion.blockTail address length)).size ≤ limit) :
    Answers (OpenMethod.step limit body) start
      (SymbolRegion.openingRecord .block stop (SymbolRegion.blockTail address length))
      (Defect.firstOr
        (.ok (.inl (body.add (.block { offset := address - body.method.address, length, stop }))))
        (Defect.ofBlock body.method.address body.depth start address)) := by
  -- where the payload is rejected the record is
  have hrejects {error : DecodeError} (hblock : Rejects (body.readBlock start) (start + 4)
        (Bytes.uint32s [0, UInt32.ofNat stop] ++ SymbolRegion.blockTail address length) error) :
      Answers (OpenMethod.step limit body) start
        (SymbolRegion.openingRecord .block stop (SymbolRegion.blockTail address length))
        (.error error) := by
    refine .position ?_
    rw [if_pos hinside, SymbolRegion.openingRecord,
      ← ByteArray.append_empty (b := SymbolRegion.record _ _)]
    refine header (by simp [SymbolRegion.blockTail]) hlimit ?_
    exact Rejects.bind (Rejects.bind hblock.append).append
  unfold Defect.ofBlock
  split_ifs with hdeep haddress
  · exact hrejects (Rejects.readBlock_deep (Nat.le_antisymm hdepth hdeep))
  · exact hrejects (Rejects.readBlock_early (by omega) haddress)
  · exact Reads.step_block (by omega) (UInt32.not_lt.mp haddress) hstop hinside hlimit

/-- The record that closes a scope, at the end of the scope. -/
theorem closeScope {closer : UInt16} (hstop : body.innermost.stop = start)
    (hlimit : start + 4 ≤ limit) :
    Answers (OpenMethod.step limit body) start (SymbolRegion.closingRecord closer)
      (Defect.firstOr (.ok body.closeInnermost) (Defect.ofCloser closer start)) := by
  unfold Defect.ofCloser
  split_ifs with hcloser
  · rw [hcloser]
    exact Reads.step_end hstop hlimit
  refine .position ?_
  rw [if_neg (by omega), if_pos hstop.symm, SymbolRegion.closingRecord,
    ← ByteArray.append_empty (b := SymbolRegion.record closer _)]
  refine header (by decide) hlimit ?_
  have hkind : RecordKind.ofCode closer ≠ .scopeEnd := by
    intro hkind
    rw [← hkind, RecordKind.code_ofCode] at hcloser
    exact hcloser rfl
  show Rejects (if RecordKind.ofCode closer ≠ .scopeEnd then _ else _) _ _ _
  rw [if_pos hkind, RecordKind.code_ofCode]
  exact Rejects.bind (Rejects.failAt _ _)

end Answers

/-! ### Bodies -/

/-- The content of a scope takes a whole number of words. -/
theorem BodyScript.size_mod_four (script : BodyScript) : script.size % 4 = 0 := by
  induction script with
  | done => rfl
  | record first rest ih =>
    have hfirst := first.size_bytes_mod_four
    rw [size]
    omega
  | block address length inside closer rest ihInside ihRest =>
    rw [size, SymbolRegion.blockRecordSize]
    omega

namespace Answers

variable {start limit : Nat}

/-- A run over the content of a scope ends with its first defect, or goes on behind it as in the
round trip.  The induction is on the script; a block is a run inside a run. -/
theorem iterate_script {script : BodyScript} {body : OpenMethod} {after : ByteArray}
    {result : Except DecodeError Method} (hwritable : script.Writable)
    (hdepth : body.depth ≤ maxOpenScopes) (haligned : start % 4 = 0)
    (hinside : start + script.size ≤ body.innermost.stop) (hlimit : body.innermost.stop ≤ limit)
    (hregion : limit < 2 ^ 32)
    (hafter : Answers (Reader.iterate (OpenMethod.step limit) (script.draft.into body))
      (start + script.size) after result) :
    Answers (Reader.iterate (OpenMethod.step limit) body) start (script.bytes start ++ after)
      (Defect.firstOr result (script.defects body.method.address body.depth start)) := by
  induction script generalizing body start after result with
  | done =>
    rw [BodyScript.draft, BodyDraft.into_done] at hafter
    rwa [BodyScript.bytes, ByteArray.empty_append]
  | record first rest ih =>
    obtain ⟨hfirst, hrest⟩ := hwritable
    obtain ⟨hentryDepth, hentryStop, hentryAddress⟩ := body.add_entry first
    have hsize := first.bytes_size
    have hmod := first.size_bytes_mod_four
    rw [BodyScript.size] at hinside hafter
    rw [BodyScript.draft, BodyDraft.into_record, ← Nat.add_assoc] at hafter
    rw [BodyScript.bytes, ByteArray.append_assoc, BodyScript.defects]
    have hstep := @Reads.step_record start limit body first hfirst haligned (by omega) (by omega)
      hregion
    refine @iterate_step _ _ _ _ _ _ _ _ [] _ hstep (by omega) fun _ => ?_
    have hbehind := ih hrest (by omega) (by omega) (by omega) (by omega) hafter
    rwa [hentryAddress, hentryDepth] at hbehind
  | block address length inside closer rest ihInside ihRest =>
    obtain ⟨hwritableInside, hwritableRest⟩ := hwritable
    have hclosing := SymbolRegion.size_closingRecord closer
    have hmod := inside.size_mod_four
    have hblockSize : SymbolRegion.blockRecordSize = 24 := rfl
    rw [BodyScript.size] at hinside hafter
    rw [BodyScript.draft, BodyDraft.into_block] at hafter
    simp only [BodyScript.bytes, BodyScript.defects, Defect.firstOr_append, ByteArray.append_assoc]
    generalize hstop : start + SymbolRegion.blockRecordSize + inside.size = stop
    have hopening := SymbolRegion.size_blockRecord stop address length
    -- the record that opens the block
    refine iterate_step (openBlock hdepth (by omega) (by omega) (by omega)) (by omega) ?_
    intro hopened
    have hroom : body.depth < maxOpenScopes := by
      by_contra hdeep
      rw [Defect.ofBlock, if_pos (Nat.le_of_not_lt hdeep)] at hopened
      cases hopened
    rw [hopening]
    -- the content of the block, up to its end
    refine ihInside hwritableInside hroom (by omega) (Nat.le_of_eq hstop) ?_ ?_
    · show stop ≤ limit
      omega
    -- the record that closes the block, and what is behind the block
    rw [hstop]
    have hclose : Answers (OpenMethod.step limit (inside.draft.into (body.add (.block
          { offset := address - body.method.address, length, stop })))) stop
        (SymbolRegion.closingRecord closer)
        (Defect.firstOr (.ok (.inl (body.addScope
            (BodyDraft.scope body.method.address address length inside.draft))))
          (Defect.ofCloser closer stop)) := by
      rw [← BodyDraft.closeInnermost_into]
      exact closeScope rfl (by omega)
    refine iterate_step hclose (by omega) fun _ => ?_
    have hend : stop + 4 + rest.size
        = start + (SymbolRegion.blockRecordSize + inside.size + 4 + rest.size) := by omega
    rw [← hend] at hafter hinside
    exact ihRest hwritableRest hdepth (by omega) hinside hlimit hafter

end Answers

/-! ### Methods -/

/-- The method as it is read, with its name or without. -/
def Method.keepingName (keepNames : Bool) (method : Method) : Method :=
  { method with name := if keepNames then method.name else none }

namespace BodyDraft

/-- What a body adds does not depend on the name of the method. -/
theorem into_withoutName (draft : BodyDraft) (body : OpenMethod) :
    draft.into body.withoutName = (draft.into body).withoutName := by
  have hmetadata (said : List Metadata) :
      said.foldl Metadata.apply body.method.withoutName
        = (said.foldl Metadata.apply body.method).withoutName :=
    List.foldl_hom Method.withoutName fun method metadata =>
      Method.apply_withoutName metadata method
  by_cases hdepth : body.depth = 1
  · have hdepth' : body.withoutName.depth = 1 := hdepth
    rw [into, if_pos hdepth', into, if_pos hdepth, OpenMethod.withoutName, hmetadata]
    rfl
  · have hdepth' : ¬body.withoutName.depth = 1 := hdepth
    rw [into, if_neg hdepth', into, if_neg hdepth]
    rfl

end BodyDraft

/-- The whole method is there once its own scope is closed, with or without its name. -/
theorem MethodDraft.closeInnermost_into_keepingName (draft : MethodDraft) (keepNames : Bool)
    (stop : Nat) :
    (draft.body.into (OpenMethod.ofStart (draft.start.keepingName keepNames) stop)).closeInnermost
      = .inr (draft.method.keepingName keepNames) := by
  cases keepNames with
  | true => exact draft.closeInnermost_into stop
  | false =>
    have hnamed := draft.closeInnermost_into stop
    show (draft.body.into (OpenMethod.ofStart draft.start stop).withoutName).closeInnermost = _
    rw [BodyDraft.into_withoutName, OpenMethod.closeInnermost_withoutName, hnamed]
    rfl

theorem MethodScript.size_mod_four (script : MethodScript) : script.size % 4 = 0 := by
  have hhead := SymbolRegion.size_openingRecord_mod_four .globalMethod 0 script.draft.tail
  have hbody := script.body.size_mod_four
  rw [size, headSize]
  omega

/-- The record that opens a method is read alike without the name. -/
theorem Reads.methodStart_keepingName {start bodyStop stop : Nat} {draft : MethodDraft}
    (keepNames : Bool) (hname : ZeroFree draft.name) (hbodyStop : bodyStop < 2 ^ 32)
    (hstop : stop = start
      + (Bytes.padded (Bytes.uint32s [0, UInt32.ofNat bodyStop] ++ draft.tail)).size) :
    Reads (Method.readStart stop keepNames) start
      (Bytes.padded (Bytes.uint32s [0, UInt32.ofNat bodyStop] ++ draft.tail))
      (draft.start.keepingName keepNames, bodyStop) := by
  have hnamed := methodStart hname hbodyStop hstop
  cases keepNames with
  | true => exact hnamed
  | false =>
    intro content hcontent
    have hle := hcontent.le_size
    have hsame : OutcomeSim (fun _ => True) _ (Method.readStart stop true content start)
        (Method.readStart stop false content start) :=
      Method.readStart_withoutName (by omega) fun _ _ => trivial
    rw [hnamed content hcontent] at hsame
    generalize Method.readStart stop false content start = outcome at hsame ⊢
    cases hsame with
    | done _ hvalue =>
      rw [hvalue]
      rfl

namespace Answers

variable {start limit : Nat}

/-- The record of a method and its body, with the record that closes it. -/
theorem method {script : MethodScript} {found : Array Method} (keepNames : Bool)
    (hwritable : script.Writable) (haligned : start % 4 = 0) (hlimit : start + script.size ≤ limit)
    (hregion : limit < 2 ^ 32) :
    Answers (readMethodOrSkip limit keepNames found) start (script.bytes start)
      (Defect.firstOr (.ok (found.push (script.draft.method.keepingName keepNames)))
        (script.defects start)) := by
  rw [MethodScript.size] at hlimit
  rw [MethodScript.bytes]
  generalize hstop : start + script.headSize + script.body.size = stop
  have hhead : (SymbolRegion.openingRecord .globalMethod stop script.draft.tail).size
      = script.headSize := SymbolRegion.size_openingRecord ..
  have hmod := SymbolRegion.size_openingRecord_mod_four .globalMethod stop script.draft.tail
  have hfits : (Bytes.uint32s [0, UInt32.ofNat stop] ++ script.draft.tail).size ≤ 65532 := by
    have hpayload := hwritable.fits
    rw [SymbolRegion.methodPayload_eq, ByteArray.size_append, Bytes.size_uint32s] at hpayload
    rwa [ByteArray.size_append, Bytes.size_uint32s]
  have hmethod : Answers (Method.read (start + script.headSize) limit keepNames) (start + 4)
      (Bytes.padded (Bytes.uint32s [0, UInt32.ofNat stop] ++ script.draft.tail)
        ++ (script.body.bytes (start + script.headSize)
          ++ SymbolRegion.closingRecord script.closer))
      (Defect.firstOr (.ok (script.draft.method.keepingName keepNames))
        (script.defects start)) := by
    have hheader : start + 4
        + (Bytes.padded (Bytes.uint32s [0, UInt32.ofNat stop] ++ script.draft.tail)).size
          = start + script.headSize := by
      rw [← hhead, SymbolRegion.openingRecord, SymbolRegion.size_record, Nat.add_assoc]
    refine .bind (Reads.methodStart_keepingName keepNames hwritable.name (by omega) hheader.symm) ?_
    rw [hheader, MethodScript.defects, Defect.firstOr_append, hstop]
    have hdepth : 1 ≤ maxOpenScopes := by decide
    have hstopLimit : stop ≤ limit := by omega
    refine iterate_script hwritable.body hdepth (by omega) (Nat.le_of_eq hstop) hstopLimit
      hregion ?_
    rw [hstop]
    -- no scope is open around that of the method, so the record that closes it ends the run
    refine iterate_done ?_
    rw [← script.draft.closeInnermost_into_keepingName keepNames stop]
    exact closeScope rfl (by omega)
  rw [SymbolRegion.openingRecord]
  refine header hfits (by rw [← SymbolRegion.openingRecord]; omega) ?_
  rw [← SymbolRegion.openingRecord, hhead]
  have hfound := bind_pure found.push hmethod
  rwa [← Defect.firstOr_map] at hfound

end Answers

/-! ### Regions -/

namespace RegionScript

theorem size_mod_four (script : RegionScript) : script.size % 4 = 0 := by
  cases script with
  | method script => exact script.size_mod_four
  | raw kind payload => exact RecordDraft.size_bytes_mod_four _

theorem size_pos (script : RegionScript) : 0 < script.size := by
  cases script with
  | method script =>
    rw [size, MethodScript.size]
    omega
  | raw kind payload =>
    rw [size, RecordDraft.bytes_size]
    omega

/-- The methods found, with the next one if the script is one. -/
def addTo (keepNames : Bool) (found : Array Method) : RegionScript → Array Method
  | method script => found.push (script.draft.method.keepingName keepNames)
  | raw .. => found

theorem addTo_append (keepNames : Bool) (found : Array Method) (script : RegionScript)
    (rest : List RegionScript) :
    script.addTo keepNames found
        ++ ((rest.filterMap method?).map (Method.keepingName keepNames)).toArray
      = found
        ++ (((script :: rest).filterMap method?).map (Method.keepingName keepNames)).toArray := by
  cases script <;> simp [addTo, method?, List.filterMap_cons]

end RegionScript

namespace Answers

variable {start limit : Nat}

/-- A step over a method or over a record between methods. -/
theorem region {script : RegionScript} {found : Array Method} (keepNames : Bool)
    (hwritable : script.Writable) (haligned : start % 4 = 0) (hlimit : start + script.size ≤ limit)
    (hregion : limit < 2 ^ 32) :
    Answers (readMethodOrSkip limit keepNames found) start (script.bytes start)
      (Defect.firstOr (.ok (script.addTo keepNames found)) (script.defectsAt start)) := by
  cases script with
  | method script => exact method keepNames hwritable haligned hlimit hregion
  | raw kind payload => exact Reads.recordBetween hwritable hlimit

/-- A run over methods and records up to the first defect, or up to the end of the region. -/
theorem regions {scripts : List RegionScript} {found : Array Method} (keepNames : Bool)
    (hwritable : ∀ script ∈ scripts, script.Writable) (haligned : start % 4 = 0)
    (hlimit : start + (RegionScript.allBytes scripts start).size = limit)
    (hregion : limit < 2 ^ 32) :
    Answers (Reader.whileBelow limit (readMethodOrSkip limit keepNames) found) start
      (RegionScript.allBytes scripts start)
      (Defect.firstOr
        (.ok (found ++
          ((scripts.filterMap RegionScript.method?).map (Method.keepingName keepNames)).toArray))
        (RegionScript.defectsFrom scripts start)) := by
  induction scripts generalizing start found with
  | nil =>
    rw [RegionScript.allBytes, ByteArray.size_empty, Nat.add_zero] at hlimit
    rw [List.filterMap_nil, List.map_nil, Array.append_empty]
    exact Reads.whileBelow_done (Nat.le_of_eq hlimit.symm)
  | cons script rest ih =>
    obtain ⟨hscript, hrest⟩ := List.forall_mem_cons.mp hwritable
    have hpos := script.size_pos
    have hmod := script.size_mod_four
    have hsize := script.size_bytes start
    rw [RegionScript.allBytes, ByteArray.size_append] at hlimit
    rw [RegionScript.allBytes, RegionScript.defectsFrom, Defect.firstOr_append,
      ← RegionScript.addTo_append]
    refine whileBelow_step (by omega) (region keepNames hscript haligned (by omega) hregion)
      (by omega) ?_
    rw [hsize] at hlimit ⊢
    exact ih hrest (by omega) (by omega)

end Answers

/-- A region that is written from scripts is read as the methods of the scripts, with or without
their names, or rejected with the error of its first defect. -/
theorem readMethods_script (keepNames : Bool) (scripts : List RegionScript)
    (hwritable : ∀ script ∈ scripts, script.Writable)
    (hregion : (RegionScript.written scripts).size < 2 ^ 32) :
    Defect.Ordered 4 (RegionScript.written scripts).size (RegionScript.defects scripts) ∧
      (readMethods (RegionScript.written scripts).size keepNames).run (RegionScript.written scripts)
        = Defect.firstOr
            (.ok ((scripts.filterMap RegionScript.method?).map (Method.keepingName keepNames)))
            (RegionScript.defects scripts) := by
  refine ⟨RegionScript.defects_ordered scripts, ?_⟩
  rw [RegionScript.written_eq] at hregion ⊢
  rw [ByteArray.size_append, Bytes.size_uint32] at hregion ⊢
  refine Answers.run_eq (.bind .symbolSignature ?_)
  have hloop := @Answers.regions 4 _ scripts #[] keepNames hwritable rfl rfl hregion
  rw [Array.empty_append] at hloop
  have hfound := Answers.bind_pure Array.toList hloop
  rwa [← Defect.firstOr_map] at hfound

/-- A method as it should be, and one in which a block is opened too deep inside others.  That block
also starts in front of the method, and neither it nor the method is closed by an end record. -/
def defectiveScripts : List RegionScript := [
  .raw 0x1234 ⟨#[1, 2, 3]⟩,
  .method ⟨0x06000001, 1, 16, 32, "Main", .record (.slot 1 2 "count") .done, 6⟩,
  .method ⟨0x06000002, 1, 64, 32, "Deep",
    Nat.iterate (fun inside => .block 64 8 inside 6 .done) 255 (.block 32 8 .done 7 .done), 0x1103⟩]

theorem readMethods_script_deep :
    (∀ script ∈ defectiveScripts, script.Writable) ∧
      (RegionScript.written defectiveScripts).size = 7312 ∧
      RegionScript.defects defectiveScripts = [⟨6260, .scopeTooDeep 256⟩, ⟨6284, .missingEnd 7⟩,
        ⟨7308, .missingEnd 0x1103⟩] ∧
      (readMethods 7312 false).run (RegionScript.written defectiveScripts)
        = .error (.ofKindAt (.scopeTooDeep 256) 6260) := by
  have hwritable : ∀ script ∈ defectiveScripts, script.Writable := by decide +kernel
  have hsize : (RegionScript.written defectiveScripts).size = 7312 := by
    rw [RegionScript.size_written]
    decide +kernel
  have hdefects : RegionScript.defects defectiveScripts = [⟨6260, .scopeTooDeep 256⟩,
      ⟨6284, .missingEnd 7⟩, ⟨7308, .missingEnd 0x1103⟩] := by decide +kernel
  obtain ⟨-, hread⟩ := readMethods_script false defectiveScripts hwritable (by omega)
  rw [hsize, hdefects, Defect.firstOr_cons] at hread
  exact ⟨hwritable, hsize, hdefects, hread⟩

end ManagedPdb
