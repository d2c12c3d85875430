import ManagedPdb.DebugInfo.Decode
import ManagedPdb.Proofs.Reader

/-!
# Readers stay inside their streams

A reader runs on the content of a stream that has been staged, so that it knows nothing of pages
and of the length that the directory gives to the stream.  Where it fails, the cause is never a read
out of the bounds of a stream (`Reader.InBounds`); only reads of pages can have that cause.
-/

namespace ManagedPdb

/-- The cause is not a read out of the bounds of a stream. -/
def InBounds (error : DecodeError) : Prop :=
  ∀ position length, error.kind ≠ .streamOutOfBounds position length

/-- The reader does not fail with a read out of the bounds of a stream. -/
def Reader.InBounds {α : Type} (reader : Reader α) : Prop :=
  ∀ content position error stop, reader content position = .failed error stop →
    ManagedPdb.InBounds error

/-- The loader does not fail with a read out of the bounds of a stream. -/
def SourceLoader.InBounds {σ : Type} (load : SourceLoader σ) : Prop :=
  ∀ nameId kind checksum state error, load nameId kind checksum state = .error error →
    ManagedPdb.InBounds error

variable {α β σ : Type}

namespace Reader.InBounds

/-! ### Steps in a row -/

protected theorem pure (value : α) : InBounds (Pure.pure value : Reader α) := nofun

protected theorem bind {reader : Reader α} {next : α → Reader β} (h : reader.InBounds)
    (hnext : ∀ value, (next value).InBounds) : (reader >>= next).InBounds := by
  intro content position error stop hfailed
  rw [bind_apply] at hfailed
  cases hreader : reader content position with
  | done value middle =>
    rw [hreader] at hfailed
    exact hnext value content middle error stop hfailed
  | failed error' stop' =>
    rw [hreader] at hfailed
    cases hfailed
    exact h content position error stop hreader

protected theorem map {reader : Reader α} (f : α → β) (h : reader.InBounds) :
    (f <$> reader).InBounds :=
  h.bind fun value => .pure (f value)

theorem ite {condition : Prop} [Decidable condition] {left right : Reader α}
    (htrue : left.InBounds) (hfalse : right.InBounds) :
    (if condition then left else right).InBounds := by
  by_cases h : condition
  · rwa [if_pos h]
  · rwa [if_neg h]

/-- A check in front of the next step, which both its outcomes go on with. -/
theorem guard {condition : Prop} [Decidable condition] {check : Reader α} {next : Reader β}
    (h : check.InBounds) (hnext : next.InBounds) :
    (if condition then check >>= fun _ => next else next).InBounds :=
  ite (h.bind fun _ => hnext) hnext

protected theorem fail {error : DecodeError} (h : ManagedPdb.InBounds error) :
    (Reader.fail error : Reader α).InBounds := by
  intro content position error' stop hfailed
  cases hfailed
  exact h

protected theorem failAt {kind : ErrorKind} (offset : Nat)
    (h : ∀ position length, kind ≠ .streamOutOfBounds position length) :
    (Reader.failAt kind offset : Reader α).InBounds :=
  .fail h

protected theorem ofExcept {result : Except DecodeError α}
    (h : ∀ error, result = .error error → ManagedPdb.InBounds error) :
    (Reader.ofExcept result).InBounds := by
  cases result with
  | ok value => exact .pure value
  | error error => exact .fail (h error rfl)

/-! ### Positions -/

protected theorem position : InBounds Reader.position := nofun

protected theorem size : InBounds Reader.size := nofun

/-- A reader that goes on inside the content, and otherwise fails because that has ended. -/
theorem of_end {reader : Reader α}
    (h : ∀ content position error stop, reader content position = .failed error stop →
      error.kind = .unexpectedEnd) : reader.InBounds := by
  intro content position error stop hfailed position' length
  rw [h content position error stop hfailed]
  exact nofun

protected theorem seek (target : Nat) : (Reader.seek target).InBounds := by
  apply of_end
  intro content position error stop h
  rw [Reader.seek] at h
  split at h
  · cases h
  · cases h
    rfl

protected theorem align (alignment : Nat) : (Reader.align alignment).InBounds :=
  fun _ _ _ _ h => InBounds.seek _ _ _ _ _ h

theorem kind_of_skip {count position : Nat} {content : ByteArray} {error : DecodeError} {stop : Nat}
    (h : Reader.skip count content position = .failed error stop) :
    error.kind = .unexpectedEnd := by
  rw [Reader.skip] at h
  split at h
  · cases h
  · cases h
    rfl

protected theorem skip (count : Nat) : (Reader.skip count).InBounds :=
  of_end fun _ _ _ _ h => kind_of_skip h

/-- A field of a known size. -/
theorem of_skip (count : Nat) (take : ByteArray → Nat → α) {reader : Reader α}
    (hreader : ∀ content position, reader content position =
      match Reader.skip count content position with
      | .done start stop => .done (take content start) stop
      | .failed error position => .failed error position) : reader.InBounds := by
  apply of_end
  intro content position error stop h
  rw [hreader] at h
  cases hskip : Reader.skip count content position with
  | done start middle =>
    rw [hskip] at h
    cases h
  | failed error' stop' =>
    rw [hskip] at h
    cases h
    exact kind_of_skip hskip

protected theorem bytes (count : Nat) : (Reader.bytes count).InBounds := by
  apply of_end
  intro content position error stop h
  rw [Reader.bytes] at h
  cases hskip : Reader.skip count content position with
  | done start middle =>
    rw [hskip] at h
    cases h
  | failed error' stop' =>
    rw [hskip] at h
    cases h
    exact kind_of_skip hskip

/-! ### Fields -/

protected theorem word (width : Nat) : (Reader.word width).InBounds := by
  apply of_end
  intro content position error stop h
  rw [Reader.word] at h
  split at h
  · cases h
  · cases h
    rfl

protected theorem uint8 : Reader.uint8.InBounds := .map _ (.word 1)

protected theorem uint16 : Reader.uint16.InBounds := .map _ (.word 2)

protected theorem uint32 : Reader.uint32.InBounds := .map _ (.word 4)

protected theorem uint64 : Reader.uint64.InBounds := .map _ (.word 8)

protected theorem int32 : Reader.int32.InBounds := .map _ .uint32

protected theorem uint32s (count : Nat) : (Reader.uint32s count).InBounds :=
  of_skip (count * 4) _ fun _ _ => rfl

protected theorem guid : Reader.guid.InBounds := of_skip 16 _ fun _ _ => rfl

protected theorem int8 : Reader.int8.InBounds := .map _ .uint8

protected theorem int16 : Reader.int16.InBounds := .map _ .uint16

protected theorem int64 : Reader.int64.InBounds := .map _ .uint64

protected theorem decimal : Reader.decimal.InBounds :=
  .bind .uint32 fun _ => .bind .uint32 fun _ => .bind .uint32 fun _ => .bind .uint32 fun _ =>
  .pure _

/-! ### Loops -/

protected theorem iterate {step : σ → Reader (σ ⊕ α)} (h : ∀ state, (step state).InBounds)
    (state : σ) : InBounds (Reader.iterate step state) := by
  intro content position error stop hfailed
  induction hlength : content.size - position using Nat.strongRecOn generalizing position state with
  | ind _ ih =>
    subst hlength
    rw [Reader.iterate] at hfailed
    cases hstep : step state content position with
    | failed error' stop' =>
      rw [hstep] at hfailed
      cases hfailed
      exact h state content position error stop hstep
    | done found next =>
      rw [hstep] at hfailed
      cases found with
      | inr value => cases hfailed
      | inl state' =>
        dsimp only at hfailed
        split at hfailed
        · exact ih _ (by omega) state' next hfailed rfl
        · cases hfailed
          intro position length h
          cases h

protected theorem whileBelow (stop : Nat) {body : σ → Reader σ} (h : ∀ state, (body state).InBounds)
    (state : σ) : (Reader.whileBelow stop body state).InBounds :=
  .iterate (fun state => .bind .position fun _ => .ite (.bind (h state) fun _ => .pure _) (.pure _))
    state

protected theorem times (count : Nat) {item : Reader α} (h : item.InBounds) :
    (Reader.times count item).InBounds := by
  show InBounds (timesOnto item #[] count)
  generalize (#[] : Array α) = before
  induction count generalizing before with
  | zero => exact nofun
  | succ count ih =>
    show (item >>= fun value => timesOnto item (before.push value) count).InBounds
    exact h.bind fun value => ih _

/-! ### Text -/

protected theorem utf8 (content : ByteArray) (offset : Nat) :
    (Reader.utf8 content offset).InBounds := by
  unfold Reader.utf8
  split
  · exact .pure _
  · exact .failAt _ nofun

protected theorem countedString : Reader.countedString.InBounds :=
  .bind .uint16 fun _ => .bind .position fun _ => .bind (.bytes _) fun _ => .utf8 _ _

protected theorem terminatedBytes : Reader.terminatedBytes.InBounds := by
  apply of_end
  intro content position error stop h
  rw [Reader.terminatedBytes] at h
  split at h
  · cases h
  · cases h
    rfl

protected theorem terminatedString : Reader.terminatedString.InBounds :=
  .bind .position fun _ => .bind .terminatedBytes fun _ => .utf8 _ _

protected theorem skipTerminated : Reader.skipTerminated.InBounds :=
  .bind .terminatedBytes fun _ => .pure _

protected theorem terminatedStringAt (target : Nat) :
    (Reader.terminatedStringAt target).InBounds := by
  intro content position error stop h
  rw [Reader.terminatedStringAt] at h
  cases hseek : Reader.seek target content position with
  | failed error' stop' =>
    rw [hseek] at h
    cases h
    exact InBounds.seek target content position error stop hseek
  | done value middle =>
    rw [hseek] at h
    dsimp only at h
    cases htext : Reader.terminatedString content middle with
    | done text last =>
      rw [htext] at h
      cases h
    | failed error' stop' =>
      rw [htext] at h
      cases h
      exact InBounds.terminatedString content middle error stop' htext

protected theorem utf16String : Reader.utf16String.InBounds := by
  have hunits : Reader.terminatedUnits.InBounds :=
    .iterate (fun units => .bind .uint16 fun _ => .ite (.pure _) (.pure _)) _
  refine .bind .position fun start => .bind hunits fun units => ?_
  split
  · exact .pure _
  · exact .failAt _ nofun

end Reader.InBounds

/-! ### Names -/

open Reader (InBounds)

theorem Bitmap.read_inBounds : Bitmap.read.InBounds :=
  .bind .uint32 fun _ => .bind (.uint32s _) fun _ => .pure _

namespace InfoStream

theorem readEntry_inBounds (bufferStart bufferSize : Nat) :
    (readEntry bufferStart bufferSize).InBounds :=
  .bind .uint32 fun _ => .bind .uint32 fun _ => .guard (.failAt _ nofun)
    (.bind (.terminatedStringAt _) fun _ => .pure _)

theorem read_inBounds : InfoStream.read.InBounds := by
  refine .bind .uint32 fun _ => .bind .uint32 fun _ => .bind .uint32 fun _ => .bind .guid fun _ =>
    .bind .uint32 fun _ => .bind (.skip _) fun _ => .bind .uint32 fun _ => .bind .uint32 fun _ =>
    .bind Bitmap.read_inBounds fun _ => .bind Bitmap.read_inBounds fun _ => ?_
  refine .ite (.bind .position fun _ => .bind (.failAt _ nofun) fun _ => ?_) ?_
  all_goals
    exact .bind (.times _ (readEntry_inBounds _ _)) fun _ => .guard (.fail nofun) (.pure _)

end InfoStream

namespace NameTable

theorem readBucket_inBounds (bufferStart bufferSize : Nat) :
    (readBucket bufferStart bufferSize).InBounds :=
  .bind .uint32 fun _ => .ite (.pure _) (.guard (.fail nofun)
    (.bind (.terminatedStringAt _) fun _ => .pure _))

theorem read_inBounds : NameTable.read.InBounds :=
  .bind .uint32 fun _ => .bind .int32 fun _ => .bind .uint32 fun _ => .guard (.fail nofun)
    (.bind (.skip _) fun _ => .bind .uint32 fun _ =>
      .bind (.times _ (readBucket_inBounds _ _)) fun _ => .pure _)

end NameTable

/-! ### The list of modules -/

theorem SectionContribution.read_inBounds : SectionContribution.read.InBounds :=
  .bind .uint16 fun _ => .bind .uint16 fun _ => .bind .uint32 fun _ => .bind .uint32 fun _ =>
  .bind .uint32 fun _ => .bind .uint16 fun _ => .bind .uint16 fun _ => .bind .uint32 fun _ =>
  .bind .uint32 fun _ => .pure _

theorem ModuleDescriptor.read_inBounds (keepNames : Bool) :
    (ModuleDescriptor.read keepNames).InBounds := by
  refine .bind .uint32 fun _ => .bind SectionContribution.read_inBounds fun _ =>
    .bind .uint16 fun _ => .bind .uint16 fun _ => .bind .uint32 fun _ => .bind .uint32 fun _ =>
    .bind .uint32 fun _ => .bind .uint16 fun _ => .bind .uint16 fun _ => .bind .uint32 fun _ =>
    .bind .uint32 fun _ => .bind .uint32 fun _ => .bind .terminatedString fun _ => ?_
  refine .ite (.bind (.map _ .terminatedString) fun _ => ?_)
    (.bind .skipTerminated fun _ => .bind (.pure _) fun _ => ?_)
  all_goals exact .bind (.align _) fun _ => .pure _

theorem DebugStreamHeader.read_inBounds : DebugStreamHeader.read.InBounds :=
  .bind .int32 fun _ => .bind .uint32 fun _ => .bind .uint32 fun _ => .bind .uint16 fun _ =>
  .bind .uint16 fun _ => .bind .uint16 fun _ => .bind .uint16 fun _ => .bind .uint16 fun _ =>
  .bind .uint16 fun _ => .bind .uint32 fun _ => .bind .uint32 fun _ => .bind .uint32 fun _ =>
  .bind .uint32 fun _ => .bind .uint32 fun _ => .bind .uint32 fun _ => .bind .uint32 fun _ =>
  .bind .uint32 fun _ => .bind .uint16 fun _ => .bind .uint16 fun _ => .bind .uint32 fun _ =>
  .pure _

namespace DebugStream

theorem readModules_inBounds (size : Nat) (keepNames : Bool) :
    (readModules size keepNames).InBounds :=
  .bind .position fun _ =>
  .bind (.whileBelow _ (fun _ => .bind (ModuleDescriptor.read_inBounds _) fun _ => .pure _) _)
    fun _ =>
  .bind .position fun _ => .guard (.failAt _ nofun) (.pure _)

theorem skipAll_inBounds (sizes : List UInt32) : (skipAll sizes).InBounds := by
  induction sizes with
  | nil => exact .pure _
  | cons size sizes ih => exact .bind (.skip _) fun _ => ih

theorem readStreamList_inBounds (size : Nat) : (readStreamList size).InBounds :=
  .bind .position fun _ => .bind (.times _ .uint16) fun _ => .bind (.seek _) fun _ => .pure _

theorem read_inBounds (keepNames : Bool) : (DebugStream.read keepNames).InBounds :=
  .bind DebugStreamHeader.read_inBounds fun _ => .bind (readModules_inBounds _ _) fun _ =>
  .bind (skipAll_inBounds _) fun _ =>
  .ite (.bind (.pure _) fun _ => .pure _) (.bind (readStreamList_inBounds _) fun _ => .pure _)

end DebugStream

theorem TokenRemap.read_inBounds : TokenRemap.read.InBounds :=
  .bind .size fun _ => .bind (.uint32s _) fun _ => .pure _

/-! ### Symbols -/

theorem RecordHeader.read_inBounds (limit : Nat) : (RecordHeader.read limit).InBounds :=
  .bind .position fun _ => .bind .uint16 fun _ => .bind .uint16 fun _ =>
  .guard (.failAt _ nofun) (.pure _)

theorem readSymbolSignature_inBounds : readSymbolSignature.InBounds :=
  .bind (.seek _) fun _ => .bind .uint32 fun _ => .ite (.failAt _ nofun) (.pure _)

theorem readVendorName_inBounds : readVendorName.InBounds :=
  .bind .position fun _ => .bind .guid fun _ =>
  .guard (.failAt _ nofun) (.bind .uint32 fun _ => .utf16String)

theorem Slot.read_inBounds : Slot.read.InBounds :=
  .bind .uint32 fun _ => .bind .uint32 fun _ => .bind .uint32 fun _ => .bind .uint16 fun _ =>
  .bind .uint16 fun _ => .bind .terminatedString fun _ => .pure _

theorem ConstantValue.read_inBounds : ConstantValue.read.InBounds := by
  refine .bind .position fun _ => .bind .uint16 fun _ => .ite (.pure _) ?_
  exact .ite (.bind .int8 fun _ => .pure _) <| .ite (.bind .int16 fun _ => .pure _) <|
    .ite (.bind .uint16 fun _ => .pure _) <| .ite (.bind .int32 fun _ => .pure _) <|
    .ite (.bind .uint32 fun _ => .pure _) <| .ite (.bind .uint32 fun _ => .pure _) <|
    .ite (.bind .uint64 fun _ => .pure _) <| .ite (.bind .int64 fun _ => .pure _) <|
    .ite (.bind .uint64 fun _ => .pure _) <| .ite (.bind .countedString fun _ => .pure _) <|
    .ite (.bind .decimal fun _ => .pure _) <| .failAt _ nofun

theorem Constant.read_inBounds : Constant.read.InBounds :=
  .bind .uint32 fun _ => .bind ConstantValue.read_inBounds fun _ =>
  .bind .terminatedString fun _ => .pure _

namespace MetadataItem

theorem readRange_inBounds (itemStart : Nat) : (readRange itemStart).InBounds :=
  .bind .uint32 fun _ => .bind .uint32 fun _ => .guard (.failAt _ nofun) (.pure _)

theorem readPayload_inBounds (itemStart : Nat) (kind : UInt8) :
    (readPayload itemStart kind).InBounds := by
  refine .ite (.bind .uint16 fun _ => .bind (.times _ .uint16) fun _ => .pure _) ?_
  refine .ite (.bind .uint32 fun _ => .pure _) (.ite (.bind .uint32 fun _ => .pure _) ?_)
  refine .ite (.bind .uint32 fun _ => .bind (.times _ (readRange_inBounds _)) fun _ => .pure _) ?_
  exact .ite (.bind .utf16String fun _ => .pure _) (.pure _)

theorem read_inBounds (stop : Nat) : (MetadataItem.read stop).InBounds :=
  .bind .position fun _ => .bind .uint8 fun _ => .guard (.failAt _ nofun) <|
  .bind .uint8 fun _ => .bind (.align _) fun _ => .bind .uint32 fun _ => .bind .position fun _ =>
  .guard (.failAt _ nofun) <| .bind (readPayload_inBounds _ _) fun _ =>
  .bind (.seek _) fun _ => .pure _

end MetadataItem

theorem AsyncInfo.read_inBounds : AsyncInfo.read.InBounds := by
  have hpoint : SyncPoint.read.InBounds :=
    .bind .uint32 fun _ => .bind .uint32 fun _ => .bind .uint32 fun _ => .pure _
  exact .bind .uint32 fun _ => .bind .uint32 fun _ => .bind .uint32 fun _ =>
    .bind (.times _ hpoint) fun _ => .pure _

namespace Metadata

theorem readItems_inBounds (stop : Nat) : (readItems stop).InBounds :=
  .bind .uint8 fun _ => .ite (.pure _) <|
  .bind .uint8 fun _ => .bind (.align _) fun _ => .times _ (MetadataItem.read_inBounds _)

theorem read_inBounds (stop : Nat) : (Metadata.read stop).InBounds :=
  .bind readVendorName_inBounds fun _ => .ite (.bind (readItems_inBounds _) fun _ => .pure _) <|
  .ite (.bind AsyncInfo.read_inBounds fun _ => .pure _) (.pure _)

end Metadata

namespace OpenMethod

theorem readBlock_inBounds (body : OpenMethod) (position : Nat) :
    (body.readBlock position).InBounds :=
  .guard (.failAt _ nofun) <| .bind .uint32 fun _ => .bind .uint32 fun _ => .bind .uint32 fun _ =>
  .bind .uint32 fun _ => .bind .uint16 fun _ => .guard (.failAt _ nofun) (.pure _)

theorem readEntry_inBounds (body : OpenMethod) (position : Nat) (header : RecordHeader) :
    (body.readEntry position header).InBounds := by
  unfold readEntry
  split
  · exact .bind (readBlock_inBounds _ _) fun _ => .pure _
  · exact .bind Slot.read_inBounds fun _ => .pure _
  · exact .bind Constant.read_inBounds fun _ => .pure _
  · exact .bind .terminatedString fun _ => .pure _
  · exact .ite (.bind (Metadata.read_inBounds _) fun _ => .pure _) (.pure _)
  · exact .pure _

theorem step_inBounds (limit : Nat) (body : OpenMethod) : (step limit body).InBounds := by
  refine .bind .position fun _ => .ite ?_ (.ite ?_ (.failAt _ nofun))
  · exact .bind (RecordHeader.read_inBounds _) fun _ => .bind (readEntry_inBounds _ _ _) fun _ =>
      .bind (.seek _) fun _ => .pure _
  · exact .bind (RecordHeader.read_inBounds _) fun _ => .guard (.failAt _ nofun) <|
      .bind (.seek _) fun _ => .pure _

end OpenMethod

theorem Method.read_inBounds (stop limit : Nat) (keepNames : Bool) :
    (Method.read stop limit keepNames).InBounds := by
  have hname : (Method.readName keepNames).InBounds := .ite (.map _ .terminatedString) (.pure _)
  have hstart : (Method.readStart stop keepNames).InBounds :=
    .bind .uint32 fun _ => .bind .uint32 fun _ => .bind .uint32 fun _ => .bind .uint32 fun _ =>
    .bind .uint32 fun _ => .bind .uint32 fun _ => .bind .uint32 fun _ => .bind .uint32 fun _ =>
    .bind .uint16 fun _ => .bind .uint8 fun _ => .bind .uint16 fun _ => .bind hname fun _ =>
    .bind (.seek _) fun _ => .pure _
  exact .bind hstart fun _ => .iterate (OpenMethod.step_inBounds limit) _

theorem readMethods_inBounds (limit : Nat) (keepNames : Bool) :
    (readMethods limit keepNames).InBounds := by
  refine .bind readSymbolSignature_inBounds fun _ =>
    .bind (.whileBelow _ (fun found => .bind (RecordHeader.read_inBounds _) fun header => ?_) _)
      fun _ => .pure _
  split
  · exact .bind (Method.read_inBounds _ _ _) fun _ => .pure _
  · exact .bind (Method.read_inBounds _ _ _) fun _ => .pure _
  · exact .bind (.seek _) fun _ => .pure _

theorem TokenLine.readAll_inBounds (limit : Nat) : (TokenLine.readAll limit).InBounds := by
  have hread : TokenLine.read.InBounds :=
    .bind .uint32 fun _ => .bind .uint32 fun _ => .bind .uint32 fun _ => .bind .uint32 fun _ =>
    .bind .uint32 fun _ => .bind .uint32 fun _ => .pure _
  refine .bind readSymbolSignature_inBounds fun _ =>
    .bind (.whileBelow _ (fun found => .bind (RecordHeader.read_inBounds _) fun header => ?_) _)
      fun _ => .pure _
  refine .ite (.bind readVendorName_inBounds fun _ => .ite (.bind hread fun _ => ?_) ?_) ?_
  all_goals exact .bind (.pure _) fun _ => .bind (.seek _) fun _ => .pure _

/-! ### Lines -/

namespace Subsection

theorem readKind_inBounds (kind : UInt32) (start limit : Nat) :
    (readKind kind start limit).InBounds := by
  have hnext : ∀ found, (readNext limit found).InBounds := fun found =>
    .bind .uint32 fun _ => .bind .uint32 fun _ => .bind .position fun _ =>
    .guard (.failAt _ nofun) <| .bind (.seek _) fun _ => .bind (.align _) fun _ =>
    .ite (.pure _) (.pure _)
  exact .bind (.bind (.seek _) fun _ => .bind (.whileBelow _ hnext _) fun _ => .pure _) fun _ =>
    .pure _

end Subsection

namespace ChecksumTable

theorem read_inBounds {load : SourceLoader σ} (hload : load.InBounds) (start stop : Nat)
    (sources : σ) : (ChecksumTable.read load start stop sources).InBounds := by
  have hrecord : ∀ start state, (readRecord load start state).InBounds := fun start state =>
    .bind .position fun _ => .bind .uint32 fun _ => .bind .uint8 fun _ => .bind .uint8 fun _ =>
    .bind (.bytes _) fun _ => .bind (.ofExcept (hload _ _ _ _)) fun _ =>
    .bind (.align _) fun _ => .pure _
  refine .bind (Subsection.readKind_inBounds _ _ _) fun subsections => ?_
  generalize ((∅, sources) : ChecksumTable × σ) = state
  induction subsections generalizing state with
  | nil => exact .pure _
  | cons subsection rest ih =>
    exact .bind (.seek _) fun _ => .bind (.whileBelow _ (hrecord _) _) fun _ => ih _

end ChecksumTable

theorem LineRecord.readColumns_inBounds (before : Array LineRecord) (lines : List LineRecord) :
    (LineRecord.readColumns before lines).InBounds := by
  induction lines generalizing before with
  | nil => exact .pure _
  | cons line lines ih => exact .bind .uint16 fun _ => .bind .uint16 fun _ => ih _

namespace LineTable

theorem readBlock_inBounds (checksums : ChecksumTable) (hasColumns : Bool) (stop : Nat) :
    (readBlock checksums hasColumns stop).InBounds := by
  have hrecord : LineRecord.read.InBounds := .bind .uint32 fun _ => .bind .uint32 fun _ => .pure _
  refine .bind .position fun _ => .bind .uint32 fun _ => .bind .uint32 fun _ =>
    .bind .uint32 fun _ => .bind .position fun _ => .guard (.failAt _ nofun) <|
    .bind (.times _ hrecord) fun _ => ?_
  refine .ite (.bind (LineRecord.readColumns_inBounds _ _) fun _ => ?_)
    (.bind (.pure _) fun _ => ?_)
  all_goals exact .bind (.seek _) fun _ => .pure _

theorem readBlocks_inBounds (checksums : ChecksumTable) (hasColumns : Bool) (stop : Nat) :
    (readBlocks checksums hasColumns stop).InBounds :=
  .bind (.whileBelow _ (fun _ => .bind (readBlock_inBounds _ _ _) fun _ => .pure _) _) fun _ =>
  .pure _

end LineTable

theorem readLines_inBounds (checksums : ChecksumTable) (start stop : Nat) (methods : List Method) :
    (readLines checksums start stop methods).InBounds := by
  have hheader : LinesHeader.read.InBounds :=
    .bind .uint32 fun _ => .bind .uint16 fun _ => .bind .uint16 fun _ => .bind .uint32 fun _ =>
    .pure _
  refine .bind (Subsection.readKind_inBounds _ _ _) fun subsections => .bind ?_ fun _ => .pure _
  generalize Attachment.ofMethods methods = attachment
  induction subsections generalizing attachment with
  | nil => exact .pure _
  | cons subsection rest ih =>
    refine .bind (.bind (.seek _) fun _ => .bind hheader fun _ => ?_) fun _ => ih _
    split
    · exact .pure _
    · exact .bind (LineTable.readBlocks_inBounds _ _ _) fun _ => .pure _

/-! ### Whole streams of modules -/

namespace ModuleDescriptor

variable {load : SourceLoader σ}

/-- The stream of a module is read in its bounds if the source files are. -/
theorem readStream_inBounds (hload : load.InBounds) (descriptor : ModuleDescriptor)
    (keepNames : Bool) (findings : ModuleFindings σ) :
    (descriptor.readStream load keepNames findings).InBounds := by
  refine .ite ?_ (.ite (.pure _) ?_)
  · exact .bind (TokenLine.readAll_inBounds _) fun _ =>
      .bind (ChecksumTable.read_inBounds hload _ _ _) fun _ => .pure _
  · exact .bind (readMethods_inBounds _ _) fun _ =>
      .bind (ChecksumTable.read_inBounds hload _ _ _) fun _ =>
      .bind (readLines_inBounds _ _ _ _) fun _ => .pure _

end ModuleDescriptor

theorem SourceFile.readStream_inBounds (file : SourceFile) : file.readStream.InBounds := by
  have hsize : SourceFile.readSize.InBounds := .bind .int32 fun _ => .pure _
  refine .bind .guid fun _ => .bind .guid fun _ => .bind .guid fun _ => .bind .position fun _ =>
    .bind .size fun _ => .ite (.pure _) ?_
  refine .bind .guid fun _ => .bind hsize fun _ => .bind hsize fun _ => .bind (.bytes _) fun _ => ?_
  exact .ite (.bind (.pure _) fun _ => .pure _) (.bind (.map _ (.bytes _)) fun _ => .pure _)

end ManagedPdb
