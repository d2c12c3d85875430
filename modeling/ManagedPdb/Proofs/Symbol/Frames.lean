import ManagedPdb.Proofs.Simulation
import ManagedPdb.Proofs.Stable
import ManagedPdb.Proofs.Symbol.Descent
import ManagedPdb.TokenLine

/-!
# Frames of records

A record announces where it ends.  After each record the decoders go to the announced end, so that
the records of a region that is decoded are frames in a row, inside the region (`Framed`).  The
payload of a record is not held to its frame: it is read from the whole stream.
`InFrame.readMethods` and `InFrame.readTokenLines` are the decoders that do hold it, so that a
record which is too short for its fields is an error.  What they accept is decoded in the same way
(`readMethods_frames`), but the decoders accept more: a short record takes its fields from the
records behind it (`readMethods_short_slot`).
-/

namespace ManagedPdb

/-- Runs a reader on the bytes in front of `stop` alone. -/
def Reader.within {α : Type} (stop : Nat) (reader : Reader α) : Reader α :=
  fun content position => reader (content.extract 0 stop) position

/-! ### Decoding inside the frames -/

namespace InFrame

/-- The signature, which must lie in the region. -/
def readSignature (limit : Nat) : Reader Unit := Reader.within limit readSymbolSignature

/-- The header of a record, which must lie in the frame that it announces. -/
def readHeader (limit : Nat) : Reader RecordHeader := do
  let start ← Reader.position
  let header ← RecordHeader.read limit
  if header.stop < start + 4 then Reader.failAt .unexpectedEnd start
  return header

/-- The next record of a method, as in `OpenMethod.step`, with its payload from its frame. -/
def step (limit : Nat) (body : OpenMethod) : Reader (OpenMethod ⊕ Method) := do
  let position ← Reader.position
  if position < body.innermost.stop then
    let header ← readHeader limit
    let entry ← Reader.within header.stop (body.readEntry position header)
    Reader.seek header.stop
    return .inl (body.add entry)
  else if position = body.innermost.stop then
    let header ← readHeader limit
    if header.kind ≠ .scopeEnd then Reader.failAt (.missingEnd header.kind.code) position
    Reader.seek header.stop
    return body.closeInnermost
  else
    Reader.failAt .notAtEnd position

def readMethod (stop limit : Nat) (keepNames : Bool) : Reader Method := do
  let (method, bodyStop) ← Reader.within stop (Method.readStart stop keepNames)
  Reader.iterate (step limit) (OpenMethod.ofStart method bodyStop)

def readMethodOrSkip (limit : Nat) (keepNames : Bool) (found : Array Method) :
    Reader (Array Method) := do
  let header ← readHeader limit
  match header.kind with
  | .globalMethod | .localMethod => return found.push (← readMethod header.stop limit keepNames)
  | _ =>
    Reader.seek header.stop
    return found

/-- All methods of a region, as in `ManagedPdb.readMethods`, with every field inside its frame. -/
def readMethods (limit : Nat) (keepNames : Bool) : Reader (List Method) := do
  readSignature limit
  let found ← Reader.whileBelow limit (readMethodOrSkip limit keepNames) #[]
  return found.toList

def readTokenLine (limit : Nat) (found : Array (UInt32 × TokenLine)) :
    Reader (Array (UInt32 × TokenLine)) := do
  let header ← readHeader limit
  let found ←
    if header.kind = .vendor then do
      let name ← Reader.within header.stop readVendorName
      if name = tokenLineFormat then
        pure (found.push (← Reader.within header.stop TokenLine.read))
      else pure found
    else pure found
  Reader.seek header.stop
  return found

/-- All token lines of a region, as in `TokenLine.readAll`, with every field inside its frame. -/
def readTokenLines (limit : Nat) : Reader (List (UInt32 × TokenLine)) := do
  readSignature limit
  let found ← Reader.whileBelow limit (readTokenLine limit) #[]
  return found.toList

end InFrame

/-! ### Payloads look no further than they read -/

namespace Reader.Stable

theorem readSymbolSignature : Stable ManagedPdb.readSymbolSignature :=
  (Stable.seek 0).bind fun _ => Stable.uint32.bind fun _ => .ite (.failAt ..) (.pure _)

theorem readVendorName : Stable ManagedPdb.readVendorName :=
  Stable.position.bind fun _ => Stable.guid.bind fun _ =>
    .ite (.bind (.failAt ..) fun _ => Stable.uint32.bind fun _ => .utf16String)
      (Stable.uint32.bind fun _ => .utf16String)

theorem slot : Stable Slot.read :=
  Stable.uint32.bind fun _ => Stable.uint32.bind fun _ => Stable.uint32.bind fun _ =>
    Stable.uint16.bind fun _ => Stable.uint16.bind fun _ => Stable.terminatedString.bind fun _ =>
      .pure _

theorem constantValue : Stable ConstantValue.read := by
  refine Stable.position.bind fun _ => Stable.uint16.bind fun _ => ?_
  have hint8 : Stable Reader.int8 := Stable.uint8.bind fun _ => .pure _
  have hint16 : Stable Reader.int16 := Stable.uint16.bind fun _ => .pure _
  have hint64 : Stable Reader.int64 := Stable.uint64.bind fun _ => .pure _
  refine .ite (.pure _) (.ite (hint8.bind fun _ => .pure _) (.ite (hint16.bind fun _ => .pure _)
    (.ite (Stable.uint16.bind fun _ => .pure _) (.ite (Stable.int32.bind fun _ => .pure _)
    (.ite (Stable.uint32.bind fun _ => .pure _) (.ite (Stable.uint32.bind fun _ => .pure _)
    (.ite (Stable.uint64.bind fun _ => .pure _) (.ite (hint64.bind fun _ => .pure _)
    (.ite (Stable.uint64.bind fun _ => .pure _) (.ite (Stable.countedString.bind fun _ => .pure _)
    (.ite (Stable.decimal.bind fun _ => .pure _) (.failAt ..))))))))))))

theorem constant : Stable Constant.read :=
  Stable.uint32.bind fun _ => constantValue.bind fun _ => Stable.terminatedString.bind fun _ =>
    .pure _

theorem range (itemStart : Nat) : Stable (MetadataItem.readRange itemStart) :=
  Stable.uint32.bind fun _ => Stable.uint32.bind fun _ =>
    .ite (.bind (.failAt ..) fun _ => .pure _) (.pure _)

theorem itemPayload (itemStart : Nat) (kind : UInt8) :
    Stable (MetadataItem.readPayload itemStart kind) := by
  unfold MetadataItem.readPayload
  refine .ite (Stable.uint16.bind fun _ => (Stable.times _ .uint16).bind fun _ => .pure _) ?_
  refine .ite (Stable.uint32.bind fun _ => .pure _) ?_
  refine .ite (Stable.uint32.bind fun _ => .pure _) ?_
  refine .ite (Stable.uint32.bind fun _ => (Stable.times _ (range _)).bind fun _ => .pure _) ?_
  exact .ite (Stable.utf16String.bind fun _ => .pure _) (.pure _)

theorem item (stop : Nat) : Stable (MetadataItem.read stop) := by
  refine Stable.position.bind fun start => Stable.uint8.bind fun version => ?_
  have hrest : Stable (do
      let kind ← Reader.uint8
      Reader.align 4
      let size ← Reader.uint32
      let itemStop := start + size.toNat
      if stop < itemStop ∨ itemStop < (← Reader.position) then
        Reader.failAt .invalidCustomMetadata start
      let item ← MetadataItem.readPayload start kind
      Reader.seek itemStop
      return item) := by
    refine Stable.uint8.bind fun kind => (Stable.align 4).bind fun _ => Stable.uint32.bind
      fun size => Stable.position.bind fun inside => ?_
    have hpayload := (itemPayload start kind).bind fun item =>
      (Stable.seek (start + size.toNat)).bind fun _ => .pure item
    exact .ite (.bind (.failAt ..) fun _ => hpayload) hpayload
  exact .ite (.bind (.failAt ..) fun _ => hrest) hrest

theorem items (stop : Nat) : Stable (Metadata.readItems stop) :=
  Stable.uint8.bind fun _ => .ite (.pure _)
    (Stable.uint8.bind fun _ => (Stable.align 4).bind fun _ => .times _ (item stop))

theorem asyncInfo : Stable AsyncInfo.read := by
  have hpoint : Stable SyncPoint.read :=
    Stable.uint32.bind fun _ => Stable.uint32.bind fun _ => Stable.uint32.bind fun _ => .pure _
  exact Stable.uint32.bind fun _ => Stable.uint32.bind fun _ => Stable.uint32.bind fun _ =>
    (Stable.times _ hpoint).bind fun _ => .pure _

theorem metadata (stop : Nat) : Stable (Metadata.read stop) :=
  readVendorName.bind fun _ => .ite ((items stop).bind fun _ => .pure _)
    (.ite (asyncInfo.bind fun _ => .pure _) (.pure _))

theorem block (body : OpenMethod) (position : Nat) : Stable (body.readBlock position) := by
  have hfields : Stable (do
      let _parent ← Reader.uint32
      let stop ← Reader.uint32
      let length ← Reader.uint32
      let address ← Reader.uint32
      let _segment ← Reader.uint16
      if address < body.method.address then Reader.failAt .invalidScope position
      return ({ offset := address - body.method.address, length, stop := stop.toNat } :
        OpenScope)) :=
    Stable.uint32.bind fun _ => Stable.uint32.bind fun _ => Stable.uint32.bind fun _ =>
      Stable.uint32.bind fun _ => Stable.uint16.bind fun _ =>
        .ite (.bind (.failAt ..) fun _ => .pure _) (.pure _)
  exact .ite (.bind (.failAt ..) fun _ => hfields) hfields

theorem entry (body : OpenMethod) (position : Nat) (header : RecordHeader) :
    Stable (body.readEntry position header) := by
  unfold OpenMethod.readEntry
  cases header.kind with
  | block => exact (block body position).bind fun _ => .pure _
  | slot => exact slot.bind fun _ => .pure _
  | constant => exact constant.bind fun _ => .pure _
  | importing => exact Stable.terminatedString.bind fun _ => .pure _
  | vendor => exact .ite ((metadata _).bind fun _ => .pure _) (.pure _)
  | scopeEnd | globalMethod | localMethod | other => exact .pure _

theorem methodStart (stop : Nat) (keepNames : Bool) :
    Stable (Method.readStart stop keepNames) := by
  have hname : Stable (Method.readName keepNames) :=
    .ite (.map _ .terminatedString) (.pure _)
  exact Stable.uint32.bind fun _ => Stable.uint32.bind fun _ => Stable.uint32.bind fun _ =>
    Stable.uint32.bind fun _ => Stable.uint32.bind fun _ => Stable.uint32.bind fun _ =>
    Stable.uint32.bind fun _ => Stable.uint32.bind fun _ => Stable.uint16.bind fun _ =>
    Stable.uint8.bind fun _ => Stable.uint16.bind fun _ => hname.bind fun _ =>
    (Stable.seek stop).bind fun _ => .pure _

theorem tokenLine : Stable TokenLine.read :=
  Stable.uint32.bind fun _ => Stable.uint32.bind fun _ => Stable.uint32.bind fun _ =>
    Stable.uint32.bind fun _ => Stable.uint32.bind fun _ => Stable.uint32.bind fun _ => .pure _

end Reader.Stable

/-! ### What is accepted inside the frames -/

/-- Every error is excused. -/
def AnyExcuse : DecodeError → Prop := fun _ => True

theorem Reader.Stable.within_sim {α : Type} {reader : Reader α} (h : reader.Stable) (stop : Nat) :
    ReaderSim AnyExcuse Eq (reader.within stop) reader := by
  intro content position
  have hsplit : content.extract 0 stop ++ content.extract stop content.size = content := by
    rw [ByteArray.extract_append_extract, Nat.zero_min, ByteArray.extract_zero_max_size]
  unfold Reader.within
  cases hcut : reader (content.extract 0 stop) position with
  | failed error stopped => exact .excused _ _ trivial
  | done value next =>
    have hwhole := h.append hcut (content.extract stop content.size)
    rw [hsplit] at hwhole
    rw [hwhole]
    exact .done next rfl

theorem liftRel_eq {α β : Type} (value : α ⊕ β) : Sum.LiftRel Eq Eq value value := by
  cases value with
  | inl value => exact .inl rfl
  | inr value => exact .inr rfl

namespace InFrame

theorem readHeader_sim (limit : Nat) :
    ReaderSim AnyExcuse Eq (readHeader limit) (RecordHeader.read limit) := by
  intro content position
  unfold readHeader
  rw [Reader.bind_apply, Reader.position_apply]
  simp only [Reader.bind_apply]
  cases RecordHeader.read limit content position with
  | failed error stopped => exact .failed ..
  | done header inside =>
    by_cases hshort : header.stop < position + 4
    · simp only [if_pos hshort]
      exact .excused _ _ trivial
    · simp only [if_neg hshort]
      exact .done _ rfl

theorem step_sim (limit : Nat) (body : OpenMethod) :
    ReaderSim AnyExcuse (Sum.LiftRel Eq Eq) (step limit body) (OpenMethod.step limit body) := by
  refine .bind_same fun position => .ite ?_ (.ite ?_ ?_)
  · refine (readHeader_sim limit).bind ?_
    rintro header _ rfl
    refine ((Reader.Stable.entry body position header).within_sim header.stop).bind ?_
    rintro entry _ rfl
    exact .bind_same fun _ => .pure (liftRel_eq _)
  · refine (readHeader_sim limit).bind ?_
    rintro header _ rfl
    exact .ite (.bind_same fun _ => .bind_same fun _ => .pure (liftRel_eq _))
      (.bind_same fun _ => .pure (liftRel_eq _))
  · intro content position
    exact .failed ..

theorem readMethod_sim (stop limit : Nat) (keepNames : Bool) :
    ReaderSim AnyExcuse Eq (readMethod stop limit keepNames)
      (Method.read stop limit keepNames) := by
  refine ((Reader.Stable.methodStart stop keepNames).within_sim stop).bind ?_
  rintro ⟨method, bodyStop⟩ _ rfl
  apply ReaderSim.iterate _ rfl
  rintro body _ rfl
  exact step_sim limit body

theorem readMethodOrSkip_sim (limit : Nat) (keepNames : Bool) (found : Array Method) :
    ReaderSim AnyExcuse Eq (readMethodOrSkip limit keepNames found)
      (ManagedPdb.readMethodOrSkip limit keepNames found) := by
  refine (readHeader_sim limit).bind ?_
  rintro header _ rfl
  cases header.kind with
  | globalMethod | localMethod =>
    refine (readMethod_sim header.stop limit keepNames).bind ?_
    rintro method _ rfl
    exact .pure rfl
  | scopeEnd | vendor | block | slot | importing | constant | other =>
    exact .bind_same fun _ => .pure rfl

theorem readMethods_sim (limit : Nat) (keepNames : Bool) :
    ReaderSim AnyExcuse Eq (readMethods limit keepNames)
      (ManagedPdb.readMethods limit keepNames) := by
  refine (Reader.Stable.readSymbolSignature.within_sim limit).bind ?_
  rintro _ _ -
  have hloop : ReaderSim AnyExcuse Eq
      (Reader.whileBelow limit (readMethodOrSkip limit keepNames) #[])
      (Reader.whileBelow limit (ManagedPdb.readMethodOrSkip limit keepNames) #[]) := by
    refine .whileBelow ?_ rfl
    rintro found _ rfl
    exact readMethodOrSkip_sim limit keepNames found
  refine hloop.bind ?_
  rintro found _ rfl
  exact .pure rfl

theorem readTokenLine_sim (limit : Nat) (found : Array (UInt32 × TokenLine)) :
    ReaderSim AnyExcuse Eq (readTokenLine limit found) (TokenLine.readRecord limit found) := by
  refine (readHeader_sim limit).bind ?_
  rintro header _ rfl
  refine .ite ?_ (.bind_same fun _ => .bind_same fun _ => .pure rfl)
  refine (Reader.Stable.readVendorName.within_sim header.stop).bind ?_
  rintro name _ rfl
  refine .ite ((Reader.Stable.tokenLine.within_sim header.stop).bind ?_)
    (.bind_same fun _ => .bind_same fun _ => .pure rfl)
  rintro line _ rfl
  exact .bind_same fun _ => .bind_same fun _ => .pure rfl

theorem readTokenLines_sim (limit : Nat) :
    ReaderSim AnyExcuse Eq (readTokenLines limit) (TokenLine.readAll limit) := by
  refine (Reader.Stable.readSymbolSignature.within_sim limit).bind ?_
  rintro _ _ -
  have hloop : ReaderSim AnyExcuse Eq (Reader.whileBelow limit (readTokenLine limit) #[])
      (Reader.whileBelow limit (TokenLine.readRecord limit) #[]) := by
    refine .whileBelow ?_ rfl
    rintro found _ rfl
    exact readTokenLine_sim limit found
  refine hloop.bind ?_
  rintro found _ rfl
  exact .pure rfl

end InFrame

/-! ### Rows of frames -/

/-- From `position` on, the region that ends at `limit` is a row of frames.  Each record ends behind
its length, inside the region and the content, and the next one starts there. -/
inductive Framed (limit : Nat) (content : ByteArray) : Nat → Prop
  | done {position : Nat} : limit ≤ position → Framed limit content position
  | record {position inside : Nat} {header : RecordHeader} :
      RecordHeader.read limit content position = .done header inside →
        position + 2 ≤ header.stop → header.stop ≤ limit → header.stop ≤ content.size →
          Framed limit content header.stop → Framed limit content position

variable {limit : Nat} {content : ByteArray} {position next : Nat}

/-- A record in front of a row of frames, when its header was read and its end was reached. -/
theorem Framed.of_header {header : RecordHeader} {inside : Nat}
    (hheader : RecordHeader.read limit content position = .done header inside)
    (hsize : header.stop ≤ content.size) (framed : Framed limit content header.stop) :
    Framed limit content position := by
  obtain ⟨-, -, hstop, hlimit⟩ := Descent.header_eq_done hheader
  exact .record hheader hstop hlimit hsize framed

/-- A step of a method reads one record and goes to its end. -/
theorem OpenMethod.step_frame {body : OpenMethod} {found : OpenMethod ⊕ Method}
    (h : OpenMethod.step limit body content position = .done found next) :
    ∃ header inside, RecordHeader.read limit content position = .done header inside ∧
      next = header.stop ∧ header.stop ≤ content.size := by
  unfold OpenMethod.step at h
  rw [Reader.bind_apply, Reader.position_apply] at h
  simp only [] at h
  by_cases hbefore : position < body.innermost.stop
  · rw [if_pos hbefore] at h
    obtain ⟨header, inside, hheader, h⟩ := Reader.bind_eq_done_iff.mp h
    obtain ⟨entry, _, -, h⟩ := Reader.bind_eq_done_iff.mp h
    obtain ⟨_, stop, hseek, h⟩ := Reader.bind_eq_done_iff.mp h
    obtain ⟨hle, rfl⟩ := Reader.seek_eq_done_iff.mp hseek
    cases h
    exact ⟨header, inside, hheader, rfl, hle⟩
  rw [if_neg hbefore] at h
  by_cases hend : position = body.innermost.stop
  · rw [if_pos hend] at h
    obtain ⟨header, inside, hheader, h⟩ := Reader.bind_eq_done_iff.mp h
    by_cases hkind : header.kind ≠ .scopeEnd
    · rw [if_pos hkind] at h
      cases h
    · rw [if_neg hkind] at h
      obtain ⟨_, stop, hseek, h⟩ := Reader.bind_eq_done_iff.mp h
      obtain ⟨hle, rfl⟩ := Reader.seek_eq_done_iff.mp hseek
      cases h
      exact ⟨header, inside, hheader, rfl, hle⟩
  · rw [if_neg hend] at h
    cases h

theorem Method.framed_of_read {stop : Nat} {keepNames : Bool} {method : Method} {inside : Nat}
    (h : Method.read stop limit keepNames content inside = .done method next)
    (framed : Framed limit content next) :
    stop ≤ content.size ∧ Framed limit content stop := by
  obtain ⟨⟨start, bodyStop⟩, middle, hstart, hloop⟩ := Reader.bind_eq_done_iff.mp h
  obtain ⟨rfl, hle⟩ := Descent.readStart_eq_done hstart
  have hframe : ∀ {body found position next},
      OpenMethod.step limit body content position = .done found next →
        Framed limit content next → Framed limit content position := by
    intro body found position next hstep hnext
    obtain ⟨header, inside, hheader, rfl, hsize⟩ := OpenMethod.step_frame hstep
    exact .of_header hheader hsize hnext
  exact ⟨hle, Reader.iterate_backward (Q := Framed limit content) hframe hframe hloop framed⟩

theorem framed_of_readMethodOrSkip {keepNames : Bool} {found found' : Array Method}
    (h : readMethodOrSkip limit keepNames found content position = .done found' next)
    (framed : Framed limit content next) : Framed limit content position := by
  unfold readMethodOrSkip at h
  obtain ⟨header, inside, hheader, h⟩ := Reader.bind_eq_done_iff.mp h
  cases hkind : header.kind
  case globalMethod | localMethod =>
    rw [hkind] at h
    obtain ⟨method, _, hmethod, h⟩ := Reader.bind_eq_done_iff.mp h
    cases h
    obtain ⟨hsize, hframed⟩ := Method.framed_of_read hmethod framed
    exact .of_header hheader hsize hframed
  all_goals
    rw [hkind] at h
    obtain ⟨_, _, hseek, h⟩ := Reader.bind_eq_done_iff.mp h
    obtain ⟨hle, rfl⟩ := Reader.seek_eq_done_iff.mp hseek
    cases h
    exact .of_header hheader hle framed

theorem framed_of_readRecord {found found' : Array (UInt32 × TokenLine)}
    (h : TokenLine.readRecord limit found content position = .done found' next)
    (framed : Framed limit content next) : Framed limit content position := by
  unfold TokenLine.readRecord at h
  obtain ⟨header, inside, hheader, h⟩ := Reader.bind_eq_done_iff.mp h
  -- whatever the record holds, the last move is to its end
  have hlast : ∃ found'' middle, (do
      Reader.seek header.stop
      return found'' : Reader (Array (UInt32 × TokenLine))) content middle = .done found' next := by
    by_cases hkind : header.kind = .vendor
    · rw [if_pos hkind] at h
      obtain ⟨name, _, -, h⟩ := Reader.bind_eq_done_iff.mp h
      by_cases hname : name = tokenLineFormat
      · rw [if_pos hname] at h
        obtain ⟨line, _, -, h⟩ := Reader.bind_eq_done_iff.mp h
        exact ⟨_, _, h⟩
      · rw [if_neg hname] at h
        exact ⟨_, _, h⟩
    · rw [if_neg hkind] at h
      exact ⟨_, _, h⟩
  obtain ⟨found'', middle, h⟩ := hlast
  obtain ⟨_, _, hseek, h⟩ := Reader.bind_eq_done_iff.mp h
  obtain ⟨hle, rfl⟩ := Reader.seek_eq_done_iff.mp hseek
  cases h
  exact .of_header hheader hle framed

theorem readSymbolSignature_eq_done {value : Unit}
    (h : readSymbolSignature content position = .done value next) : next = 4 := by
  unfold readSymbolSignature at h
  obtain ⟨_, start, hseek, h⟩ := Reader.bind_eq_done_iff.mp h
  obtain ⟨-, rfl⟩ := Reader.seek_eq_done_iff.mp hseek
  obtain ⟨signature, middle, hsignature, h⟩ := Reader.bind_eq_done_iff.mp h
  obtain ⟨number, stop, hword, hsignature⟩ := Reader.bind_eq_done_iff.mp hsignature
  obtain ⟨-, -, rfl⟩ := Reader.word_eq_done_iff.mp hword
  cases hsignature
  by_cases hwrong : UInt32.ofNat number ≠ symbolSignature
  · rw [if_pos hwrong] at h
    cases h
  · rw [if_neg hwrong] at h
    cases h
    rfl

/-- The records of a region that is decoded are a row of frames behind the signature.  The payloads
are not held to these frames; what is accepted when they are is decoded in the same way. -/
theorem readMethods_frames (limit : Nat) (keepNames : Bool) (content : ByteArray)
    (position : Nat) :
    (∀ methods next, readMethods limit keepNames content position = .done methods next →
      Framed limit content 4) ∧
    (∀ lines next, TokenLine.readAll limit content position = .done lines next →
      Framed limit content 4) ∧
    (∀ methods next, InFrame.readMethods limit keepNames content position = .done methods next →
      readMethods limit keepNames content position = .done methods next) ∧
    (∀ lines next, InFrame.readTokenLines limit content position = .done lines next →
      TokenLine.readAll limit content position = .done lines next) := by
  refine ⟨?_, ?_, ?_, ?_⟩
  · intro methods next h
    obtain ⟨_, start, hsignature, h⟩ := Reader.bind_eq_done_iff.mp h
    obtain ⟨found, _, hloop, -⟩ := Reader.bind_eq_done_iff.mp h
    obtain rfl := readSymbolSignature_eq_done hsignature
    exact Reader.whileBelow_backward (fun _ => framed_of_readMethodOrSkip) .done hloop
  · intro lines next h
    obtain ⟨_, start, hsignature, h⟩ := Reader.bind_eq_done_iff.mp h
    obtain ⟨found, _, hloop, -⟩ := Reader.bind_eq_done_iff.mp h
    obtain rfl := readSymbolSignature_eq_done hsignature
    exact Reader.whileBelow_backward (fun _ => framed_of_readRecord) .done hloop
  · intro methods next h
    obtain ⟨_, hdone, rfl⟩ := (InFrame.readMethods_sim limit keepNames).exists_done h
    exact hdone
  · intro lines next h
    obtain ⟨_, hdone, rfl⟩ := (InFrame.readTokenLines_sim limit).exists_done h
    exact hdone

/-- A method with a slot and with a block that imports a namespace; each record is as long as it
says. -/
def fullRecords : ByteArray := ⟨#[
  4, 0, 0, 0, 42, 0, 42, 17, 0, 0, 0, 0, 108, 0, 0, 0, 0, 0, 0, 0, 32, 0, 0, 0, 0, 0, 0, 0, 32,
  0, 0, 0, 1, 0, 0, 6, 16, 0, 0, 0, 1, 0, 0, 0, 0, 97, 0, 0, 22, 0, 32, 17, 0, 0, 0, 0, 1, 0, 0,
  17, 0, 0, 0, 0, 0, 0, 0, 0, 120, 0, 0, 0, 22, 0, 3, 17, 0, 0, 0, 0, 104, 0, 0, 0, 8, 0, 0, 0,
  16, 0, 0, 0, 1, 0, 0, 0, 6, 0, 36, 17, 78, 0, 0, 0, 2, 0, 6, 0, 2, 0, 6, 0]⟩

/-- All records stay in their frames, so that being held to them changes nothing. -/
theorem readMethods_frames_fullRecords :
    ∃ methods next, InFrame.readMethods 112 true fullRecords 0 = .done methods next ∧
      readMethods 112 true fullRecords 0 = .done methods next ∧
      Framed 112 fullRecords 4 ∧
      methods.map (fun method => (method.token,
        method.scope.slots.map Slot.name ++ method.scope.scopes.flatMap Scope.namespaces))
        = [(0x06000001, ["x", "N"])] := by
  have hrun : ((InFrame.readMethods 112 true).run fullRecords).toOption.map
      (List.map fun method => (method.token,
        method.scope.slots.map Slot.name ++ method.scope.scopes.flatMap Scope.namespaces))
      = some [(0x06000001, ["x", "N"])] := by decide +kernel
  cases hheld : (InFrame.readMethods 112 true).run fullRecords with
  | error error =>
    rw [hheld] at hrun
    cases hrun
  | ok methods =>
    rw [hheld] at hrun
    obtain ⟨next, hheld⟩ := Reader.run_eq_ok_iff.mp hheld
    obtain ⟨hframed, -, hsame, -⟩ := readMethods_frames 112 true fullRecords 0
    have hread := hsame methods next hheld
    exact ⟨methods, next, hheld, hread, hframed methods next hread, Option.some.inj hrun⟩

/-- A method whose only record is a slot of length two, in front of other bytes. -/
def shortSlotRegion : ByteArray := ⟨#[
  4, 0, 0, 0, 42, 0, 42, 17, 0, 0, 0, 0, 72, 0, 0, 0, 0, 0, 0, 0, 32, 0, 0, 0, 0, 0, 0, 0, 32,
  0, 0, 0, 1, 0, 0, 6, 0, 1, 0, 0, 1, 0, 0, 0, 0, 77, 0, 0, 2, 0, 32, 17, 18, 0, 1, 17, 0, 0,
  0, 0, 0, 0, 0, 0, 0, 0, 97, 98, 99, 0, 0, 0, 2, 0, 6, 0]⟩

/-- The record of the slot ends behind its kind, but the slot is read from the bytes that follow.
Held to its frame, the record is refused. -/
theorem readMethods_short_slot :
    (match readMethods 76 true shortSlotRegion 0 with
      | .done [method] _ => method.scope.slots
      | _ => []) = [⟨0x11010012, 0, 0, 0, 0x6261, "c"⟩] ∧
    (match RecordHeader.read 76 shortSlotRegion 48 with
      | .done header inside => some (header, inside)
      | .failed .. => none) = some (⟨.slot, 52⟩, 52) ∧
    (match InFrame.readMethods 76 true shortSlotRegion 0 with
      | .done .. => none
      | .failed error _ => some error) = some (.ofKindAt .unexpectedEnd 52) := by
  exact ⟨by decide +kernel, by decide +kernel, by decide +kernel⟩

end ManagedPdb
