import ManagedPdb.Proofs.Machine.Field
import ManagedPdb.Symbol.Body

/-!
# Symbol records on a machine

A record ends at a sum in 64 bits, and so does an item of custom metadata.  The end of a record is
behind its start, so that no loop over records is repeated for ever.
-/

namespace ManagedPdb

variable {α : Type}

namespace Machine

/-! ### Frames -/

def recordHeader (limit : Nat) : Machine RecordHeader := do
  let start ← position
  let length ← uint16
  let code ← uint16
  let behindLength ← Checked.add 64 start 2
  let stop ← Checked.add 64 behindLength length.toNat
  if limit < stop then failAt .unexpectedEnd start
  return { kind := .ofCode code, stop }

def symbolSignature : Machine Unit := do
  seek 0
  let signature ← uint32
  if signature ≠ ManagedPdb.symbolSignature then failAt (.invalidModuleSignature signature) 0

def vendorName : Machine String := do
  let start ← position
  let vendor ← guid
  if vendor ≠ managedVendor then failAt .unknownOemVendor start
  let _typeIndex ← uint32
  utf16String

/-! ### Entries of scopes -/

def constantValue : Machine ConstantValue := do
  let position ← position
  let tag ← uint16
  if tag < 0x8000 then return .uint16 tag
  else if tag = 0x8000 then return .int8 (← int8)
  else if tag = 0x8001 then return .int16 (← int16)
  else if tag = 0x8002 then return .uint16 (← uint16)
  else if tag = 0x8003 then return .int32 (← int32)
  else if tag = 0x8004 then return .uint32 (← uint32)
  else if tag = 0x8005 then return .float32 (← uint32)
  else if tag = 0x8006 then return .float64 (← uint64)
  else if tag = 0x8009 then return .int64 (← int64)
  else if tag = 0x800a then return .uint64 (← uint64)
  else if tag = 0x8010 then return .text (← countedString)
  else if tag = 0x8019 then return .decimal (← decimal)
  else failAt (.invalidConstantTag tag) position

def constant : Machine Constant :=
  return { token := ← uint32, value := ← constantValue, name := ← terminatedString }

def slot : Machine Slot :=
  return { index := ← uint32, typeToken := ← uint32, address := ← uint32, segment := ← uint16
           flags := ← uint16, name := ← terminatedString }

/-! ### Custom metadata -/

def range (itemStart : Nat) : Machine IteratorScope := do
  let offset ← uint32
  let stop ← uint32
  -- a difference that does not fit is an error and no fault
  match Checked.subUInt32 stop offset with
  | none => failAt .invalidCustomMetadata itemStart
  | some length => return { offset, length }

def itemPayload (itemStart : Nat) (kind : UInt8) : Machine MetadataItem := do
  if kind = 0 then
    let count ← uint16
    return .usingCounts (← times count.toNat uint16)
  else if kind = 1 then return .forward (← uint32)
  else if kind = 2 then return .forwardToModule (← uint32)
  else if kind = 3 then
    let count ← uint32
    return .iteratorScopes (← times count.toNat (range itemStart))
  else if kind = 4 then return .iteratorClass (← utf16String)
  else return .unknown kind

def metadataItem (stop : Nat) : Machine MetadataItem := do
  let start ← position
  let version ← uint8
  if version ≠ metadataVersion then failAt (.unsupportedMetadataVersion version) start
  let kind ← uint8
  align 4
  let size ← uint32
  let itemStop ← Checked.add 64 start size.toNat
  if stop < itemStop ∨ itemStop < (← position) then failAt .invalidCustomMetadata start
  let item ← itemPayload start kind
  seek itemStop
  return item

def syncPoint : Machine SyncPoint :=
  return { syncOffset := ← uint32, continuationMethod := ← uint32, continuationOffset := ← uint32 }

def asyncInfo : Machine AsyncInfo := do
  let kickoffMethod ← uint32
  let catchHandlerOffset ← uint32
  let count ← uint32
  let syncPoints ← times count.toNat syncPoint
  return { kickoffMethod, catchHandlerOffset, syncPoints }

def metadataItems (stop : Nat) : Machine (List MetadataItem) := do
  let version ← uint8
  if version ≠ metadataVersion then return []
  else
    let count ← uint8
    align 4
    times count.toNat (metadataItem stop)

def metadataBody (stop : Nat) (name : String) : Machine Metadata := do
  if name = "MD2" then return .items (← metadataItems stop)
  else if name = "asyncMethodInfo" then return .asynchronous (← asyncInfo)
  else return .unknown name

def metadata (stop : Nat) : Machine Metadata := do
  let name ← vendorName
  metadataBody stop name

/-! ### Methods -/

def methodName (keepNames : Bool) : Machine (Option String) :=
  if keepNames then some <$> terminatedString else pure none

def methodStart (stop : Nat) (keepNames : Bool) : Machine (Method × Nat) := do
  let _parent ← uint32
  let bodyStop ← uint32
  let _next ← uint32
  let length ← uint32
  let _debugStart ← uint32
  let _debugStop ← uint32
  let token ← uint32
  let address ← uint32
  let segment ← uint16
  let flags ← uint8
  let _returnRegister ← uint16
  let name ← methodName keepNames
  seek stop
  let method := {
    token, segment, address, length, flags, name
    scope := default
    usingCounts := []
    forwardToken := none
    forwardModuleToken := none
    iteratorClass := none
    iteratorScopes := []
    asyncInfo := none
    lines := [] }
  return (method, bodyStop.toNat)

def block (body : OpenMethod) (start : Nat) : Machine OpenScope := do
  if maxOpenScopes ≤ body.depth then failAt (.scopeTooDeep body.depth) start
  let _parent ← uint32
  let stop ← uint32
  let length ← uint32
  let address ← uint32
  let _segment ← uint16
  match Checked.subUInt32 address body.method.address with
  | none => failAt .invalidScope start
  | some offset => return { offset, length, stop := stop.toNat }

def bodyEntry (body : OpenMethod) (start : Nat) (header : RecordHeader) : Machine Entry := do
  match header.kind with
  | .block => return .block (← block body start)
  | .slot => return .slot (← slot)
  | .constant => return .constant (← constant)
  | .importing => return .importing (← terminatedString)
  | .vendor =>
    if body.depth = 1 then return .metadata (← metadata header.stop) else return .skipped
  | _ => return .skipped

def bodyStep (limit : Nat) (body : OpenMethod) : Machine (OpenMethod ⊕ Method) := do
  let position ← position
  if position < body.innermost.stop then
    let header ← recordHeader limit
    let entry ← bodyEntry body position header
    seek header.stop
    return .inl (body.add entry)
  else if position = body.innermost.stop then
    let header ← recordHeader limit
    if header.kind ≠ .scopeEnd then failAt (.missingEnd header.kind.code) position
    seek header.stop
    return body.closeInnermost
  else
    failAt .notAtEnd position

def method (stop limit : Nat) (keepNames : Bool) : Machine Method := do
  let start ← methodStart stop keepNames
  iterate (bodyStep limit) (OpenMethod.ofStart start.1 start.2)

def methodOrSkip (limit : Nat) (keepNames : Bool) (found : Array Method) :
    Machine (Array Method) := do
  let header ← recordHeader limit
  match header.kind with
  | .globalMethod | .localMethod => return found.push (← method header.stop limit keepNames)
  | _ =>
    seek header.stop
    return found

def methods (limit : Nat) (keepNames : Bool) : Machine (List Method) := do
  symbolSignature
  let found ← whileBelow limit (methodOrSkip limit keepNames) #[]
  return found.toList

end Machine

/-! ### Frames -/

/-- A record ends behind its start. -/
theorem Agrees.recordHeader {buffer : ByteArray} {length start : Nat}
    (staged : Staged buffer length) (inside : start ≤ length) (limit : Nat) :
    Agrees buffer length start (Machine.recordHeader limit) (RecordHeader.read limit)
      fun header _ => start < header.stop := by
  have hshort := staged.short
  refine .position_bind ((Takes.uint16.agrees staged inside).bind fun size _ hinside _ => ?_)
  refine (Takes.uint16.agrees staged hinside).bind fun code _ hinside _ => ?_
  have hsize := size.toNat_lt
  refine .lift_bind (Checked.add_eq (by omega)) (.lift_bind (Checked.add_eq (by omega)) ?_)
  exact .ite (fun _ => .failAt_bind _ _) fun _ => .pure hinside (by simp; omega)

theorem Advances.recordHeader_bind {limit : Nat} {next : RecordHeader → Machine α}
    {next' : RecordHeader → Reader α}
    (rest : ∀ header : RecordHeader, Reaches header.stop (next header) (next' header)) :
    Advances (Machine.recordHeader limit >>= next) (RecordHeader.read limit >>= next') where
  agrees staged inside :=
    (Agrees.recordHeader staged inside limit).bind fun header _ hinside hstart =>
      ((rest header).agrees staged hinside).mono fun _ _ _ hstop => Nat.lt_of_lt_of_le hstart hstop

theorem Matches.symbolSignature : Matches Machine.symbolSignature readSymbolSignature := by
  refine (seek 0).bind fun _ => Takes.uint32.toMatches.bind fun signature => ?_
  exact .ite (fun _ => .failAt _ _) fun _ => Matches.pure ()

namespace Follows

theorem vendorName : Follows Machine.vendorName readVendorName := by
  refine .position_bind fun start _ => guid.bind fun vendor => ?_
  exact .ite (fun _ => .failAt_bind _ _) fun _ => uint32.bind fun _ => utf16String

/-! ### Entries of scopes -/

theorem constantValue : Follows Machine.constantValue ConstantValue.read := by
  refine .position_bind fun start _ => uint16.bind fun tag => ?_
  refine .ite (fun _ => Follows.pure _) fun _ => ?_
  refine .ite (fun _ => int8.map _) fun _ => ?_
  refine .ite (fun _ => int16.map _) fun _ => ?_
  refine .ite (fun _ => uint16.map _) fun _ => ?_
  refine .ite (fun _ => int32.map _) fun _ => ?_
  refine .ite (fun _ => uint32.map _) fun _ => ?_
  refine .ite (fun _ => uint32.map _) fun _ => ?_
  refine .ite (fun _ => uint64.map _) fun _ => ?_
  refine .ite (fun _ => int64.map _) fun _ => ?_
  refine .ite (fun _ => uint64.map _) fun _ => ?_
  refine .ite (fun _ => countedString.map _) fun _ => ?_
  exact .ite (fun _ => decimal.map _) fun _ => .failAt _ _

theorem constant : Follows Machine.constant Constant.read :=
  uint32.bind fun _ => constantValue.bind fun _ => terminatedString.bind fun _ => .pure _

theorem slot : Follows Machine.slot Slot.read :=
  uint32.bind fun _ => uint32.bind fun _ => uint32.bind fun _ => uint16.bind fun _ =>
    uint16.bind fun _ => terminatedString.bind fun _ => .pure _

/-! ### Custom metadata -/

theorem range (itemStart : Nat) :
    Follows (Machine.range itemStart) (MetadataItem.readRange itemStart) := by
  refine uint32.bind fun offset => uint32.bind fun stop => ?_
  by_cases h : stop < offset
  · rw [Checked.subUInt32, if_neg (UInt32.not_le.mpr h), if_pos h]
    exact .failAt _ _
  · rw [Checked.subUInt32, if_pos (UInt32.not_lt.mp h), if_neg h]
    exact Follows.pure _

theorem itemPayload (itemStart : Nat) (kind : UInt8) :
    Follows (Machine.itemPayload itemStart kind) (MetadataItem.readPayload itemStart kind) := by
  refine .ite (fun _ => uint16.bind fun count => (uint16.times count.toNat).map _) fun _ => ?_
  refine .ite (fun _ => uint32.map _) fun _ => .ite (fun _ => uint32.map _) fun _ => ?_
  refine .ite (fun _ => uint32.bind fun count => ?_) fun _ => ?_
  · exact ((range itemStart).times count.toNat).map _
  · exact .ite (fun _ => utf16String.map _) fun _ => Follows.pure _

theorem metadataItem (stop : Nat) :
    Follows (Machine.metadataItem stop) (MetadataItem.read stop) := by
  refine of_reaches fun start hstart => Reaches.bind uint8.toMatches fun version => ?_
  refine .ite (fun _ => .failAt_bind _ _) fun _ => Reaches.bind uint8.toMatches fun kind => ?_
  refine Reaches.bind align_four.toMatches fun _ => Reaches.bind uint32.toMatches fun size => ?_
  have hsize := size.toNat_lt
  refine .lift_bind (Checked.add_eq (by omega)) (.position_bind fun _ _ => ?_)
  refine .ite (fun _ => .failAt_bind _ _) fun _ => ?_
  refine Reaches.bind (itemPayload start kind).toMatches fun item => ?_
  exact Reaches.seek_return (Nat.le_add_right _ _) item

theorem syncPoint : Follows Machine.syncPoint SyncPoint.read :=
  uint32.bind fun _ => uint32.bind fun _ => uint32.bind fun _ => .pure _

theorem asyncInfo : Follows Machine.asyncInfo AsyncInfo.read :=
  uint32.bind fun _ => uint32.bind fun _ => uint32.bind fun count =>
    (syncPoint.times count.toNat).map _

theorem metadataItems (stop : Nat) :
    Follows (Machine.metadataItems stop) (Metadata.readItems stop) := by
  refine uint8.bind fun version => .ite (fun _ => Follows.pure []) fun _ => ?_
  exact uint8.bind fun count => align_four.bind fun _ => (metadataItem stop).times count.toNat

theorem metadata (stop : Nat) : Follows (Machine.metadata stop) (Metadata.read stop) := by
  refine vendorName.bind fun name => .ite (fun _ => (metadataItems stop).map _) fun _ => ?_
  exact .ite (fun _ => asyncInfo.map _) fun _ => Follows.pure _

/-! ### Methods -/

theorem methodName (keepNames : Bool) :
    Follows (Machine.methodName keepNames) (Method.readName keepNames) :=
  .ite (fun _ => terminatedString.map some) fun _ => Follows.pure none

theorem block (body : OpenMethod) (start : Nat) :
    Follows (Machine.block body start) (body.readBlock start) := by
  refine .ite (fun _ => .failAt_bind _ _) fun _ => uint32.bind fun _ => uint32.bind fun stop => ?_
  refine uint32.bind fun length => uint32.bind fun address => uint16.bind fun _ => ?_
  by_cases h : address < body.method.address
  · rw [Checked.subUInt32, if_neg (UInt32.not_le.mpr h), if_pos h]
    exact .failAt _ _
  · rw [Checked.subUInt32, if_pos (UInt32.not_lt.mp h), if_neg h]
    exact Follows.pure _

theorem bodyEntry (body : OpenMethod) (start : Nat) (header : RecordHeader) :
    Follows (Machine.bodyEntry body start header) (body.readEntry start header) := by
  rw [Machine.bodyEntry, OpenMethod.readEntry]
  cases header.kind with
  | block => exact (block body start).map _
  | slot => exact slot.map _
  | constant => exact constant.map _
  | importing => exact terminatedString.map _
  | vendor => exact .ite (fun _ => (metadata header.stop).map _) fun _ => Follows.pure _
  | _ => exact Follows.pure _

end Follows

theorem Reaches.methodStart (stop : Nat) (keepNames : Bool) :
    Reaches stop (Machine.methodStart stop keepNames) (Method.readStart stop keepNames) := by
  have hword : ∀ {α : Type} {next : UInt32 → Machine α} {next' : UInt32 → Reader α},
      (∀ value, Reaches stop (next value) (next' value)) →
      Reaches stop (Machine.uint32 >>= next) (Reader.uint32 >>= next') :=
    fun rest => Reaches.bind Takes.uint32.toMatches rest
  refine hword fun _ => hword fun bodyStop => hword fun _ => hword fun length => ?_
  refine hword fun _ => hword fun _ => hword fun token => hword fun address => ?_
  refine Reaches.bind Takes.uint16.toMatches fun segment => ?_
  refine Reaches.bind Takes.uint8.toMatches fun flags => ?_
  refine Reaches.bind Takes.uint16.toMatches fun _ => ?_
  refine Reaches.bind (Follows.methodName keepNames).toMatches fun name => ?_
  exact Reaches.seek_return (Nat.le_refl stop) _

theorem Advances.bodyStep (limit : Nat) (body : OpenMethod) :
    Advances (Machine.bodyStep limit body) (body.step limit) := by
  refine .position_bind fun start _ => .ite (fun _ => ?_) fun _ => .ite (fun _ => ?_) fun _ => ?_
  · refine recordHeader_bind fun header => ?_
    refine Reaches.bind (Follows.bodyEntry body start header).toMatches fun entry => ?_
    exact Reaches.seek_return (Nat.le_refl _) _
  · refine recordHeader_bind fun header => .ite (fun _ => .failAt_bind _ _) fun _ => ?_
    exact Reaches.seek_return (Nat.le_refl _) _
  · exact .failAt _ _

theorem Reaches.method (stop limit : Nat) (keepNames : Bool) :
    Reaches stop (Machine.method stop limit keepNames) (Method.read stop limit keepNames) :=
  (methodStart stop keepNames).trans (fun start =>
    Follows.iterate (Advances.bodyStep limit) (OpenMethod.ofStart start.1 start.2)) Nat.le_trans

theorem Advances.methodOrSkip (limit : Nat) (keepNames : Bool) (found : Array Method) :
    Advances (Machine.methodOrSkip limit keepNames found)
      (readMethodOrSkip limit keepNames found) := by
  refine recordHeader_bind fun header => ?_
  have hmethod := (Reaches.method header.stop limit keepNames).map found.push
  have hskip := Reaches.seek_return (Nat.le_refl header.stop) found
  cases hkind : header.kind with
  | globalMethod => exact hmethod
  | localMethod => exact hmethod
  | _ => exact hskip

theorem size_of_readMethodOrSkip {limit : Nat} {keepNames : Bool} {found value : Array Method}
    {content : ByteArray} {start stop : Nat}
    (h : readMethodOrSkip limit keepNames found content start = .done value stop) :
    value.size ≤ found.size + 1 := by
  obtain ⟨header, middle, -, h⟩ := Reader.bind_eq_done_iff.mp h
  have hmethod : ∀ {reader : Reader Method},
      (do return found.push (← reader)) content middle = .done value stop →
      value.size ≤ found.size + 1 := by
    intro reader h
    obtain ⟨method, _, -, h⟩ := Reader.bind_eq_done_iff.mp h
    cases h
    rw [Array.size_push]
  have hskip : (do Reader.seek header.stop; return found) content middle = .done value stop →
      value.size ≤ found.size + 1 := by
    intro h
    obtain ⟨_, _, -, h⟩ := Reader.bind_eq_done_iff.mp h
    cases h
    exact Nat.le_succ _
  cases hkind : header.kind with
  | globalMethod =>
    rw [hkind] at h
    exact hmethod h
  | localMethod =>
    rw [hkind] at h
    exact hmethod h
  | _ =>
    rw [hkind] at h
    exact hskip h

/-- Each method takes a byte at least, so that there are not too many to be counted. -/
theorem Agrees.methods {buffer : ByteArray} {length start : Nat} (staged : Staged buffer length)
    (inside : start ≤ length) (limit : Nat) (keepNames : Bool) :
    Agrees buffer length start (Machine.methods limit keepNames) (readMethods limit keepNames)
      fun methods _ => methods.length < 2 ^ 32 := by
  have hshort := staged.short
  refine (Matches.symbolSignature.agrees staged inside).bind fun _ middle hinside _ => ?_
  refine (Agrees.whileBelow staged (fun found stop => found.size ≤ stop) ?_ hinside
    (Nat.zero_le _)).bind fun found stop hinside hfound => ?_
  · -- the position is never below the number of methods
    intro found position hinside _ hsize
    refine (((Advances.methodOrSkip limit keepNames found).agrees staged hinside).and
      size_of_readMethodOrSkip).mono fun value stop _ hpost => ⟨hpost.1, ?_⟩
    omega
  · refine .pure hinside ?_
    rw [Array.length_toList]
    omega

end ManagedPdb
