import ManagedPdb.Proofs.Source.Description
import ManagedPdb.Proofs.Symbol.Brackets
import ManagedPdb.Proofs.Symbol.Payload
import ManagedPdb.TokenLine

/-!
# Token lines of a symbol region

The ranges of a region are what its records of the format `TSLI` hold, in the order in which these
stand; no other record says anything about tokens (`TokenLine.readAll_eq_ok`).  What a writer has
been told about tokens is read back in the order in which it was told, whatever else was written
between (`TokenLine.readAll_written`).
-/

namespace ManagedPdb

variable {limit start position next : Nat} {content : ByteArray}

/-! ### Records -/

namespace TokenLine

/-- The token and the range in the six words at a place. -/
def storedAt (content : ByteArray) (place : Nat) : UInt32 × TokenLine :=
  let word (index : Nat) := UInt32.ofNat (LittleEndian.read content (place + 4 * index) 4)
  (word 0, { fileId := word 1, file := none, line := word 2, column := word 3, endLine := word 4,
             endColumn := word 5 })

theorem read_eq_done {place : Nat} {entry : UInt32 × TokenLine}
    (h : read content place = .done entry next) : entry = storedAt content place := by
  obtain ⟨token, _, htoken, h⟩ := Reader.bind_eq_done_iff.mp h
  obtain ⟨-, rfl, rfl⟩ := Reader.uint32_eq_done htoken
  obtain ⟨fileId, _, hfileId, h⟩ := Reader.bind_eq_done_iff.mp h
  obtain ⟨-, rfl, rfl⟩ := Reader.uint32_eq_done hfileId
  obtain ⟨line, _, hline, h⟩ := Reader.bind_eq_done_iff.mp h
  obtain ⟨-, rfl, rfl⟩ := Reader.uint32_eq_done hline
  obtain ⟨column, _, hcolumn, h⟩ := Reader.bind_eq_done_iff.mp h
  obtain ⟨-, rfl, rfl⟩ := Reader.uint32_eq_done hcolumn
  obtain ⟨endLine, _, hendLine, h⟩ := Reader.bind_eq_done_iff.mp h
  obtain ⟨-, rfl, rfl⟩ := Reader.uint32_eq_done hendLine
  obtain ⟨endColumn, _, hendColumn, h⟩ := Reader.bind_eq_done_iff.mp h
  obtain ⟨-, rfl, rfl⟩ := Reader.uint32_eq_done hendColumn
  cases h
  rfl

end TokenLine

namespace RegionRecord

/-- The format of a vendor record and the place behind its name. -/
def format? (content : ByteArray) (record : RegionRecord) : Option (String × Nat) :=
  if record.header.kind = .vendor then
    match readVendorName content (record.start + 4) with
    | .done name inside => some (name, inside)
    | .failed .. => none
  else none

/-- The token and the range that a record holds, if it has the format for them. -/
def tokenLine? (content : ByteArray) (record : RegionRecord) : Option (UInt32 × TokenLine) :=
  (record.format? content).bind fun format =>
    if format.1 = tokenLineFormat then some (TokenLine.storedAt content format.2) else none

/-- A vendor record is one of the known vendor. -/
def VendorKnown (content : ByteArray) (record : RegionRecord) : Prop :=
  record.header.kind = .vendor → Guid.ofBytes content (record.start + 4) = managedVendor

end RegionRecord

theorem vendor_of_readVendorName {name : String}
    (h : readVendorName content position = .done name next) :
    Guid.ofBytes content position = managedVendor := by
  unfold readVendorName at h
  obtain ⟨_, _, hstart, h⟩ := Reader.bind_eq_done_iff.mp h
  cases hstart
  obtain ⟨vendor, _, hvendor, h⟩ := Reader.bind_eq_done_iff.mp h
  obtain ⟨rfl, -⟩ := Reader.guid_eq_done hvendor
  by_cases hknown : Guid.ofBytes content position ≠ managedVendor
  · rw [if_pos hknown] at h
    cases h
  · exact not_not.mp hknown

namespace TokenLine

/-- A step reads one record, adds what it holds and goes to its end. -/
theorem readRecord_eq_done {found found' : Array (UInt32 × TokenLine)}
    (h : readRecord limit found content position = .done found' next) :
    ∃ header inside, RecordHeader.read limit content position = .done header inside ∧
      next = header.stop ∧ header.stop ≤ content.size ∧
      found'.toList = found.toList ++ (RegionRecord.tokenLine? content ⟨position, header⟩).toList ∧
      RegionRecord.VendorKnown content ⟨position, header⟩ := by
  unfold readRecord at h
  obtain ⟨header, inside, hheader, h⟩ := Reader.bind_eq_done_iff.mp h
  obtain ⟨rfl, -⟩ := Descent.header_eq_done hheader
  refine ⟨header, position + 4, hheader, ?_⟩
  by_cases hkind : header.kind = .vendor
  · rw [if_pos hkind] at h
    obtain ⟨name, behind, hname, h⟩ := Reader.bind_eq_done_iff.mp h
    have hknown := vendor_of_readVendorName hname
    have hformat : RegionRecord.format? content ⟨position, header⟩ = some (name, behind) := by
      simp only [RegionRecord.format?, if_pos hkind, hname]
    by_cases htokens : name = tokenLineFormat
    · rw [if_pos htokens] at h
      obtain ⟨entry, _, hentry, h⟩ := Reader.bind_eq_done_iff.mp h
      obtain ⟨rfl, hnext, hsize⟩ := Reader.seek_return_eq_done h
      refine ⟨hnext, hsize, ?_, fun _ => hknown⟩
      rw [RegionRecord.tokenLine?, hformat, Option.bind_some, if_pos htokens, read_eq_done hentry,
        Array.toList_push]
      rfl
    · rw [if_neg htokens] at h
      obtain ⟨rfl, hnext, hsize⟩ := Reader.seek_return_eq_done h
      refine ⟨hnext, hsize, ?_, fun _ => hknown⟩
      rw [RegionRecord.tokenLine?, hformat, Option.bind_some, if_neg htokens]
      exact (List.append_nil _).symm
  · rw [if_neg hkind] at h
    obtain ⟨rfl, hnext, hsize⟩ := Reader.seek_return_eq_done h
    refine ⟨hnext, hsize, ?_, fun hvendor => absurd hvendor hkind⟩
    rw [RegionRecord.tokenLine?, RegionRecord.format?, if_neg hkind]
    exact (List.append_nil _).symm

/-- A run adds what the records hold that are left, in their order. -/
theorem whileBelow_eq_done {found found' : Array (UInt32 × TokenLine)}
    (h : Reader.whileBelow limit (readRecord limit) found content position = .done found' next) :
    found'.toList = found.toList
        ++ (recordsFrom limit content position).filterMap (RegionRecord.tokenLine? content) ∧
      Framed limit content position ∧
      ∀ record ∈ recordsFrom limit content position, record.VendorKnown content := by
  induction hlength : content.size - position using Nat.strongRecOn
    generalizing found position with
  | ind _ ih =>
    subst hlength
    rcases Reader.whileBelow_eq_done h with
      ⟨hstop, rfl, -⟩ | ⟨state, middle, hfirst, hlt, hle, hrest⟩
    · rw [recordsFrom_of_le hstop]
      exact ⟨(List.append_nil _).symm, .done hstop, nofun⟩
    · obtain ⟨header, inside, hheader, rfl, hsize, hfound, hknown⟩ := readRecord_eq_done hfirst
      obtain ⟨hall, framed, hothers⟩ := ih _ (by omega) hrest rfl
      rw [recordsFrom_of_header hheader hsize]
      refine ⟨?_, .of_header hheader hsize framed, List.forall_mem_cons.mpr ⟨hknown, hothers⟩⟩
      rw [hall, hfound, List.append_assoc]
      cases hrecord : RegionRecord.tokenLine? content ⟨position, header⟩ with
      | none => rw [List.filterMap_cons_none hrecord]; rfl
      | some entry => rw [List.filterMap_cons_some hrecord]; rfl

/-- The ranges of a region are those of its records. -/
theorem readAll_eq_ok {ranges : List (UInt32 × TokenLine)}
    (h : (readAll limit).run content = .ok ranges) :
    ranges = (recordsFrom limit content 4).filterMap (RegionRecord.tokenLine? content) ∧
      Framed limit content 4 ∧
      ∀ record ∈ recordsFrom limit content 4, record.VendorKnown content := by
  obtain ⟨last, h⟩ := Reader.run_eq_ok_iff.mp h
  obtain ⟨_, middle, hsignature, h⟩ := Reader.bind_eq_done_iff.mp h
  obtain ⟨found, _, hloop, h⟩ := Reader.bind_eq_done_iff.mp h
  cases h
  obtain rfl := readSymbolSignature_eq_done hsignature
  exact whileBelow_eq_done hloop

end TokenLine

/-! ### What commands write -/

/-- What is related to a row in two parts and an item is such a row itself. -/
theorem exists_split_of_forall₂ {α β : Type} {Related : α → β → Prop} {before after : List α}
    {item : α} {row : List β} (h : List.Forall₂ Related (before ++ item :: after) row) :
    ∃ front piece back, List.Forall₂ Related before front ∧ Related item piece ∧
      List.Forall₂ Related after back ∧ row = front ++ piece :: back := by
  induction before generalizing row with
  | nil =>
    cases h with
    | cons hitem hafter => exact ⟨[], _, _, .nil, hitem, hafter, rfl⟩
  | cons first before ih =>
    cases h with
    | cons hfirst hrest =>
      obtain ⟨front, piece, back, hfront, hitem, hback, rfl⟩ := ih hrest
      exact ⟨_ :: front, piece, back, .cons hfirst hfront, hitem, hback, rfl⟩

namespace SymbolCommand

/-- The record of a scope that the command opens: its kind, and what it holds behind the end of the
scope. -/
def opening? : SymbolCommand → Option (RecordKind × ByteArray)
  | method token segment address length name =>
    some (.globalMethod, SymbolRegion.methodTail token segment address length name)
  | block address length => some (.block, SymbolRegion.blockTail address length)
  | _ => none

/-- The kind and the payload of the record, with no end of a scope yet. -/
def record : SymbolCommand → RecordKind × ByteArray
  | method token segment address length name =>
    (.globalMethod, SymbolRegion.methodPayload token segment address length name)
  | block address length => (.block, SymbolRegion.blockPayload address length)
  | close kind => (.other kind, .empty)
  | slot index typeToken name => (.slot, SymbolRegion.slotPayload index typeToken name)
  | constant token tag value name =>
    (.constant, SymbolRegion.constantPayload token tag value name)
  | importing name => (.importing, Bytes.terminated name)
  | vendor name body => (.vendor, SymbolRegion.vendorPayload name body)
  | metadata items => (.vendor, SymbolRegion.vendorPayload "MD2" (SymbolRegion.metadataBody items))
  | asynchronous kickoff catchHandler points =>
    (.vendor, SymbolRegion.vendorPayload "asyncMethodInfo"
      (SymbolRegion.asyncBody kickoff catchHandler points))
  | tokenLine token fileId line column endLine endColumn =>
    (.vendor, SymbolRegion.vendorPayload tokenLineFormat
      (Bytes.uint32s [token, fileId, line, column, endLine, endColumn]))
  | raw kind payload => (.other kind, payload)

def bytes (command : SymbolCommand) : ByteArray :=
  SymbolRegion.record command.record.1.code command.record.2

/-- The bytes that the command leaves behind in the end: an opened scope gets some end. -/
def Leaves (command : SymbolCommand) (bytes : ByteArray) : Prop :=
  match command.opening? with
  | some (kind, tail) => ∃ stop, bytes = SymbolRegion.openingRecord kind stop tail
  | none => bytes = command.bytes

/-- What the command says about a token. -/
def tokenLine? : SymbolCommand → Option (UInt32 × TokenLine)
  | tokenLine token fileId line column endLine endColumn =>
    some (token, { fileId, file := none, line, column, endLine, endColumn })
  | _ => none

/-- A command for records of any kind or format is not used for token lines. -/
def Legal : SymbolCommand → Prop
  | close kind | raw kind _ => RecordKind.ofCode kind ≠ .vendor
  | vendor name _ => ZeroFree name ∧ name ≠ tokenLineFormat
  | _ => True

/-- The record of the command fits into its length and can be told apart from others. -/
structure Plain (command : SymbolCommand) : Prop where
  fits : command.record.2.size ≤ 65532
  legal : command.Legal

instance : DecidablePred Legal
  | close _ | raw _ _ => inferInstanceAs (Decidable (_ ≠ _))
  | vendor _ _ => inferInstanceAs (Decidable (_ ∧ _))
  | method .. | block .. | slot .. | constant .. | importing _ | metadata _ | asynchronous ..
  | tokenLine .. => .isTrue trivial

instance (command : SymbolCommand) : Decidable command.Plain :=
  decidable_of_iff (command.record.2.size ≤ 65532 ∧ command.Legal)
    ⟨fun h => ⟨h.1, h.2⟩, fun h => ⟨h.1, h.2⟩⟩

theorem bytes_of_opening {command : SymbolCommand} {kind : RecordKind} {tail : ByteArray}
    (h : command.opening? = some (kind, tail)) :
    command.bytes = SymbolRegion.openingRecord kind 0 tail := by
  cases command <;> cases h
  · exact SymbolRegion.record_methodPayload ..
  · exact SymbolRegion.record_blockPayload ..

theorem Leaves.size_eq {command : SymbolCommand} {bytes : ByteArray}
    (leaves : command.Leaves bytes) : bytes.size = command.bytes.size := by
  unfold Leaves at leaves
  split at leaves
  · next kind tail hopening =>
    obtain ⟨stop, rfl⟩ := leaves
    rw [SymbolRegion.size_openingRecord, bytes_of_opening hopening]
  · rw [leaves]

theorem leaves_self (command : SymbolCommand) : command.Leaves command.bytes := by
  unfold Leaves
  split
  · next hopening => exact ⟨0, bytes_of_opening hopening⟩
  · rfl

/-- The number of bytes that commands write. -/
def sizeOf (commands : List SymbolCommand) : Nat := (commands.map fun c => c.bytes.size).sum

theorem size_of_leaves {commands : List SymbolCommand} {pieces : List ByteArray}
    (leaves : List.Forall₂ Leaves commands pieces) :
    (Bytes.concat pieces).size = sizeOf commands := by
  induction leaves with
  | nil => rfl
  | cons hfirst _ ih =>
    rw [Bytes.concat_cons, ByteArray.size_append, hfirst.size_eq, ih]
    rfl

end SymbolCommand

/-- The region holds what the commands leave behind, and the ends that are still open are those of
scopes that commands have opened. -/
structure SymbolRegion.Holds (commands : List SymbolCommand) (region : SymbolRegion) : Prop where
  bytes : ∃ pieces, List.Forall₂ SymbolCommand.Leaves commands pieces ∧
    region.bytes = Bytes.uint32 symbolSignature ++ Bytes.concat pieces
  openEnds : ∀ place ∈ region.openEnds, ∃ before command after kind tail,
    commands = before ++ command :: after ∧ command.opening? = some (kind, tail) ∧
      place = 4 + SymbolCommand.sizeOf before + 8

namespace SymbolRegion.Holds

open SymbolRegion

variable {commands : List SymbolCommand} {region : SymbolRegion}

protected theorem empty : Holds [] SymbolRegion.empty where
  bytes := ⟨[], .nil, by simp [SymbolRegion.empty]⟩
  openEnds := nofun

theorem size_eq (holds : Holds commands region) :
    region.bytes.size = 4 + SymbolCommand.sizeOf commands := by
  obtain ⟨pieces, leaves, hbytes⟩ := holds.bytes
  rw [hbytes, ByteArray.size_append, Bytes.size_uint32, SymbolCommand.size_of_leaves leaves]

/-- The record of the scope keeps its size when the end is filled in. -/
protected theorem fillEnd (holds : Holds commands region) : Holds commands region.fillEnd := by
  unfold SymbolRegion.fillEnd
  split
  · exact holds
  next place openEnds hopen =>
  obtain ⟨before, command, after, kind, tail, rfl, hopening, rfl⟩ :=
    holds.openEnds place (by rw [hopen]; exact List.mem_cons_self)
  refine ⟨?_, fun place member => holds.openEnds place (by rw [hopen]; exact .tail _ member)⟩
  obtain ⟨pieces, leaves, hbytes⟩ := holds.bytes
  obtain ⟨front, piece, back, hfront, hpiece, hback, rfl⟩ := exists_split_of_forall₂ leaves
  unfold SymbolCommand.Leaves at hpiece
  rw [hopening] at hpiece
  obtain ⟨stop, rfl⟩ := hpiece
  let last := region.nextOffset
  refine ⟨front ++ openingRecord kind last tail :: back, ?_, ?_⟩
  · refine List.rel_append hfront (.cons ?_ hback)
    unfold SymbolCommand.Leaves
    rw [hopening]
    exact ⟨last, rfl⟩
  -- the end stands between two parts of the opening record that stay as they are
  · obtain ⟨left, right, hleft, hrecord⟩ := openingRecord_eq kind tail
    have hparts (stop : Nat) :
        Bytes.uint32 symbolSignature ++ Bytes.concat (front ++ openingRecord kind stop tail :: back)
          = Bytes.uint32 symbolSignature ++ Bytes.concat front ++ left
            ++ Bytes.uint32 (UInt32.ofNat stop) ++ (right ++ Bytes.concat back) := by
      rw [Bytes.concat_append, Bytes.concat_cons, hrecord]
      simp only [ByteArray.append_assoc]
    have hplace : 4 + SymbolCommand.sizeOf before + 8
        = (Bytes.uint32 symbolSignature ++ Bytes.concat front ++ left).size := by
      simp only [ByteArray.size_append, Bytes.size_uint32, hleft,
        SymbolCommand.size_of_leaves hfront]
    rw [hbytes, hparts, hparts, hplace, Bytes.overwrite_append (by simp)]

/-- A command that opens no scope. -/
theorem append (holds : Holds commands region) (command : SymbolCommand) :
    Holds (commands ++ [command]) ⟨region.bytes ++ command.bytes, region.openEnds⟩ := by
  constructor
  · obtain ⟨pieces, leaves, hbytes⟩ := holds.bytes
    refine ⟨pieces ++ [command.bytes], List.rel_append leaves (.cons command.leaves_self .nil), ?_⟩
    rw [hbytes, Bytes.concat_append, ByteArray.append_assoc]
    simp
  · intro place member
    obtain ⟨before, opening, after, kind, tail, rfl, hopening, hplace⟩ :=
      holds.openEnds place member
    exact ⟨before, opening, after ++ [command], kind, tail, by simp, hopening, hplace⟩

/-- A command that opens a scope. -/
theorem appendOpening (holds : Holds commands region) {command : SymbolCommand}
    {opening : RecordKind × ByteArray} (hopening : command.opening? = some opening) :
    Holds (commands ++ [command])
      ⟨region.bytes ++ command.bytes, (region.nextOffset + 8) :: region.openEnds⟩ := by
  constructor
  · obtain ⟨pieces, leaves, hbytes⟩ := holds.bytes
    refine ⟨pieces ++ [command.bytes], List.rel_append leaves (.cons command.leaves_self .nil), ?_⟩
    rw [hbytes, Bytes.concat_append, ByteArray.append_assoc]
    simp
  · intro place member
    rcases List.mem_cons.mp member with rfl | member
    · exact ⟨commands, command, [], opening.1, opening.2, rfl, hopening, by
        rw [nextOffset, holds.size_eq]⟩
    · obtain ⟨before, other, after, kind, tail, rfl, hother, hplace⟩ :=
        holds.openEnds place member
      exact ⟨before, other, after ++ [command], kind, tail, by simp, hother, hplace⟩

protected theorem apply (holds : Holds commands region) (command : SymbolCommand) :
    Holds (commands ++ [command]) (region.apply command) := by
  cases command with
  | method | block => exact holds.appendOpening rfl
  | close kind => exact holds.fillEnd.append (.close kind)
  | _ => exact holds.append _

theorem ofCommands (commands : List SymbolCommand) :
    Holds commands (SymbolRegion.ofCommands commands) := by
  induction commands using List.reverseRecOn with
  | nil => exact .empty
  | append_singleton commands command ih =>
    rw [SymbolRegion.ofCommands, List.foldl_append]
    exact ih.apply command

end SymbolRegion.Holds

/-! ### Reading what was written -/

namespace TokenLine

/-- Reads as much of a record as its kind and format ask for. -/
def readHeld (found : Array (UInt32 × TokenLine)) (header : RecordHeader) :
    Reader (Array (UInt32 × TokenLine)) :=
  if header.kind = .vendor then do
    let name ← readVendorName
    if name = tokenLineFormat then return found.push (← read) else return found
  else return found

/-- What a record adds is read in front of the move to its end. -/
theorem readRecord_eq (limit : Nat) (found : Array (UInt32 × TokenLine)) :
    readRecord limit found = (do
      let header ← RecordHeader.read limit
      let found ← readHeld found header
      Reader.seek header.stop
      return found) := by
  unfold readRecord readHeld
  refine bind_congr fun header => ?_
  by_cases hkind : header.kind = .vendor
  · rw [if_pos hkind, if_pos hkind, bind_assoc]
    refine bind_congr fun name => ?_
    by_cases hname : name = tokenLineFormat
    · simp only [if_pos hname, bind_assoc, pure_bind]
    · simp only [if_neg hname]
  · rw [if_neg hkind, if_neg hkind]

end TokenLine

namespace Reads

variable {found : Array (UInt32 × TokenLine)}

theorem tokenLine (token fileId line column endLine endColumn : UInt32) :
    Reads TokenLine.read start (Bytes.uint32s [token, fileId, line, column, endLine, endColumn])
      (token, { fileId, file := none, line, column, endLine, endColumn }) := by
  simp only [Bytes.uint32s_cons, Bytes.uint32s_nil, ByteArray.append_empty]
  exact .bind (.uint32 _) (.bind (.uint32 _) (.bind (.uint32 _) (.bind (.uint32 _)
    (.bind (.uint32 _) (bind_pure _ (.uint32 _))))))

/-- A record of another kind is passed over. -/
theorem otherRecord {kind : UInt16} {payload : ByteArray} (hkind : RecordKind.ofCode kind ≠ .vendor)
    (hfits : payload.size ≤ 65532)
    (hlimit : start + (SymbolRegion.record kind payload).size ≤ limit) :
    Reads (TokenLine.readRecord limit found) start (SymbolRegion.record kind payload) found := by
  rw [TokenLine.readRecord_eq]
  refine .record id hfits hlimit (ByteArray.empty_append (b := payload)).symm ?_
  rw [TokenLine.readHeld, if_neg hkind]
  exact .pure _

/-- A vendor record adds what is in the front part of its body. -/
theorem vendorRecord {name : String} (front back : ByteArray)
    {found' : Array (UInt32 × TokenLine)} (hname : ZeroFree name)
    (hfront : ∀ start, Reads (if name = tokenLineFormat then do
        return found.push (← TokenLine.read) else pure found) start front found')
    (hfits : (SymbolRegion.vendorPayload name (front ++ back)).size ≤ 65532)
    (hlimit : start + (SymbolRegion.record RecordKind.vendor.code
      (SymbolRegion.vendorPayload name (front ++ back))).size ≤ limit) :
    Reads (TokenLine.readRecord limit found) start (SymbolRegion.record RecordKind.vendor.code
      (SymbolRegion.vendorPayload name (front ++ back))) found' := by
  have hpayload : SymbolRegion.vendorPayload name (front ++ back)
      = (managedVendor.bytes ++ (Bytes.uint32 0 ++ Utf16.terminated name) ++ front) ++ back := by
    simp only [SymbolRegion.vendorPayload, ByteArray.append_assoc]
  rw [TokenLine.readRecord_eq]
  refine .record id hfits hlimit hpayload ?_
  rw [TokenLine.readHeld, if_pos (show RecordKind.ofCode RecordKind.vendor.code = .vendor from rfl)]
  exact .bind (vendorName hname) (hfront _)

/-- A vendor record of another format is passed over. -/
theorem otherFormat {name : String} {body : ByteArray} (hname : ZeroFree name)
    (hother : name ≠ tokenLineFormat)
    (hfits : (SymbolRegion.vendorPayload name body).size ≤ 65532)
    (hlimit : start + (SymbolRegion.record RecordKind.vendor.code
      (SymbolRegion.vendorPayload name body)).size ≤ limit) :
    Reads (TokenLine.readRecord limit found) start (SymbolRegion.record RecordKind.vendor.code
      (SymbolRegion.vendorPayload name body)) found := by
  rw [← ByteArray.empty_append (b := body)] at hfits hlimit ⊢
  refine vendorRecord .empty body hname (fun start => ?_) hfits hlimit
  rw [if_neg hother]
  exact .pure _

/-- The record of a range adds that range. -/
theorem tokenRecord (token fileId line column endLine endColumn : UInt32)
    (hfits : (SymbolRegion.vendorPayload tokenLineFormat
      (Bytes.uint32s [token, fileId, line, column, endLine, endColumn])).size ≤ 65532)
    (hlimit : start + (SymbolRegion.record RecordKind.vendor.code
      (SymbolRegion.vendorPayload tokenLineFormat
        (Bytes.uint32s [token, fileId, line, column, endLine, endColumn]))).size ≤ limit) :
    Reads (TokenLine.readRecord limit found) start (SymbolRegion.record RecordKind.vendor.code
      (SymbolRegion.vendorPayload tokenLineFormat
        (Bytes.uint32s [token, fileId, line, column, endLine, endColumn])))
      (found.push
        (token, { fileId, file := none, line, column, endLine, endColumn })) := by
  rw [← ByteArray.append_empty (b := Bytes.uint32s _)] at hfits hlimit ⊢
  refine vendorRecord _ .empty (by decide) (fun start => ?_) hfits hlimit
  rw [if_pos rfl]
  exact bind_pure found.push (tokenLine token fileId line column endLine endColumn)

/-- The record of a command adds what the command says about a token. -/
theorem commandRecord {command : SymbolCommand} {bytes : ByteArray} (plain : command.Plain)
    (leaves : command.Leaves bytes) (hlimit : start + bytes.size ≤ limit) :
    Reads (TokenLine.readRecord limit found) start bytes
      (found ++ command.tokenLine?.toList.toArray) := by
  obtain ⟨hfits, hlegal⟩ := plain
  have hpassed (h : Reads (TokenLine.readRecord limit found) start bytes found) :
      Reads (TokenLine.readRecord limit found) start bytes
        (found ++ (none : Option (UInt32 × TokenLine)).toList.toArray) := by
    simpa using h
  cases command with
  | method token segment address length name =>
    obtain ⟨stop, rfl⟩ := leaves
    have hfits : (SymbolRegion.methodPayload token segment address length name).size ≤ 65532 :=
      hfits
    rw [SymbolRegion.methodPayload_eq] at hfits
    exact hpassed (otherRecord (by decide) (by simpa using hfits) hlimit)
  | block address length =>
    obtain ⟨stop, rfl⟩ := leaves
    exact hpassed (otherRecord (by decide) (by simp [SymbolRegion.blockTail]) hlimit)
  | close | raw =>
    obtain rfl : bytes = _ := leaves
    exact hpassed (otherRecord hlegal hfits hlimit)
  | slot | constant | importing =>
    obtain rfl : bytes = _ := leaves
    refine hpassed (otherRecord ?_ hfits hlimit)
    simp [SymbolCommand.record, RecordKind.code, RecordKind.ofCode]
  | vendor name body =>
    obtain rfl : bytes = _ := leaves
    exact hpassed (otherFormat hlegal.1 hlegal.2 hfits hlimit)
  | metadata | asynchronous =>
    obtain rfl : bytes = _ := leaves
    exact hpassed (otherFormat (by decide) (by decide) hfits hlimit)
  | tokenLine token fileId line column endLine endColumn =>
    obtain rfl : bytes = _ := leaves
    exact tokenRecord token fileId line column endLine endColumn hfits hlimit

/-- A run over what commands have left behind adds what they say about tokens, in their order. -/
theorem commandRecords {commands : List SymbolCommand} {pieces : List ByteArray}
    (leaves : List.Forall₂ SymbolCommand.Leaves commands pieces)
    (plain : ∀ command ∈ commands, command.Plain)
    (hlimit : start + (Bytes.concat pieces).size = limit) :
    Reads (Reader.whileBelow limit (TokenLine.readRecord limit) found) start (Bytes.concat pieces)
      (found ++ (commands.filterMap SymbolCommand.tokenLine?).toArray) := by
  induction leaves generalizing start found with
  | nil =>
    rw [Bytes.concat_nil, ByteArray.size_empty, Nat.add_zero] at hlimit
    rw [List.filterMap_nil, Array.append_empty]
    exact whileBelow_done (Nat.le_of_eq hlimit.symm)
  | @cons command piece commands pieces hleaves _ ih =>
    obtain ⟨hplain, hrest⟩ := List.forall_mem_cons.mp plain
    have hadded : found ++ (List.filterMap SymbolCommand.tokenLine? (command :: commands)).toArray
        = found ++ command.tokenLine?.toList.toArray
          ++ (commands.filterMap SymbolCommand.tokenLine?).toArray := by
      cases hsaid : command.tokenLine? with
      | none => simp [List.filterMap_cons_none hsaid]
      | some entry => simp [List.filterMap_cons_some hsaid]
    have hpos : 0 < piece.size := by
      rw [hleaves.size_eq, SymbolCommand.bytes, SymbolRegion.size_record]
      omega
    rw [Bytes.concat_cons, ByteArray.size_append] at hlimit
    rw [Bytes.concat_cons, hadded]
    exact whileBelow_step (by omega) (commandRecord hplain hleaves (by omega)) hpos
      (ih hrest (by omega))

end Reads

/-- What commands say about tokens is read back in their order, whatever they write in front of it,
between and behind it, and whatever stands behind the region. -/
theorem TokenLine.readAll_written {commands : List SymbolCommand}
    (plain : ∀ command ∈ commands, command.Plain) (after : ByteArray) :
    (readAll (SymbolRegion.ofCommands commands).bytes.size).run
        ((SymbolRegion.ofCommands commands).bytes ++ after)
      = .ok (commands.filterMap SymbolCommand.tokenLine?) := by
  obtain ⟨pieces, leaves, hbytes⟩ := (SymbolRegion.Holds.ofCommands commands).bytes
  rw [hbytes]
  refine Reads.run_append (.bind .symbolSignature ?_)
  have hloop := @Reads.commandRecords _ 4 #[] _ _ leaves plain rfl
  rw [ByteArray.size_append, Bytes.size_uint32]
  simpa using Reads.bind_pure Array.toList hloop

end ManagedPdb
