import ManagedPdb.Proofs.Draft.SymbolRegion
import ManagedPdb.Proofs.Guid

/-!
# Payloads that were written

The payload of every record of a draft is read back as what the draft holds.  A reader may stop in
front of the end of a payload, since the position is set to the end of the record anyway; then it
reads a front part of the payload.
-/

namespace ManagedPdb.Reads

variable {α : Type} {start : Nat}

/-! ### Frames -/

theorem symbolSignature :
    Reads readSymbolSignature 0 (Bytes.uint32 ManagedPdb.symbolSignature) () := by
  rw [← ByteArray.empty_append (b := Bytes.uint32 _)]
  refine .bind (.seek rfl) (.bind_empty (.uint32 _) ?_)
  rw [if_neg (not_not.mpr rfl)]
  exact .pure _

/-- The header of a framed record. -/
theorem recordHeader {limit : Nat} {kind : UInt16} {payload : ByteArray}
    (hfits : payload.size ≤ 65532)
    (hlimit : start + (SymbolRegion.record kind payload).size ≤ limit) :
    Reads (RecordHeader.read limit) start
      (Bytes.uint16 (UInt16.ofNat (Bytes.padded payload).size + 2) ++ Bytes.uint16 kind)
      ⟨.ofCode kind, start + (SymbolRegion.record kind payload).size⟩ := by
  have hlength : (UInt16.ofNat (Bytes.padded payload).size + 2).toNat
      = (Bytes.padded payload).size + 2 := by
    rw [Bytes.size_padded, UInt16.toNat_add, UInt16.toNat_ofNat']
    simp only [UInt16.reduceToNat]
    omega
  have hstop : start + 2 + (UInt16.ofNat (Bytes.padded payload).size + 2).toNat
      = start + (SymbolRegion.record kind payload).size := by
    rw [hlength, SymbolRegion.size_record]
    omega
  refine .position (.bind (.uint16 _) (.bind_empty (.uint16 kind) ?_))
  simp only [hstop, if_neg (Nat.not_lt.mpr hlimit)]
  exact .pure _

/-- A framed record is read as its header and what follows from that. -/
theorem header {limit : Nat} {kind : UInt16} {payload after : ByteArray}
    {next : RecordHeader → Reader α} {value : α} (hfits : payload.size ≤ 65532)
    (hlimit : start + (SymbolRegion.record kind payload).size ≤ limit)
    (hnext : Reads (next ⟨.ofCode kind, start + (SymbolRegion.record kind payload).size⟩)
      (start + 4) (Bytes.padded payload ++ after) value) :
    Reads (RecordHeader.read limit >>= next) start (SymbolRegion.record kind payload ++ after)
      value := by
  rw [SymbolRegion.record, ByteArray.append_assoc]
  exact .bind (recordHeader hfits hlimit) hnext

/-- The end of what is read is known, wherever the reader has stopped. -/
theorem seek_rest {β : Type} {reader : Reader α} {front back : ByteArray} {value : α} (f : α → β)
    {stop : Nat} (hreader : Reads reader start front value)
    (hstop : stop = start + (front ++ back).size) :
    Reads (do let value ← reader; Reader.seek stop; return f value) start (front ++ back)
      (f value) := by
  refine .bind hreader (.bind_empty (.seek ?_) (.pure _))
  rw [hstop, ByteArray.size_append, Nat.add_assoc]

/-- A record of which a reader reads a front part of the payload. -/
theorem record {β : Type} {limit : Nat} {kind : UInt16} {payload front back : ByteArray}
    {reader : RecordHeader → Reader α} {value : α} (f : α → β) (hfits : payload.size ≤ 65532)
    (hlimit : start + (SymbolRegion.record kind payload).size ≤ limit)
    (hpayload : payload = front ++ back)
    (hreader : Reads (reader ⟨.ofCode kind, start + (SymbolRegion.record kind payload).size⟩)
      (start + 4) front value) :
    Reads (do
        let header ← RecordHeader.read limit
        let value ← reader header
        Reader.seek header.stop
        return f value)
      start (SymbolRegion.record kind payload) (f value) := by
  have hpadded : Bytes.padded payload
      = front ++ (back ++ Bytes.zeros ((4 - payload.size % 4) % 4)) := by
    rw [Bytes.padded, hpayload, ByteArray.append_assoc]
  rw [← ByteArray.append_empty (b := SymbolRegion.record kind payload)]
  refine header hfits hlimit ?_
  rw [ByteArray.append_empty, hpadded]
  exact seek_rest f hreader (by rw [← hpadded, SymbolRegion.size_record, Nat.add_assoc])

/-! ### Variables and constants -/

theorem slot {index typeToken : UInt32} {name : String} (hname : ZeroFree name) :
    Reads Slot.read start (SymbolRegion.slotPayload index typeToken name)
      ⟨index, typeToken, 0, 0, 0, name⟩ := by
  simp only [SymbolRegion.slotPayload, Bytes.uint32s_cons, Bytes.uint32s_nil,
    ByteArray.append_empty, ByteArray.append_assoc]
  exact .bind (.uint32 index) (.bind (.uint32 typeToken) (.bind (.uint32 0) (.bind (.uint16 0)
    (.bind (.uint16 0) (bind_pure _ (.terminatedString hname))))))

theorem leaf {leaf : LeafDraft} (hleaf : leaf.Writable) (hsize : leaf.bytes.size ≤ 65532) :
    Reads ConstantValue.read start (Bytes.uint16 leaf.tag ++ leaf.bytes) leaf.value := by
  refine .position (.bind (.uint16 leaf.tag) ?_)
  cases leaf with
  | inline value =>
    have hsmall : value < 0x8000 := hleaf
    show Reads (if value < 0x8000 then _ else _) _ .empty _
    rw [if_pos hsmall]
    exact .pure _
  | int8 value => exact bind_pure _ (.int8 value)
  | int16 value => exact bind_pure _ (.int16 value)
  | uint16 value => exact bind_pure _ (.uint16 value)
  | int32 value => exact bind_pure _ (.int32 value)
  | uint32 value => exact bind_pure _ (.uint32 value)
  | int64 value => exact bind_pure _ (.int64 value)
  | uint64 value => exact bind_pure _ (.uint64 value)
  | float32 bits => exact bind_pure _ (.uint32 bits)
  | float64 bits => exact bind_pure _ (.uint64 bits)
  | text value =>
    rw [LeafDraft.bytes, ByteArray.size_append, Bytes.size_uint16] at hsize
    exact bind_pure _ (.countedString (by omega))
  | decimal flags high low middle => exact bind_pure _ (.decimal flags high low middle)

theorem constant {token : UInt32} {leaf : LeafDraft} {name : String} (hleaf : leaf.Writable)
    (hname : ZeroFree name)
    (hsize : (SymbolRegion.constantPayload token leaf.tag leaf.bytes name).size ≤ 65532) :
    Reads Constant.read start (SymbolRegion.constantPayload token leaf.tag leaf.bytes name)
      ⟨token, leaf.value, name⟩ := by
  have hbytes : leaf.bytes.size ≤ 65532 := by
    simp only [SymbolRegion.constantPayload, ByteArray.size_append] at hsize
    omega
  have hpayload : SymbolRegion.constantPayload token leaf.tag leaf.bytes name
      = Bytes.uint32 token
        ++ ((Bytes.uint16 leaf.tag ++ leaf.bytes) ++ Bytes.terminated name) := by
    simp only [SymbolRegion.constantPayload, ByteArray.append_assoc]
  rw [hpayload]
  exact .bind (.uint32 token) (.bind (Reads.leaf hleaf hbytes)
    (bind_pure _ (.terminatedString hname)))

/-! ### Vendor records -/

theorem vendorName {name : String} (hname : ZeroFree name) :
    Reads readVendorName start
      (managedVendor.bytes ++ (Bytes.uint32 0 ++ Utf16.terminated name)) name := by
  refine .position (.bind (.guid managedVendor) ?_)
  simp only [ne_eq, not_true, if_false]
  exact .bind (.uint32 0) (.utf16String hname)

theorem syncPoint (point : UInt32 × UInt32 × UInt32) :
    Reads SyncPoint.read start (Bytes.uint32s [point.1, point.2.1, point.2.2])
      ⟨point.1, point.2.1, point.2.2⟩ := by
  simp only [Bytes.uint32s_cons, Bytes.uint32s_nil, ByteArray.append_empty]
  exact .bind (.uint32 _) (.bind (.uint32 _) (bind_pure _ (.uint32 _)))

theorem asyncInfo {kickoff catchHandler : UInt32} {points : List (UInt32 × UInt32 × UInt32)}
    (hsize : (SymbolRegion.asyncBody kickoff catchHandler points).size ≤ 65532) :
    Reads AsyncInfo.read start (SymbolRegion.asyncBody kickoff catchHandler points)
      ⟨kickoff, catchHandler,
        points.map fun (offset, method, target) => ⟨offset, method, target⟩⟩ := by
  have hlength : (UInt32.ofNat points.length).toNat = points.length := by
    rw [SymbolRegion.asyncBody, Bytes.size_uint32s] at hsize
    simp only [List.length_cons, List.length_flatMap, List.length_nil, List.map_const',
      List.sum_replicate_nat] at hsize
    rw [UInt32.toNat_ofNat', Nat.mod_eq_of_lt (by omega)]
  simp only [SymbolRegion.asyncBody, Bytes.uint32s_cons, Bytes.uint32s_flatMap]
  refine .bind (.uint32 _) (.bind (.uint32 _) (.bind (.uint32 _) ?_))
  rw [hlength]
  exact bind_pure _
    (.times (fun _ _ => True) (fun _ point _ _ => ⟨syncPoint point, trivial⟩) trivial)

/-! ### Custom metadata -/

theorem range {itemStart : Nat} {range : UInt32 × UInt32} (hrange : range.1 ≤ range.2) :
    Reads (MetadataItem.readRange itemStart) start (Bytes.uint32s [range.1, range.2])
      ⟨range.1, range.2 - range.1⟩ := by
  simp only [Bytes.uint32s_cons, Bytes.uint32s_nil, ByteArray.append_empty]
  refine .bind (.uint32 _) (.bind_empty (.uint32 _) ?_)
  rw [if_neg (UInt32.not_lt.mpr hrange)]
  exact .pure _

theorem itemPayload {itemStart : Nat} {item : MetadataDraft} (hitem : item.Writable)
    (hsize : item.payload.size ≤ 65532) :
    ∃ front back, item.payload = front ++ back ∧
      ∀ start, Reads (MetadataItem.readPayload itemStart item.kind) start front item.item := by
  cases item with
  | usingCounts counts =>
    have hlength : (UInt16.ofNat counts.length).toNat = counts.length := by
      rw [MetadataDraft.payload, @Bytes.size_concat_of_size 2 _ (by simp)] at hsize
      simp only [List.map_cons, List.length_cons, List.length_map] at hsize
      rw [UInt16.toNat_ofNat', Nat.mod_eq_of_lt (by omega)]
    refine ⟨_, .empty, ByteArray.append_empty.symm, fun start => ?_⟩
    have hcounts : Reads (Reader.times counts.length Reader.uint16) (start + 2)
        (Bytes.concat (counts.map Bytes.uint16)) (counts.map id) :=
      .times (fun _ _ => True) (fun _ count _ _ => ⟨.uint16 count, trivial⟩) trivial
    rw [List.map_id] at hcounts
    rw [MetadataDraft.payload, List.map_cons, Bytes.concat_cons]
    refine .bind (.uint16 _) ?_
    rw [hlength]
    exact bind_pure _ hcounts
  | forward token =>
    exact ⟨_, .empty, ByteArray.append_empty.symm, fun _ => bind_pure _ (.uint32 token)⟩
  | forwardToModule token =>
    exact ⟨_, .empty, ByteArray.append_empty.symm, fun _ => bind_pure _ (.uint32 token)⟩
  | iteratorRanges ranges =>
    have hlength : (UInt32.ofNat ranges.length).toNat = ranges.length := by
      rw [MetadataDraft.payload, Bytes.size_uint32s] at hsize
      simp only [List.length_cons, List.length_flatMap, List.length_nil, List.map_const',
        List.sum_replicate_nat] at hsize
      rw [UInt32.toNat_ofNat', Nat.mod_eq_of_lt (by omega)]
    refine ⟨_, .empty, ByteArray.append_empty.symm, fun start => ?_⟩
    simp only [MetadataDraft.payload, Bytes.uint32s_cons, Bytes.uint32s_flatMap]
    refine .bind (.uint32 _) ?_
    rw [hlength]
    refine bind_pure _ (.times
      (fun _ (ranges : List (UInt32 × UInt32)) => ∀ range ∈ ranges, range.1 ≤ range.2) ?_ hitem)
    intro start first rest hfits
    obtain ⟨hfirst, hrest⟩ := List.forall_mem_cons.mp hfits
    exact ⟨range hfirst, hrest⟩
  | iteratorClass name =>
    exact ⟨_, .empty, ByteArray.append_empty.symm, fun _ => bind_pure _ (.utf16String hitem)⟩
  | raw kind payload =>
    -- nothing of an item of an unknown kind is read
    have hkind : 5 ≤ kind := hitem
    have hne (known : UInt8) (hknown : known < 5) : kind ≠ known := by
      rintro rfl
      exact UInt8.not_lt.mpr hkind hknown
    refine ⟨.empty, payload, ByteArray.empty_append.symm, fun start => ?_⟩
    rw [MetadataDraft.kind, MetadataItem.readPayload, if_neg (hne 0 (by decide)),
      if_neg (hne 1 (by decide)), if_neg (hne 2 (by decide)), if_neg (hne 3 (by decide)),
      if_neg (hne 4 (by decide))]
    exact .pure _

/-- An item that starts at a multiple of four, inside its record. -/
theorem metadataItem {item : MetadataDraft} {stop : Nat} (hitem : item.Writable)
    (hstop : start + item.bytes.size ≤ stop) (hrecord : stop < 2 ^ 32)
    (hsize : item.bytes.size ≤ 65532) (haligned : start % 4 = 0) :
    Reads (MetadataItem.read stop) start item.bytes item.item := by
  rw [MetadataDraft.bytes] at hstop hsize
  simp only [ByteArray.size_append, Bytes.size_uint8, Bytes.size_uint16, Bytes.size_uint32,
    Bytes.size_padded] at hstop hsize
  obtain ⟨front, back, hpayload, hread⟩ := @itemPayload start item hitem (by omega)
  have hpadded : (UInt32.ofNat (8 + (Bytes.padded item.payload).size)).toNat
      = 8 + (Bytes.padded item.payload).size := by
    rw [UInt32.toNat_ofNat', Bytes.size_padded, Nat.mod_eq_of_lt (by omega)]
  rw [MetadataDraft.bytes]
  simp only [ByteArray.append_assoc]
  refine .position (.bind (.uint8 4) ?_)
  simp only [metadataVersion, ne_eq, not_true, if_false]
  refine .bind (.uint8 _) (.bind (align_four ?_ ?_) (.bind (.uint32 _) (.position ?_)))
  · simp only [Bytes.size_uint16, Bytes.size_uint8]
    omega
  · simp only [Bytes.size_uint8, Nat.reducePow]
    omega
  simp only [hpadded]
  rw [if_neg ?inside]
  case inside =>
    simp only [Bytes.size_padded, Bytes.size_uint8, Bytes.size_uint16, Bytes.size_uint32]
    omega
  rw [Bytes.padded, hpayload, ByteArray.append_assoc]
  refine seek_rest id (hread _) ?_
  simp only [ByteArray.size_append]
  simp only [Bytes.size_zeros, Bytes.size_uint8, Bytes.size_uint16, Bytes.size_uint32]
  omega

theorem size_item_mod_four (item : MetadataDraft) : item.bytes.size % 4 = 0 := by
  simp only [MetadataDraft.bytes, ByteArray.size_append, Bytes.size_uint8, Bytes.size_uint16,
    Bytes.size_uint32, Bytes.size_padded]
  omega

theorem metadataItems {items : List MetadataDraft} {stop : Nat} (hlength : items.length ≤ 255)
    (hitems : ∀ item ∈ items, item.Writable)
    (hstop : start + (SymbolRegion.metadataBody items).size ≤ stop) (hrecord : stop < 2 ^ 32)
    (hsize : (SymbolRegion.metadataBody items).size ≤ 65532) (haligned : start % 4 = 0) :
    Reads (Metadata.readItems stop) start (SymbolRegion.metadataBody items)
      (items.map MetadataDraft.item) := by
  have hcount : (UInt8.ofNat items.length).toNat = items.length := by
    rw [UInt8.toNat_ofNat', Nat.mod_eq_of_lt (by omega)]
  rw [SymbolRegion.metadataBody] at hstop hsize ⊢
  simp only [ByteArray.size_append, Bytes.size_uint8, Bytes.size_uint16] at hstop hsize
  simp only [ByteArray.append_assoc]
  refine .bind (.uint8 4) ?_
  simp only [metadataVersion, ne_eq, not_true, if_false]
  refine .bind (.uint8 _) (.bind (align_four ?_ ?_) ?_)
  · simp only [Bytes.size_uint16, Bytes.size_uint8]
    omega
  · simp only [Bytes.size_uint8, Nat.reducePow]
    omega
  rw [hcount]
  -- items start at multiples of four, one behind the other, and all of them inside the record
  let Fits (start : Nat) (items : List MetadataDraft) : Prop :=
    start % 4 = 0 ∧ start + (Bytes.concat (items.map MetadataDraft.bytes)).size ≤ stop ∧
      (Bytes.concat (items.map MetadataDraft.bytes)).size ≤ 65532 ∧ ∀ item ∈ items, item.Writable
  refine .times Fits ?item ⟨?aligned, ?inside, by omega, hitems⟩
  case item =>
    rintro start item rest ⟨haligned, hinside, hsize, hwritable⟩
    obtain ⟨hitem, hrest⟩ := List.forall_mem_cons.mp hwritable
    rw [List.map_cons, Bytes.concat_cons, ByteArray.size_append] at hinside hsize
    have hmod := size_item_mod_four item
    exact ⟨metadataItem hitem (by omega) hrecord (by omega) haligned,
      by omega, by omega, by omega, hrest⟩
  case aligned =>
    simp only [Bytes.size_uint8, Bytes.size_uint16]
    omega
  case inside =>
    simp only [Bytes.size_uint8, Bytes.size_uint16]
    omega

theorem size_vendorPayload (name : String) (body : ByteArray) :
    (SymbolRegion.vendorPayload name body).size
      = 20 + (Utf16.terminated name).size + body.size := by
  have hvendor : managedVendor.bytes.size = 16 := by decide
  simp only [SymbolRegion.vendorPayload, ByteArray.size_append, hvendor, Bytes.size_uint32]

/-- A vendor record is read as its name and as much of its body as the name asks for. -/
theorem vendor {stop : Nat} {name : String} {front : ByteArray} (back : ByteArray)
    {value : Metadata} (hname : ZeroFree name)
    (hread : Reads (Metadata.readBody stop name) (start + (20 + (Utf16.terminated name).size)) front
      value) :
    ∃ payload, SymbolRegion.vendorPayload name (front ++ back) = payload ++ back ∧
      Reads (Metadata.read stop) start payload value := by
  have hsize : (managedVendor.bytes ++ (Bytes.uint32 0 ++ Utf16.terminated name)).size
      = 20 + (Utf16.terminated name).size := by
    have hpayload := size_vendorPayload name .empty
    simpa [SymbolRegion.vendorPayload, Nat.add_assoc] using hpayload
  refine ⟨(managedVendor.bytes ++ (Bytes.uint32 0 ++ Utf16.terminated name)) ++ front, ?_, ?_⟩
  · simp only [SymbolRegion.vendorPayload, ByteArray.append_assoc]
  · exact .bind (vendorName hname) (by rwa [hsize])

/-! ### Openings -/

/-- The payload of a method record, with the end of the method. -/
theorem methodStart {draft : MethodDraft} {bodyStop stop : Nat} (hname : ZeroFree draft.name)
    (hbodyStop : bodyStop < 2 ^ 32)
    (hstop : stop = start
      + (Bytes.padded (Bytes.uint32s [0, UInt32.ofNat bodyStop] ++ draft.tail)).size) :
    Reads (Method.readStart stop true) start
      (Bytes.padded (Bytes.uint32s [0, UInt32.ofNat bodyStop] ++ draft.tail))
      (draft.start, bodyStop) := by
  have hend : (UInt32.ofNat bodyStop).toNat = bodyStop := by
    rw [UInt32.toNat_ofNat', Nat.mod_eq_of_lt hbodyStop]
  -- the name ends in front of the padding, and the position is set behind it
  obtain ⟨padding, hpadding⟩ : ∃ padding,
      Bytes.padded (Bytes.uint32s [0, UInt32.ofNat bodyStop] ++ draft.tail)
        = Bytes.uint32s [0, UInt32.ofNat bodyStop] ++ draft.tail ++ padding := ⟨_, rfl⟩
  rw [hpadding, MethodDraft.tail, SymbolRegion.methodTail] at hstop ⊢
  simp only [Bytes.uint32s_cons, Bytes.uint32s_nil, ByteArray.append_empty, ByteArray.append_assoc]
    at hstop ⊢
  refine .bind (.uint32 0) (.bind (.uint32 _) (.bind (.uint32 0) (.bind (.uint32 _) ?_)))
  refine .bind (.uint32 0) (.bind (.uint32 _) (.bind (.uint32 _) (.bind (.uint32 _) ?_)))
  refine .bind (.uint16 _) (.bind (.uint8 0) (.bind (.uint16 0) ?_))
  refine .bind (.map some (.terminatedString hname)) (.bind_empty (.seek ?_) ?_)
  · simp only [ByteArray.size_append] at hstop
    omega
  · rw [hend]
    exact .pure _

/-- The payload of a block record, with the end of the block. -/
theorem block {body : OpenMethod} {position stop : Nat} {address length : UInt32}
    (hdepth : body.depth < maxOpenScopes) (haddress : body.method.address ≤ address)
    (hstop : stop < 2 ^ 32) :
    ∃ front back, Bytes.uint32s [0, UInt32.ofNat stop] ++ SymbolRegion.blockTail address length
        = front ++ back ∧
      Reads (body.readBlock position) start front
        { offset := address - body.method.address, length, stop } := by
  have hend : (UInt32.ofNat stop).toNat = stop := by
    rw [UInt32.toNat_ofNat', Nat.mod_eq_of_lt hstop]
  refine ⟨Bytes.uint32 0 ++ (Bytes.uint32 (UInt32.ofNat stop) ++ (Bytes.uint32 length
    ++ (Bytes.uint32 address ++ Bytes.uint16 1))), Bytes.uint8 0, ?_, ?_⟩
  · rw [SymbolRegion.blockTail]
    simp only [Bytes.uint32s_cons, Bytes.uint32s_nil, ByteArray.append_empty,
      ByteArray.append_assoc]
  · rw [OpenMethod.readBlock, if_neg (by omega)]
    refine .bind (.uint32 0) (.bind (.uint32 _) (.bind (.uint32 _) (.bind (.uint32 _)
      (.bind_empty (.uint16 1) ?_))))
    rw [if_neg (UInt32.not_lt.mpr haddress), hend]
    exact .pure _

end ManagedPdb.Reads
