import ManagedPdb.Proofs.Reads

/-!
# Identifiers that were written

The sixteen bytes of an identifier are read back as that identifier.  The last group is stored with
the most significant byte first, so that its bytes are followed from the end.
-/

namespace ManagedPdb

/-- The number of bytes in big-endian order. -/
theorem foldl_byteAt_of_standsAt {width number start : Nat} {content : ByteArray}
    (h : StandsAt (LittleEndian.digits width number).reverse.toByteArray content start) :
    (List.range width).foldl
        (fun node index => node * 256 + (byteAt content (start + index)).toUInt64) 0
      = UInt64.ofNat (number % 256 ^ width) := by
  induction width generalizing number with
  | zero => simp [Nat.mod_one]
  | succ width ih =>
    rw [LittleEndian.digits, List.reverse_cons, List.toByteArray_append] at h
    have hlast : byteAt content (start + width) = UInt8.ofNat number := by
      have hbyte := h.append_right.byteAt_eq (show 0 < _ by simp)
      simpa using hbyte
    rw [List.range_succ, List.foldl_append, ih h.append_left, List.foldl_cons, List.foldl_nil,
      hlast, Nat.pow_succ', Nat.mod_mul, Nat.add_comm, UInt64.ofNat_add, UInt64.ofNat_mul,
      UInt64.mul_comm]
    have hbyte : (UInt8.ofNat number).toUInt64 = UInt64.ofNat (number % 256) := by
      rw [← UInt64.toNat_inj, UInt8.toNat_toUInt64, UInt8.toNat_ofNat', UInt64.toNat_ofNat']
      omega
    rw [hbyte]
    rfl

protected theorem Reads.guid {start : Nat} (guid : Guid) :
    Reads Reader.guid start guid.bytes guid := by
  intro content hcontent
  have hsize : guid.bytes.size = 16 := by simp [Guid.bytes]
  have hparts : Guid.ofBytes content start = guid := by
    rw [Guid.bytes] at hcontent
    have hfirst := LittleEndian.read_of_standsAt hcontent.append_left.append_left.append_left
    have hsecond := LittleEndian.read_of_standsAt hcontent.append_left.append_left.append_right
    have hthird := LittleEndian.read_of_standsAt hcontent.append_left.append_right
    have hnode := foldl_byteAt_of_standsAt hcontent.append_right
    rw [Nat.mod_eq_of_lt (show _ < 256 ^ 4 from UInt32.toNat_lt _)] at hfirst
    rw [Nat.mod_eq_of_lt (show _ < 256 ^ 2 from UInt16.toNat_lt _)] at hsecond hthird
    rw [Nat.mod_eq_of_lt (show _ < 256 ^ 8 from UInt64.toNat_lt _), UInt64.ofNat_toNat] at hnode
    simp only [ByteArray.size_append, Bytes.size_uint32, Bytes.size_uint16] at hsecond hthird hnode
    rw [Guid.ofBytes, hfirst, hsecond, hthird, hnode, UInt32.ofNat_toNat, UInt16.ofNat_toNat,
      UInt16.ofNat_toNat]
  rw [Reader.guid, Reads.skip hsize.symm content hcontent]
  simp only [hparts]

end ManagedPdb
