import ManagedPdb.Proofs.Draft.Nesting
import ManagedPdb.Proofs.Pieces
import ManagedPdb.Proofs.Symbol.TokenLines

/-!
# Frames of a written region

A writer pads records, keeps their lengths in 16 bits and goes back to fill in the ends of scopes.
Whatever it is told to write, the records stand in a row from the signature to the end of the
region, each where the writer said when it wrote it, and a walk by their lengths meets all of them.
Going back leaves every byte as it was but the four of one end: a record that does not overlap them
stands where it stood (`StandsAt.overwrite_apart`), and the one around them changes its end alone
(`StandsAt.overwrite_inside`).  The main statement is `SymbolRegion.ofCommands_framed`.
-/

namespace ManagedPdb

/-! ### Overwritten bytes -/

namespace Bytes

variable {bytes piece : ByteArray} {start low high : Nat}

/-- The bytes in front of the overwritten ones stay. -/
theorem extract_overwrite_front (room : start + piece.size ≤ bytes.size) (before : high ≤ start) :
    (overwrite bytes start piece).extract low high = bytes.extract low high := by
  have hfront : high ≤ (bytes.extract 0 start).size := by
    rw [ByteArray.size_extract]
    omega
  rw [overwrite, ByteArray.append_assoc, extract_append_left hfront, ByteArray.extract_extract,
    Nat.zero_add, Nat.zero_add, Nat.min_eq_left before]

/-- The bytes behind the overwritten ones stay. -/
theorem extract_overwrite_back (room : start + piece.size ≤ bytes.size)
    (behind : start + piece.size ≤ low) (order : low ≤ high) (inside : high ≤ bytes.size) :
    (overwrite bytes start piece).extract low high = bytes.extract low high := by
  have hfront : (bytes.extract 0 start ++ piece).size = start + piece.size := by
    rw [ByteArray.size_append, ByteArray.size_extract]
    omega
  have hparts := @ByteArray.extract_append_size_add (bytes.extract 0 start ++ piece)
    (bytes.extract (start + piece.size) bytes.size) (low - (start + piece.size))
    (high - (start + piece.size))
  rw [hfront, Nat.add_sub_cancel' behind, Nat.add_sub_cancel' (Nat.le_trans behind order),
    ByteArray.extract_extract, Nat.add_sub_cancel' behind,
    Nat.add_sub_cancel' (Nat.le_trans behind order), Nat.min_eq_left inside] at hparts
  exact hparts

end Bytes

namespace StandsAt

variable {piece content new front old back : ByteArray} {start place : Nat}

protected theorem append_content (h : StandsAt piece content start) (more : ByteArray) :
    StandsAt piece (content ++ more) start := by
  obtain ⟨before, after, rfl, hbefore⟩ := h
  exact ⟨before, after ++ more, by simp only [ByteArray.append_assoc], hbefore⟩

/-- A piece that the overwritten bytes are not in stands where it stood. -/
theorem overwrite_apart (h : StandsAt piece content start)
    (room : place + new.size ≤ content.size)
    (apart : start + piece.size ≤ place ∨ place + new.size ≤ start) :
    StandsAt piece (Bytes.overwrite content place new) start := by
  have hinside : start + piece.size ≤ (Bytes.overwrite content place new).size := by
    rw [Bytes.size_overwrite room]
    exact h.le_size
  have hsame : (Bytes.overwrite content place new).extract start (start + piece.size)
      = content.extract start (start + piece.size) := by
    rcases apart with hfront | hback
    · exact Bytes.extract_overwrite_front room hfront
    · exact Bytes.extract_overwrite_back room hback (Nat.le_add_right _ _) h.le_size
  have hstands := StandsAt.extract (Nat.le_add_right start piece.size) hinside
  rwa [hsame, h.extract_eq] at hstands

/-- A piece with the overwritten bytes inside. -/
theorem overwrite_inside (h : StandsAt (front ++ old ++ back) content start)
    (hsize : new.size = old.size) :
    StandsAt (front ++ new ++ back)
      (Bytes.overwrite content (start + front.size) new) start := by
  obtain ⟨before, after, rfl, rfl⟩ := h
  refine ⟨before, after, ?_, rfl⟩
  have hparts : before ++ (front ++ old ++ back) ++ after
      = before ++ front ++ old ++ (back ++ after) := by
    simp only [ByteArray.append_assoc]
  rw [hparts, ← ByteArray.size_append, Bytes.overwrite_append hsize]
  simp only [ByteArray.append_assoc]

end StandsAt

/-! ### Records with the ends of scopes -/

namespace SymbolCommand

/-- What the record of the command holds if its scope ends at `stop`.  Other records hold the same
anywhere. -/
def payloadWithEnd (stop : Nat) (command : SymbolCommand) : ByteArray :=
  match command.role with
  | .opens => Bytes.overwrite command.record.2 4 (Bytes.uint32 (UInt32.ofNat stop))
  | .closes | .stays => command.record.2

def bytesWithEnd (stop : Nat) (command : SymbolCommand) : ByteArray :=
  SymbolRegion.record command.record.1.code (command.payloadWithEnd stop)

variable {command : SymbolCommand}

theorem exists_tail_of_opens (h : command.role = .opens) :
    ∃ tail, command.record.2 = Bytes.uint32s [0, 0] ++ tail := by
  cases command with
  | method token segment address length name =>
    exact ⟨_, SymbolRegion.methodPayload_eq token segment address length name⟩
  | block address length =>
    refine ⟨SymbolRegion.blockTail address length, ?_⟩
    simp [record, SymbolRegion.blockPayload, SymbolRegion.blockTail, ByteArray.append_assoc]
  | _ => cases h

/-- The record that opens a scope, with the end filled in. -/
theorem exists_openingRecord (h : command.role = .opens) :
    ∃ tail, command.bytes = SymbolRegion.openingRecord command.record.1 0 tail ∧
      ∀ stop, command.bytesWithEnd stop
        = SymbolRegion.openingRecord command.record.1 stop tail := by
  obtain ⟨tail, hpayload⟩ := exists_tail_of_opens h
  refine ⟨tail, by rw [bytes, hpayload]; rfl, fun stop => ?_⟩
  have hparts (value : UInt32) :
      Bytes.uint32s [0, value] ++ tail = Bytes.uint32 0 ++ Bytes.uint32 value ++ tail := by
    simp
  have hfilled : Bytes.overwrite command.record.2 4 (Bytes.uint32 (UInt32.ofNat stop))
      = Bytes.uint32s [0, UInt32.ofNat stop] ++ tail := by
    rw [hpayload, hparts, hparts, ← Bytes.size_uint32 0, Bytes.overwrite_append (by simp)]
  rw [bytesWithEnd, payloadWithEnd, h, SymbolRegion.openingRecord]
  simp only [hfilled]

theorem bytesWithEnd_of_ne (h : command.role ≠ .opens) (stop : Nat) :
    command.bytesWithEnd stop = command.bytes := by
  rw [bytesWithEnd, payloadWithEnd, bytes]
  cases hrole : command.role with
  | opens => exact absurd hrole h
  | closes | stays => rfl

/-- At first no end is filled in. -/
theorem bytesWithEnd_zero (command : SymbolCommand) : command.bytesWithEnd 0 = command.bytes := by
  by_cases h : command.role = .opens
  · obtain ⟨tail, hbytes, hends⟩ := exists_openingRecord h
    rw [hends, hbytes]
  · exact bytesWithEnd_of_ne h 0

theorem size_bytesWithEnd (stop : Nat) (command : SymbolCommand) :
    (command.bytesWithEnd stop).size = command.bytes.size := by
  by_cases h : command.role = .opens
  · obtain ⟨tail, hbytes, hends⟩ := exists_openingRecord h
    rw [hends, hbytes, SymbolRegion.size_openingRecord]
  · rw [bytesWithEnd_of_ne h]

theorem size_payloadWithEnd (stop : Nat) (command : SymbolCommand) :
    (command.payloadWithEnd stop).size = command.record.2.size := by
  rw [payloadWithEnd]
  cases hrole : command.role with
  | closes | stays => rfl
  | opens =>
    obtain ⟨tail, hpayload⟩ := exists_tail_of_opens hrole
    refine Bytes.size_overwrite ?_
    rw [hpayload]
    simp

/-- The record of a scope has room for the end. -/
theorem twelve_le_size_bytes (h : command.role = .opens) : 12 ≤ command.bytes.size := by
  obtain ⟨tail, hbytes, -⟩ := exists_openingRecord h
  obtain ⟨front, back, hfront, hrecord⟩ :=
    SymbolRegion.openingRecord_eq command.record.1 tail
  rw [hbytes, hrecord, ByteArray.size_append, ByteArray.size_append, hfront, Bytes.size_uint32]
  omega

/-- What stands behind the length and the kind of a record. -/
theorem extract_payload {content : ByteArray} {start stop : Nat}
    (hstands : StandsAt (command.bytesWithEnd stop) content start) :
    content.extract (start + 4) (start + command.bytes.size)
      = Bytes.padded (command.payloadWithEnd stop) := by
  have hsize : command.bytes.size = 4 + (Bytes.padded (command.payloadWithEnd stop)).size := by
    rw [← size_bytesWithEnd stop, bytesWithEnd, SymbolRegion.size_record]
  have hpayload := hstands.append_right.extract_eq
  rw [ByteArray.size_append, Bytes.size_uint16, Bytes.size_uint16] at hpayload
  rw [hsize, ← Nat.add_assoc]
  exact hpayload

/-- The end of a scope takes the place of another one. -/
theorem overwrite_end {content : ByteArray} {start stop : Nat} (h : command.role = .opens)
    (hstands : StandsAt (command.bytesWithEnd stop) content start) (last : Nat) :
    StandsAt (command.bytesWithEnd last)
      (Bytes.overwrite content (start + 8) (Bytes.uint32 (UInt32.ofNat last))) start := by
  obtain ⟨tail, -, hends⟩ := exists_openingRecord h
  obtain ⟨front, back, hfront, hrecord⟩ :=
    SymbolRegion.openingRecord_eq command.record.1 tail
  rw [hends, hrecord] at hstands ⊢
  rw [← hfront]
  exact hstands.overwrite_inside (by simp)

end SymbolCommand

/-! ### Offsets of records -/

namespace SymbolRegion

open SymbolCommand (InnermostOpen ClosedAt openScopes)

variable {commands more : List SymbolCommand} {command : SymbolCommand} {index other : Nat}

/-- The offset that is given for the record of the command at an index, when it is written. -/
def offsetOf (commands : List SymbolCommand) (index : Nat) : Nat :=
  (ofCommands (commands.take index)).nextOffset

theorem offsetOf_eq (commands : List SymbolCommand) (index : Nat) :
    offsetOf commands index = 4 + SymbolCommand.sizeOf (commands.take index) :=
  (Holds.ofCommands _).size_eq

theorem offsetOf_length (commands : List SymbolCommand) :
    offsetOf commands commands.length = (ofCommands commands).bytes.size := by
  rw [offsetOf, List.take_length, nextOffset]

theorem offsetOf_append (inside : index ≤ commands.length) (more : List SymbolCommand) :
    offsetOf (commands ++ more) index = offsetOf commands index := by
  rw [offsetOf, offsetOf, List.take_append_of_le_length inside]

theorem sizeOf_append (left right : List SymbolCommand) :
    SymbolCommand.sizeOf (left ++ right)
      = SymbolCommand.sizeOf left + SymbolCommand.sizeOf right := by
  rw [SymbolCommand.sizeOf, List.map_append, List.sum_append]
  rfl

theorem offsetOf_succ (h : commands[index]? = some command) :
    offsetOf commands (index + 1) = offsetOf commands index + command.bytes.size := by
  rw [offsetOf_eq, offsetOf_eq, List.take_add_one, h, sizeOf_append, Nat.add_assoc]
  rfl

theorem offsetOf_le_of_le (h : index ≤ other) :
    offsetOf commands index ≤ offsetOf commands other := by
  have hparts : commands.take other = commands.take index ++ (commands.take other).drop index := by
    have htake := List.take_append_drop index (commands.take other)
    rw [List.take_take, Nat.min_eq_left h] at htake
    exact htake.symm
  rw [offsetOf_eq, offsetOf_eq, hparts, sizeOf_append]
  omega

theorem offsetOf_mod_four (commands : List SymbolCommand) (index : Nat) :
    offsetOf commands index % 4 = 0 := by
  rw [offsetOf_eq]
  induction commands.take index with
  | nil => rfl
  | cons command rest ih =>
    have hrecord := size_record_mod_four command.record.1.code command.record.2
    have hsize : SymbolCommand.sizeOf [command]
        = (record command.record.1.code command.record.2).size := rfl
    rw [← List.singleton_append, sizeOf_append, hsize]
    omega

/-! ### Steps of the writer -/

theorem ofCommands_concat (commands : List SymbolCommand) (command : SymbolCommand) :
    ofCommands (commands ++ [command]) = (ofCommands commands).apply command := by
  rw [ofCommands, List.foldl_append]
  rfl

theorem apply_bytes_of_ne (h : command.role ≠ .closes) (region : SymbolRegion) :
    (region.apply command).bytes = region.bytes ++ command.bytes := by
  cases command with
  | close kind => exact absurd rfl h
  | _ => rfl

theorem apply_bytes_of_closes (h : command.role = .closes) (region : SymbolRegion) :
    (region.apply command).bytes = region.fillEnd.bytes ++ command.bytes := by
  cases command with
  | close kind => rfl
  | _ => cases h

theorem fillEnd_openEnds (region : SymbolRegion) :
    region.fillEnd.openEnds = region.openEnds.tail := by
  rw [fillEnd]
  split
  · next h => rw [h]; rfl
  · next h => rw [h]; rfl

/-- The places of open ends are kept as the indices of their commands are. -/
theorem apply_openEnds (region : SymbolRegion) (command : SymbolCommand) :
    (region.apply command).openEnds = match command.role with
      | .opens => (region.nextOffset + 8) :: region.openEnds
      | .closes => region.openEnds.tail
      | .stays => region.openEnds := by
  cases command with
  | close kind => exact fillEnd_openEnds region
  | _ => rfl

/-- The open ends are those of the open scopes. -/
theorem openEnds_ofCommands (commands : List SymbolCommand) :
    (ofCommands commands).openEnds
      = (openScopes 0 [] commands).map fun index => offsetOf commands index + 8 := by
  induction commands using List.reverseRecOn with
  | nil => rfl
  | append_singleton commands command ih =>
    have hkept : (openScopes 0 [] commands).map (fun index => offsetOf commands index + 8)
        = (openScopes 0 [] commands).map
            fun index => offsetOf (commands ++ [command]) index + 8 := by
      refine List.map_congr_left fun index hindex => ?_
      rcases SymbolCommand.mem_openScopes hindex with hnone | hlt
      · cases hnone
      · rw [offsetOf_append (by omega)]
    rw [ofCommands_concat, apply_openEnds, ih, hkept, SymbolCommand.openScopes_append, openScopes,
      openScopes, SymbolCommand.openBehind]
    cases command.role with
    | stays => rfl
    | closes => rw [List.map_tail]
    | opens =>
      rw [List.map_cons, Nat.zero_add, offsetOf_append (Nat.le_refl _), offsetOf_length, nextOffset]

/-- A close fills in the end of the innermost open scope. -/
theorem fillEnd_of_open (h : InnermostOpen commands index) :
    (ofCommands commands).fillEnd.bytes
      = Bytes.overwrite (ofCommands commands).bytes (offsetOf commands index + 8)
          (Bytes.uint32 (UInt32.ofNat (offsetOf commands commands.length))) := by
  obtain ⟨scopes, hscopes⟩ :=
    List.head?_eq_some_iff.mp (SymbolCommand.head?_openScopes.mpr h)
  have hopen := openEnds_ofCommands commands
  rw [hscopes, List.map_cons] at hopen
  rw [fillEnd, hopen, offsetOf_length, nextOffset]

/-- A close fills in nothing if nothing is open. -/
theorem fillEnd_of_none (h : ∀ index, ¬ InnermostOpen commands index) :
    (ofCommands commands).fillEnd = ofCommands commands := by
  have hnone : openScopes 0 [] commands = [] := by
    refine List.head?_eq_none_iff.mp (Option.eq_none_iff_forall_not_mem.mpr fun index hindex => ?_)
    exact h index (SymbolCommand.head?_openScopes.mp hindex)
  have hopen := openEnds_ofCommands commands
  rw [hnone, List.map_nil] at hopen
  rw [fillEnd, hopen]

/-! ### Ends of scopes -/

/-- The end that the record at an index holds: the offset of the record that closes its scope, if
there is one, and zero else. -/
structure EndsAt (commands : List SymbolCommand) (index stop : Nat) : Prop where
  closed : ∀ closing, ClosedAt commands index closing → stop = offsetOf commands closing
  unclosed : (∀ closing, ¬ ClosedAt commands index closing) → stop = 0

namespace EndsAt

variable {stop : Nat}

/-- One more command leaves the end of a scope as it is, unless it closes that scope. -/
theorem concat (h : EndsAt commands index stop)
    (other : command.role = .closes → ¬ InnermostOpen commands index) :
    EndsAt (commands ++ [command]) index stop where
  closed closing hclosing := by
    rcases SymbolCommand.closedAt_concat_iff.mp hclosing with hbefore | ⟨-, hrole, hopen⟩
    · rw [offsetOf_append (Nat.le_of_lt hbefore.lt_length.2)]
      exact h.closed closing hbefore
    · exact absurd hopen (other hrole)
  unclosed hnone := h.unclosed fun closing hclosing =>
    hnone closing (SymbolCommand.closedAt_concat_iff.mpr (.inl hclosing))

/-- The last command ends no scope of its own. -/
theorem last : EndsAt (commands ++ [command]) commands.length 0 where
  closed closing hclosing := by
    have hlt := hclosing.lt_length
    rw [List.length_append, List.length_singleton] at hlt
    omega
  unclosed _ := rfl

/-- The last command closes the innermost open scope. -/
theorem of_closes (hopen : InnermostOpen commands index) (hrole : command.role = .closes) :
    EndsAt (commands ++ [command]) index (offsetOf commands commands.length) where
  closed closing hclosing := by
    rcases SymbolCommand.closedAt_concat_iff.mp hclosing with hbefore | ⟨rfl, -⟩
    · exact absurd hbefore (hopen.not_closedAt closing)
    · rw [offsetOf_append (Nat.le_refl _)]
  unclosed hnone := by
    have hlast := SymbolCommand.closedAt_concat_iff.mpr (.inr ⟨rfl, hrole, hopen⟩)
    exact absurd hlast (hnone commands.length)

/-- No end is behind the region. -/
theorem le_offsetOf (h : EndsAt commands index stop) :
    stop ≤ offsetOf commands commands.length := by
  by_cases hclosed : ∃ closing, ClosedAt commands index closing
  · obtain ⟨closing, hclosing⟩ := hclosed
    rw [h.closed closing hclosing]
    exact offsetOf_le_of_le (Nat.le_of_lt hclosing.lt_length.2)
  · rw [h.unclosed (not_exists.mp hclosed)]
    exact Nat.zero_le _

end EndsAt

/-- The record of each command stands at its offset, with the end of its scope. -/
def Keeps (commands : List SymbolCommand) (content : ByteArray) : Prop :=
  ∀ index command, commands[index]? = some command → ∃ stop, EndsAt commands index stop ∧
    StandsAt (command.bytesWithEnd stop) content (offsetOf commands index)

namespace Keeps

variable {content : ByteArray}

/-- A record that is appended behind the others. -/
theorem concat (hsize : content.size = offsetOf commands commands.length)
    (hkept : ∀ index found, commands[index]? = some found →
      ∃ stop, EndsAt (commands ++ [command]) index stop ∧
        StandsAt (found.bytesWithEnd stop) content (offsetOf commands index)) :
    Keeps (commands ++ [command]) (content ++ command.bytes) := by
  intro index found hfound
  rcases Nat.lt_trichotomy index commands.length with hlt | rfl | hgt
  · rw [List.getElem?_append_left hlt] at hfound
    obtain ⟨stop, hstop, hstands⟩ := hkept index found hfound
    rw [offsetOf_append (Nat.le_of_lt hlt)]
    exact ⟨stop, hstop, hstands.append_content _⟩
  · rw [List.getElem?_append_right (Nat.le_refl _), Nat.sub_self] at hfound
    cases hfound
    refine ⟨0, .last, ?_⟩
    rw [offsetOf_append (Nat.le_refl _), SymbolCommand.bytesWithEnd_zero, ← hsize]
    exact ⟨content, .empty, ByteArray.append_empty.symm, rfl⟩
  · rw [List.getElem?_eq_none (by grind)] at hfound
    cases hfound

/-- A command that fills in no end. -/
theorem append (h : Keeps commands content)
    (hsize : content.size = offsetOf commands commands.length)
    (none : command.role = .closes → ∀ index, ¬ InnermostOpen commands index) :
    Keeps (commands ++ [command]) (content ++ command.bytes) := by
  refine concat hsize fun index found hfound => ?_
  obtain ⟨stop, hstop, hstands⟩ := h index found hfound
  exact ⟨stop, hstop.concat fun hrole => none hrole index, hstands⟩

/-- A command that closes a scope changes the record of that scope alone. -/
theorem close {opening : Nat} (h : Keeps commands content)
    (hsize : content.size = offsetOf commands commands.length)
    (hopen : InnermostOpen commands opening) (hrole : command.role = .closes) :
    Keeps (commands ++ [command])
      (Bytes.overwrite content (offsetOf commands opening + 8)
        (Bytes.uint32 (UInt32.ofNat (offsetOf commands commands.length))) ++ command.bytes) := by
  obtain ⟨opener, hopener, hopens⟩ := hopen.exists_opener
  have hnext := offsetOf_succ hopener
  have hwide := SymbolCommand.twelve_le_size_bytes hopens
  have hinside : offsetOf commands (opening + 1) ≤ content.size :=
    hsize ▸ offsetOf_le_of_le hopen.lt_length
  have hroom : offsetOf commands opening + 8
      + (Bytes.uint32 (UInt32.ofNat (offsetOf commands commands.length))).size
        ≤ content.size := by
    rw [Bytes.size_uint32]
    omega
  refine concat (by rw [Bytes.size_overwrite hroom, hsize]) fun index found hfound => ?_
  obtain ⟨stop, hstop, hstands⟩ := h index found hfound
  -- records do not overlap, so the end is inside one record and apart from all others
  by_cases hindex : index = opening
  · subst hindex
    rw [hopener] at hfound
    cases hfound
    exact ⟨_, .of_closes hopen hrole, SymbolCommand.overwrite_end hopens hstands _⟩
  · refine ⟨stop, hstop.concat fun _ hother => hindex (hopen.unique hother),
      hstands.overwrite_apart hroom ?_⟩
    rw [SymbolCommand.size_bytesWithEnd, ← offsetOf_succ hfound, Bytes.size_uint32]
    rcases Nat.lt_or_gt_of_ne hindex with hlt | hgt
    · have hle := @offsetOf_le_of_le commands (index + 1) opening hlt
      exact .inl (by omega)
    · have hle := @offsetOf_le_of_le commands (opening + 1) index hgt
      exact .inr (by omega)

end Keeps

theorem keeps_ofCommands (commands : List SymbolCommand) :
    Keeps commands (ofCommands commands).bytes := by
  induction commands using List.reverseRecOn with
  | nil =>
    intro index command hcommand
    cases hcommand
  | append_singleton commands command ih =>
    have hsize := (offsetOf_length commands).symm
    rw [ofCommands_concat]
    by_cases hrole : command.role = .closes
    · rw [apply_bytes_of_closes hrole]
      by_cases hopen : ∃ opening, InnermostOpen commands opening
      · obtain ⟨opening, hopen⟩ := hopen
        rw [fillEnd_of_open hopen]
        exact ih.close hsize hopen hrole
      · have hnone := not_exists.mp hopen
        rw [fillEnd_of_none hnone]
        exact ih.append hsize fun _ => hnone
    · rw [apply_bytes_of_ne hrole]
      exact ih.append hsize fun hcloses => absurd hcloses hrole

/-! ### Walking over the records -/

/-- The record of a command as a walk should meet it: at the offset that was given for it, with its
kind, in front of the next one. -/
def frame (commands : List SymbolCommand) (entry : SymbolCommand × Nat) : RegionRecord where
  start := offsetOf commands entry.2
  header := ⟨.ofCode entry.1.record.1.code, offsetOf commands (entry.2 + 1)⟩

/-- A record of a command is met where it stands. -/
theorem recordsFrom_of_stands {content : ByteArray} {start stop : Nat}
    (fits : command.record.2.size ≤ 65532)
    (hstands : StandsAt (command.bytesWithEnd stop) content start) :
    recordsFrom content.size content start
      = ⟨start, .ofCode command.record.1.code, start + command.bytes.size⟩
        :: recordsFrom content.size content (start + command.bytes.size) := by
  have hfits : (command.payloadWithEnd stop).size ≤ 65532 := by
    rwa [SymbolCommand.size_payloadWithEnd]
  have hinside := hstands.le_size
  have hheader := Reads.recordHeader hfits hinside content hstands.append_left
  have hsize : (record command.record.1.code (command.payloadWithEnd stop)).size
      = command.bytes.size := SymbolCommand.size_bytesWithEnd stop command
  rw [hsize] at hheader
  rw [SymbolCommand.size_bytesWithEnd] at hinside
  exact recordsFrom_of_header hheader hinside

/-- A walk from the record of any command on meets the records of all commands from there on. -/
theorem recordsFrom_of_keeps {content : ByteArray} (keeps : Keeps commands content)
    (hsize : content.size = offsetOf commands commands.length)
    (fits : ∀ command ∈ commands, command.record.2.size ≤ 65532)
    {before after : List SymbolCommand} (hcommands : commands = before ++ after) :
    recordsFrom content.size content (offsetOf commands before.length)
      = (after.zipIdx before.length).map (frame commands) := by
  induction after generalizing before with
  | nil =>
    rw [List.append_nil] at hcommands
    rw [← hcommands, ← hsize, recordsFrom_of_le (Nat.le_refl _)]
    rfl
  | cons command rest ih =>
    have hcommand : commands[before.length]? = some command := by simp [hcommands]
    obtain ⟨stop, -, hstands⟩ := keeps _ _ hcommand
    have hfits := fits command (List.mem_of_getElem? hcommand)
    have hrest := @ih (before ++ [command]) (by simp [hcommands])
    rw [List.length_append, List.length_singleton] at hrest
    rw [recordsFrom_of_stands hfits hstands, ← offsetOf_succ hcommand, hrest, List.zipIdx_cons,
      List.map_cons]
    rfl

/-! ### Going back -/

/-- A close has filled in the end at a place and has written its record.  All other bytes are as
they were. -/
structure FillsEnd (region after : SymbolRegion) (place : Nat) (closer : UInt16) : Prop where
  inside : place + 4 ≤ region.nextOffset
  front : after.bytes.extract 0 place = region.bytes.extract 0 place
  filled : LittleEndian.read after.bytes place 4 = region.nextOffset
  back : after.bytes.extract (place + 4) region.nextOffset
    = region.bytes.extract (place + 4) region.nextOffset
  closing : after.bytes.extract region.nextOffset after.bytes.size = record closer .empty

theorem fillsEnd_of_open {closer : UInt16} {opening : Nat}
    (short : (ofCommands commands).bytes.size < 2 ^ 32) (hopen : InnermostOpen commands opening) :
    FillsEnd (ofCommands commands) ((ofCommands commands).apply (.close closer))
      (offsetOf commands opening + 8) closer := by
  obtain ⟨opener, hopener, hopens⟩ := hopen.exists_opener
  let place := offsetOf commands opening + 8
  let stop := Bytes.uint32 (UInt32.ofNat (ofCommands commands).bytes.size)
  have hbytes : ((ofCommands commands).apply (.close closer)).bytes
      = Bytes.overwrite (ofCommands commands).bytes place stop ++ record closer .empty := by
    rw [apply_bytes_of_closes rfl, fillEnd_of_open hopen, offsetOf_length]
    rfl
  have hwide := SymbolCommand.twelve_le_size_bytes hopens
  have hnext := offsetOf_succ hopener
  have hinside : offsetOf commands (opening + 1) ≤ (ofCommands commands).bytes.size :=
    offsetOf_length commands ▸ offsetOf_le_of_le hopen.lt_length
  have hroom : place + stop.size ≤ (ofCommands commands).bytes.size := by
    rw [Bytes.size_uint32]
    omega
  have hsize := Bytes.size_overwrite hroom
  constructor
  case inside =>
    rw [Bytes.size_uint32] at hroom
    exact hroom
  case front =>
    rw [hbytes, Bytes.extract_append_left (by omega)]
    exact Bytes.extract_overwrite_front hroom (Nat.le_refl _)
  case filled =>
    have hstop : StandsAt stop (Bytes.overwrite (ofCommands commands).bytes place stop) place :=
      ⟨_, _, rfl, by rw [ByteArray.size_extract]; omega⟩
    rw [hbytes, LittleEndian.read_of_standsAt (hstop.append_content _),
      UInt32.toNat_ofNat_of_lt' short]
    exact Nat.mod_eq_of_lt short
  case back =>
    rw [hbytes, Bytes.extract_append_left (by rw [hsize]; rfl)]
    exact Bytes.extract_overwrite_back hroom (Nat.le_of_eq rfl) hroom (Nat.le_refl _)
  case closing =>
    rw [hbytes]
    exact ByteArray.extract_append_eq_right hsize.symm (ByteArray.size_append ..)

/-- The records of the commands stand in the region in a row. -/
structure WellFramed (commands : List SymbolCommand) (region : SymbolRegion) : Prop where
  signature : StandsAt (Bytes.uint32 4) region.bytes 0
  aligned : 4 ∣ region.bytes.size
  /-- A walk by the lengths of the records meets each of them at the offset that was given for it,
  with its kind. -/
  walk : recordsFrom region.bytes.size region.bytes 4 = commands.zipIdx.map (frame commands)
  /-- The last record ends with the region. -/
  last : offsetOf commands commands.length = region.bytes.size
  /-- A record holds its padded payload, with the end of the scope that it opens. -/
  payload : ∀ index command, commands[index]? = some command →
    ∃ stop < 2 ^ 32, EndsAt commands index stop ∧
      region.bytes.extract (offsetOf commands index + 4) (offsetOf commands (index + 1))
        = Bytes.padded (command.payloadWithEnd stop)
  /-- A close fills in the end of the innermost open scope. -/
  fills : ∀ opening closer, InnermostOpen commands opening →
    FillsEnd region (region.apply (.close closer)) (offsetOf commands opening + 8) closer
  /-- Where nothing is open, a close fills in nothing. -/
  fillsNothing : ∀ closer, (∀ opening, ¬ InnermostOpen commands opening) →
    (region.apply (.close closer)).bytes = region.bytes ++ record closer .empty

/-- Whatever a writer is told to write, the region is well framed, whether or not the commands close
the scopes that they open.  A payload has to fit into its length, and the region into the ends. -/
theorem ofCommands_framed (commands : List SymbolCommand)
    (fits : ∀ command ∈ commands, command.record.2.size ≤ 65532)
    (short : (ofCommands commands).bytes.size < 2 ^ 32) :
    WellFramed commands (ofCommands commands) := by
  have keeps := keeps_ofCommands commands
  have hsize := offsetOf_length commands
  constructor
  case signature =>
    obtain ⟨pieces, -, hbytes⟩ := (Holds.ofCommands commands).bytes
    rw [hbytes]
    exact (StandsAt.self _).append_left
  case aligned =>
    rw [← hsize]
    exact Nat.dvd_of_mod_eq_zero (offsetOf_mod_four commands _)
  case walk => exact recordsFrom_of_keeps keeps hsize.symm fits (List.nil_append _).symm
  case last => exact hsize
  case payload =>
    intro index command hcommand
    obtain ⟨stop, hstop, hstands⟩ := keeps index command hcommand
    have hle := hstop.le_offsetOf
    refine ⟨stop, by omega, hstop, ?_⟩
    rw [offsetOf_succ hcommand]
    exact SymbolCommand.extract_payload hstands
  case fills => exact fun opening closer hopen => fillsEnd_of_open short hopen
  case fillsNothing =>
    intro closer hnone
    rw [apply_bytes_of_closes rfl, fillEnd_of_none hnone]
    rfl

/-- A close with nothing to close, a method that stays open, and a payload of an odd size. -/
theorem ofCommands_framed_unbalanced :
    let commands : List SymbolCommand :=
      [.close 6, .method 0x06000001 1 0 4 "Odd", .slot 0 0 "x", .block 0 4,
        .raw 0x1234 ⟨#[1, 2, 3]⟩, .close 7]
    (∀ command ∈ commands, command.record.2.size ≤ 65532) ∧
      (ofCommands commands).bytes.size < 2 ^ 32 ∧
      WellFramed commands (ofCommands commands) :=
  have fits := by decide
  have short := by decide +kernel
  ⟨fits, short, ofCommands_framed _ fits short⟩

end SymbolRegion

end ManagedPdb
