import ManagedPdb.Proofs.Cursor.Field

/-!
# Where a failed read leaves the cursor

A field that is taken at once is there or it is not, and a read that fails stays where it is.  The
other fields are read in steps: a decimal number is four words, and text is found before it is
checked.  Such a read moves over the steps before the one that fails.  `Field.Fails` lists all
failures with the place where the reader stops, and `Field.failed_read_position` says which of them
move the cursor.
-/

namespace ManagedPdb.Cursor

namespace Field

/-- The number of bytes of a field that is taken at once. -/
def taken? : {α : Type} → Field α → Option Nat
  | _, decimal => none
  | _, field => field.width?

/-- The ways in which a field can fail: the cause and the offset of the error, and where the reader
stops. -/
inductive Fails (content : ByteArray) (position : Nat) :
    {α : Type} → Field α → ErrorKind → (offset stop : Nat) → Prop where
  /-- Not all bytes are there, and none is taken. -/
  | taken {α : Type} {field : Field α} {width : Nat} : field.taken? = some width →
      content.size < position + width →
      Fails content position field .unexpectedEnd position position
  /-- The words of a decimal number that are there are read. -/
  | decimal {words : Nat} : words < 4 → 4 * words ≤ content.size - position →
      content.size - position < 4 * words + 4 →
      Fails content position decimal .unexpectedEnd (position + 4 * words) (position + 4 * words)
  | length : content.size < position + 2 →
      Fails content position countedString .unexpectedEnd position position
  /-- The length is read, but not all bytes are there. -/
  | counted {length : UInt16} : StandsAt (Bytes.uint16 length) content position →
      content.size < position + 2 + length.toNat →
      Fails content position countedString .unexpectedEnd (position + 2) (position + 2)
  /-- All bytes are read and then checked. -/
  | countedText {length : UInt16} {bytes : ByteArray} : bytes.size = length.toNat →
      StandsAt (Bytes.uint16 length ++ bytes) content position →
      ¬ Utf8.WellFormed bytes.data.toList →
      Fails content position countedString .invalidString (position + 2)
        (position + 2 + bytes.size)
  | unterminated : 0 ∉ (content.extract position content.size).data.toList →
      Fails content position terminatedString .unexpectedEnd position position
  | unterminatedSkip : 0 ∉ (content.extract position content.size).data.toList →
      Fails content position skipTerminated .unexpectedEnd position position
  /-- All bytes and the zero byte are read, and then the bytes are checked. -/
  | terminatedText {bytes : ByteArray} : 0 ∉ bytes.data.toList →
      StandsAt (bytes ++ Bytes.uint8 0) content position →
      ¬ Utf8.WellFormed bytes.data.toList →
      Fails content position terminatedString .invalidString position
        (position + (bytes.size + 1))
  /-- The units that are there are read. -/
  | units {codes : List UInt16} : 0 ∉ codes →
      content.extract position (position + 2 * codes.length) = Utf16.bytes codes →
      content.size < position + 2 * codes.length + 2 →
      Fails content position utf16String .unexpectedEnd (position + 2 * codes.length)
        (position + 2 * codes.length)
  /-- All units and the zero unit are read, and then the units are checked. -/
  | unitsText {codes : List UInt16} : 0 ∉ codes →
      StandsAt (Utf16.bytes (codes ++ [0])) content position → ¬ Utf16.WellFormed codes →
      Fails content position utf16String .invalidString position
        (position + 2 * (codes.length + 1))

variable {α : Type} {content : ByteArray} {position stop : Nat}

/-! ### Fields that are taken at once -/

theorem reader_of_lt {field : Field α} {width : Nat} (htaken : field.taken? = some width)
    (hlt : content.size < position + width) :
    field.reader content position = .failed (.ofKindAt .unexpectedEnd position) position := by
  have hskip : Reader.skip width content position
      = .failed (.ofKindAt .unexpectedEnd position) position := by
    rw [Reader.skip, if_neg (Nat.not_le.mpr hlt)]
  have hword : Reader.word width content position
      = .failed (.ofKindAt .unexpectedEnd position) position := by
    rw [Reader.word, if_neg (Nat.not_le.mpr hlt)]
  cases field <;> cases htaken <;> simp only [reader]
  case uint8 | uint16 | uint32 | uint64 | float32 | float64 => exact Reader.bind_of_failed hword
  case int8 | int16 | int32 | int64 => exact Reader.bind_of_failed (Reader.bind_of_failed hword)
  case guid => rw [Reader.guid, hskip]
  case bytes => rw [Reader.bytes, hskip]
  case uint32s => rw [Reader.uint32s, hskip]

theorem width?_of_taken? {field : Field α} {width : Nat} (h : field.taken? = some width) :
    field.width? = some width := by
  cases field <;> first | exact h | cases h

/-- A field of a known size does not fail if all of it is there. -/
theorem exists_reader_eq_done {field : Field α} {width : Nat} (hwidth : field.width? = some width)
    (hle : position + width ≤ content.size) :
    ∃ value, field.reader content position = .done value (position + width) := by
  have hpiece : StandsAt (content.extract position (position + width)) content position :=
    .extract (Nat.le_add_right _ _) hle
  have hsize := (size_extract_of_le hle).trans (Nat.add_sub_cancel_left position width)
  obtain ⟨value, hvalue⟩ := exists_encodes hwidth hsize
  refine ⟨value, ?_⟩
  rw [reads hvalue content hpiece, hsize]

/-! ### Decimal numbers -/

/-- The word that is cut off is where a decimal number fails. -/
theorem decimal_of_lt {words : Nat} (hwords : words < 4)
    (hle : 4 * words ≤ content.size - position)
    (hlt : content.size - position < 4 * words + 4) :
    Reader.decimal content position
      = .failed (.ofKindAt .unexpectedEnd (position + 4 * words)) (position + 4 * words) := by
  have hfails : Reader.uint32 content (position + 4 * words)
      = .failed (.ofKindAt .unexpectedEnd (position + 4 * words)) (position + 4 * words) :=
    Reader.uint32_of_lt (by omega)
  have hcases : words = 0 ∨ words = 1 ∨ words = 2 ∨ words = 3 := by omega
  rcases hcases with rfl | rfl | rfl | rfl
  · exact Reader.bind_of_failed hfails
  · refine (Reader.bind_of_done (Reader.uint32_of_le (by omega))).trans ?_
    exact Reader.bind_of_failed hfails
  · refine (Reader.bind_of_done (Reader.uint32_of_le (by omega))).trans ?_
    refine (Reader.bind_of_done (Reader.uint32_of_le (by omega))).trans ?_
    exact Reader.bind_of_failed hfails
  · refine (Reader.bind_of_done (Reader.uint32_of_le (by omega))).trans ?_
    refine (Reader.bind_of_done (Reader.uint32_of_le (by omega))).trans ?_
    refine (Reader.bind_of_done (Reader.uint32_of_le (by omega))).trans ?_
    exact Reader.bind_of_failed hfails

/-! ### All failures -/

theorem Fails.reader_eq {field : Field α} {kind : ErrorKind} {offset : Nat}
    (h : Fails content position field kind offset stop) :
    field.reader content position = .failed (.ofKindAt kind offset) stop := by
  cases h with
  | taken htaken hlt => exact reader_of_lt htaken hlt
  | decimal hwords hle hlt => exact decimal_of_lt hwords hle hlt
  | length hlt => exact Reader.countedString_of_length_lt hlt
  | counted hlength hlt => exact Reader.countedString_of_bytes_lt hlength hlt
  | countedText hsize hpiece htext =>
    exact (Reader.countedString_eq_invalidString_iff hsize hpiece).mpr htext
  | unterminated hzero =>
    exact Reader.terminatedString_of_failed (Reader.terminatedBytes_of_zero_notMem hzero)
  | unterminatedSkip hzero =>
    exact Reader.bind_of_failed (Reader.terminatedBytes_of_zero_notMem hzero)
  | terminatedText hbytes hpiece htext =>
    exact (Reader.terminatedString_eq_invalidString_iff hbytes hpiece).mpr htext
  | units hcodes hpiece hlt =>
    exact Reader.utf16String_of_failed (Reader.iterate_addUnit_of_lt #[] hcodes hpiece hlt)
  | unitsText hcodes hpiece htext =>
    exact (Reader.utf16String_eq_invalidString_iff hcodes hpiece).mpr htext

/-- A field gives a value or fails in one of these ways. -/
theorem exists_done_or_fails (field : Field α) (content : ByteArray) (position : Nat) :
    (∃ value stop, field.reader content position = .done value stop) ∨
      ∃ kind offset stop, Fails content position field kind offset stop := by
  -- text that is all there is well formed or is not
  have htext : ∀ (bytes : ByteArray) (offset position : Nat), Utf8.WellFormed bytes.data.toList →
      ∃ text, Reader.utf8 bytes offset content position = .done text position := by
    intro bytes offset position hwellFormed
    obtain ⟨text, hbytes⟩ := Utf8.wellFormed_iff.mp hwellFormed
    rw [Bytes.toByteArray_toList] at hbytes
    exact ⟨text, Reader.utf8_eq_done_iff.mpr ⟨hbytes.symm, rfl⟩⟩
  cases htaken : field.taken? with
  | some width =>
    rcases Nat.lt_or_ge content.size (position + width) with hlt | hle
    · exact .inr ⟨_, _, _, .taken htaken hlt⟩
    · obtain ⟨value, hdone⟩ := exists_reader_eq_done (width?_of_taken? htaken) hle
      exact .inl ⟨value, _, hdone⟩
  | none =>
    cases field with
    | decimal =>
      rcases Nat.lt_or_ge content.size (position + 16) with hlt | hle
      · exact .inr ⟨_, _, _, @Fails.decimal _ _ ((content.size - position) / 4) (by omega)
          (by omega) (by omega)⟩
      · obtain ⟨value, hdone⟩ := @exists_reader_eq_done _ content position decimal 16 rfl hle
        exact .inl ⟨value, _, hdone⟩
    | countedString =>
      rcases Reader.counted_or_short content position with
        ⟨length, bytes, hsize, hpiece⟩ | hlt | ⟨length, hlength, hlt⟩
      · by_cases hwellFormed : Utf8.WellFormed bytes.data.toList
        · obtain ⟨text, hdone⟩ := htext bytes (position + 2) _ hwellFormed
          exact .inl ⟨text, _, (Reader.countedString_of_standsAt hsize hpiece).trans hdone⟩
        · exact .inr ⟨_, _, _, .countedText hsize hpiece hwellFormed⟩
      · exact .inr ⟨_, _, _, .length hlt⟩
      · exact .inr ⟨_, _, _, .counted hlength hlt⟩
    | terminatedString =>
      rcases Reader.terminated_or_not content position with ⟨bytes, hbytes, hpiece⟩ | hzero
      · by_cases hwellFormed : Utf8.WellFormed bytes.data.toList
        · obtain ⟨text, hdone⟩ := htext bytes position _ hwellFormed
          exact .inl ⟨text, _, (Reader.terminatedString_of_done
            (Reader.terminatedBytes_of_standsAt hbytes hpiece)).trans hdone⟩
        · exact .inr ⟨_, _, _, .terminatedText hbytes hpiece hwellFormed⟩
      · exact .inr ⟨_, _, _, .unterminated hzero⟩
    | utf16String =>
      rcases Reader.units_or_short content position with
        ⟨codes, hcodes, hpiece⟩ | ⟨codes, hcodes, hpiece, hlt⟩
      · by_cases hwellFormed : Utf16.WellFormed codes
        · obtain ⟨text, hencode⟩ := Utf16.wellFormed_iff.mp hwellFormed
          refine .inl ⟨text, position + 2 * (codes.length + 1), ?_⟩
          rw [reader, Reader.utf16String_of_done (Reader.terminatedUnits_of_standsAt hcodes hpiece),
            List.toList_toArray, Utf16.decode_eq_some_iff.mpr hencode]
        · exact .inr ⟨_, _, _, .unitsText hcodes hpiece hwellFormed⟩
      · exact .inr ⟨_, _, _, .units hcodes hpiece hlt⟩
    | skipTerminated =>
      rcases Reader.terminated_or_not content position with ⟨bytes, hbytes, hpiece⟩ | hzero
      · exact .inl ⟨(), _, Reader.bind_of_done (Reader.terminatedBytes_of_standsAt hbytes hpiece)⟩
      · exact .inr ⟨_, _, _, .unterminatedSkip hzero⟩
    | _ => cases htaken

theorem reader_eq_failed_iff {field : Field α} {error : DecodeError} :
    field.reader content position = .failed error stop ↔
      ∃ kind offset, error = .ofKindAt kind offset ∧
        Fails content position field kind offset stop := by
  constructor
  · intro h
    rcases exists_done_or_fails field content position with
      ⟨_, _, hdone⟩ | ⟨kind, offset, _, hfails⟩
    · rw [hdone] at h
      cases h
    · rw [hfails.reader_eq] at h
      cases h
      exact ⟨kind, offset, rfl, hfails⟩
  · rintro ⟨kind, offset, rfl, hfails⟩
    exact hfails.reader_eq

/-! ### Where the reader stops -/

/-- A failed read does not move: either the field is taken at once, or its first step fails. -/
def Stays (content : ByteArray) (position : Nat) :
    {α : Type} → Field α → (kind : ErrorKind) → Prop
  | _, decimal, _ => content.size < position + 4
  | _, countedString, _ => content.size < position + 2
  | _, terminatedString, kind => kind = .unexpectedEnd
  | _, utf16String, _ => content.size < position + 2
  | _, _, _ => True

theorem Fails.stop_eq_iff {field : Field α} {kind : ErrorKind} {offset : Nat}
    (h : Fails content position field kind offset stop) :
    stop = position ↔ Stays content position field kind := by
  cases h with
  | taken htaken hlt =>
    cases field with
    | decimal | countedString | terminatedString | utf16String => cases htaken
    | _ => simp only [Stays]
  | decimal hwords hle hlt => simp only [Stays]; omega
  | length hlt => simpa only [Stays, true_iff] using hlt
  | counted hlength hlt =>
    have hle := hlength.le_size
    rw [Bytes.size_uint16] at hle
    simp only [Stays]
    omega
  | countedText hsize hpiece htext =>
    have hle := hpiece.append_left.le_size
    rw [Bytes.size_uint16] at hle
    simp only [Stays]
    omega
  | unterminated hzero => simp only [Stays]
  | unterminatedSkip hzero => simp only [Stays]
  | terminatedText hbytes hpiece htext =>
    simp only [Stays, reduceCtorEq, iff_false]
    omega
  | @units codes hcodes hpiece hlt =>
    have hsize := congrArg ByteArray.size hpiece
    rw [ByteArray.size_extract, Utf16.size_bytes] at hsize
    simp only [Stays]
    omega
  | unitsText hcodes hpiece htext =>
    have hle := hpiece.le_size
    rw [Utf16.size_bytes, List.length_append, List.length_singleton] at hle
    simp only [Stays]
    omega

/-- A failed read does not move back, nor beyond the content. -/
theorem Fails.stop_mem {field : Field α} {kind : ErrorKind} {offset : Nat}
    (h : Fails content position field kind offset stop) (hposition : position ≤ content.size) :
    position ≤ stop ∧ stop ≤ content.size := by
  cases h with
  | taken | length | unterminated | unterminatedSkip => omega
  | decimal hwords hle hlt => omega
  | counted hlength hlt =>
    have hle := hlength.le_size
    rw [Bytes.size_uint16] at hle
    omega
  | countedText hsize hpiece htext =>
    have hle := hpiece.le_size
    rw [ByteArray.size_append, Bytes.size_uint16] at hle
    omega
  | terminatedText hbytes hpiece htext =>
    have hle := hpiece.le_size
    rw [ByteArray.size_append, Bytes.size_uint8] at hle
    omega
  | units hcodes hpiece hlt =>
    have hsize := congrArg ByteArray.size hpiece
    rw [ByteArray.size_extract, Utf16.size_bytes] at hsize
    omega
  | unitsText hcodes hpiece htext =>
    have hle := hpiece.le_size
    rw [Utf16.size_bytes, List.length_append, List.length_singleton] at hle
    omega

end Field

/-! ### Cursors -/

variable {α : Type} {cursor after : Cursor} {error : DecodeError}

theorem run_eq_error_iff {reader : Reader α} :
    cursor.run reader = (.error error, after) ↔
      ∃ stop, reader cursor.content cursor.position = .failed error stop ∧
        after = { cursor with position := stop } := by
  rw [run]
  cases reader cursor.content cursor.position with
  | done value stop => simp
  | failed error' stop => simp [eq_comm]

/-- A text that is read elsewhere leaves the cursor as it is, found or not. -/
theorem run_terminatedStringAt (cursor : Cursor) (target : Nat) :
    (cursor.run (Reader.terminatedStringAt target)).2 = cursor := by
  rw [run, Reader.terminatedStringAt, Reader.seek]
  by_cases htarget : target ≤ cursor.content.size
  · rw [if_pos htarget]
    dsimp only
    cases Reader.terminatedString cursor.content target <;> rfl
  · rw [if_neg htarget]

namespace Field

theorem run_eq_error_iff {field : Field α} :
    cursor.run field.reader = (.error error, after) ↔
      ∃ kind offset stop, error = .ofKindAt kind offset ∧
        after = { cursor with position := stop } ∧
        Fails cursor.content cursor.position field kind offset stop := by
  rw [Cursor.run_eq_error_iff]
  simp only [reader_eq_failed_iff]
  constructor
  · rintro ⟨stop, ⟨kind, offset, herror, hfails⟩, hafter⟩
    exact ⟨kind, offset, stop, herror, hafter, hfails⟩
  · rintro ⟨kind, offset, stop, herror, hafter, hfails⟩
    exact ⟨stop, ⟨kind, offset, herror, hfails⟩, hafter⟩

/-- A failed read leaves the buffer and the content as they are.  The position stays if the field is
taken at once, as all fields of a known size but the decimal number are, or if not even the first
step succeeds; else the cursor stands behind the steps that did.  A text that is read elsewhere
never moves the cursor. -/
theorem failed_read_position (cursor : Cursor) :
    (∀ (α : Type) (field : Field α) (error : DecodeError) (after : Cursor),
      cursor.run field.reader = (.error error, after) ↔
        ∃ kind offset stop, error = .ofKindAt kind offset ∧
          after = { cursor with position := stop } ∧
          Fails cursor.content cursor.position field kind offset stop) ∧
    (∀ (α : Type) (field : Field α) (error : DecodeError) (after : Cursor),
      cursor.run field.reader = (.error error, after) →
        (after = cursor ↔ Stays cursor.content cursor.position field error.kind)) ∧
    ∀ target, (cursor.run (Reader.terminatedStringAt target)).2 = cursor := by
  refine ⟨fun α field error after => run_eq_error_iff, ?_, run_terminatedStringAt cursor⟩
  intro α field error after h
  obtain ⟨kind, offset, stop, rfl, rfl, hfails⟩ := run_eq_error_iff.mp h
  rw [show (DecodeError.ofKindAt kind offset).kind = kind from rfl, ← hfails.stop_eq_iff]
  constructor
  · intro hsame
    exact congrArg Cursor.position hsame
  · rintro rfl
    rfl

/-- Four reads that fail at the bytes `05 00 ff 00` and move the cursor: behind the length of a text
that is cut off, behind the one word of a decimal number, behind a text that is not well formed, and
behind the units of a text without an end. -/
theorem failed_reads_move :
    let cursor := Cursor.ofBytes ⟨#[0x05, 0x00, 0xff, 0x00]⟩
    let middle := { cursor with position := 2 }
    let stop := { cursor with position := 4 }
    cursor.run Field.countedString.reader = (.error (.ofKindAt .unexpectedEnd 2), middle) ∧
    cursor.run Field.decimal.reader = (.error (.ofKindAt .unexpectedEnd 4), stop) ∧
    middle.run Field.terminatedString.reader = (.error (.ofKindAt .invalidString 2), stop) ∧
    cursor.run Field.utf16String.reader = (.error (.ofKindAt .unexpectedEnd 4), stop) ∧
    middle ≠ cursor ∧ stop ≠ cursor ∧ stop ≠ middle := by
  intro cursor middle stop
  have hcontent : cursor.content = ⟨#[0x05, 0x00, 0xff, 0x00]⟩ := by decide
  have hmiddle : middle.content = ⟨#[0x05, 0x00, 0xff, 0x00]⟩ := hcontent
  have hmoves : ∀ {left right : Cursor}, left.position ≠ right.position → left ≠ right :=
    fun hne heq => hne (congrArg Cursor.position heq)
  refine ⟨?_, ?_, ?_, ?_, hmoves (by decide), hmoves (by decide), hmoves (by decide)⟩
  · refine run_eq_error_iff.mpr ⟨_, _, _, rfl, rfl, @Fails.counted _ _ 5 ?_ ?_⟩
    · rw [hcontent]
      exact ⟨.empty, ⟨#[0xff, 0x00]⟩, by decide, rfl⟩
    · decide
  · exact run_eq_error_iff.mpr ⟨_, _, _, rfl, rfl, @Fails.decimal _ _ 1 (by decide) (by decide)
      (by decide)⟩
  · refine run_eq_error_iff.mpr ⟨_, _, _, rfl, rfl, @Fails.terminatedText _ _ ⟨#[0xff]⟩ ?_ ?_ ?_⟩
    · decide
    · rw [hmiddle]
      exact ⟨⟨#[0x05, 0x00]⟩, .empty, by decide, rfl⟩
    · exact Utf8.Defective.not_wellFormed (.stray (by decide))
  · refine run_eq_error_iff.mpr ⟨_, _, _, rfl, rfl, @Fails.units _ _ [0x0005, 0x00ff] ?_ ?_ ?_⟩
    · decide
    · rw [hcontent]
      decide
    · decide

end Field

end ManagedPdb.Cursor
