import ManagedPdb.Line.Block
import ManagedPdb.Proofs.Machine.Symbol
import ManagedPdb.TokenLine

/-!
# Line regions on a machine

The ends of subsections and blocks are sums in 64 bits, and the last line of an entry is a sum in
32 bits.  The offset of a checksum record is a difference, which needs the record to be behind the
start of its subsection.
-/

namespace ManagedPdb

variable {σ : Type}

namespace Machine

/-! ### Subsections -/

def subsection (limit : Nat) (found : Array Subsection) : Machine (Array Subsection) := do
  let kind ← uint32
  let length ← uint32
  let start ← position
  let stop ← Checked.add 64 start length.toNat
  if limit < stop then failAt .unexpectedEnd (← Checked.sub start 8)
  seek stop
  align 4
  if kind &&& Subsection.ignoredFlag = 0 then return found.push { kind, start, stop }
  else return found

def subsections (start limit : Nat) : Machine (List Subsection) := do
  seek start
  let found ← whileBelow limit (subsection limit) #[]
  return found.toList

def subsectionsOf (kind : UInt32) (start limit : Nat) : Machine (List Subsection) :=
  return (← subsections start limit).filter (·.kind == kind)

/-! ### Checksum records -/

/-- A loader of source files that may fault. -/
abbrev Loader (σ : Type) : Type :=
  UInt32 → UInt8 → ByteArray → σ → Option (Except DecodeError (SourceRef × σ))

def checksumRecord (load : Loader σ) (start : Nat) (state : ChecksumTable × σ) :
    Machine (ChecksumTable × σ) := do
  let offset ← Checked.sub (← position) start
  let nameId ← uint32
  let length ← uint8
  let kind ← uint8
  let checksum ← take length.toNat
  let result ← load nameId kind checksum state.2
  let loaded ← ofExcept result
  align 4
  return (state.1.insert (UInt32.ofNat offset) loaded.1, loaded.2)

def checksumSubsections (load : Loader σ) (state : ChecksumTable × σ) :
    (subsections : List Subsection) → Machine (ChecksumTable × σ)
  | [] => return state
  | subsection :: rest => do
    seek subsection.start
    let state ← whileBelow subsection.stop (checksumRecord load subsection.start) state
    checksumSubsections load state rest

def checksums (load : Loader σ) (start stop : Nat) (sources : σ) : Machine (ChecksumTable × σ) := do
  let subsections ← subsectionsOf Subsection.checksumsKind start stop
  checksumSubsections load (∅, sources) subsections

/-! ### Blocks -/

def linesHeader : Machine LinesHeader := do
  let address ← uint32
  let segment ← uint16
  let flags ← uint16
  let _codeSize ← uint32
  return { address, segment, hasColumns := flags &&& 1 != 0 }

def lineRecord : Machine LineRecord := do
  let offset ← uint32
  let packed ← uint32
  let startLine := packed &&& 0x00ffffff
  let distance := (packed &&& 0x7f000000) >>> 24
  let endLine ← Checked.add 32 startLine.toNat distance.toNat
  return { offset, startLine, endLine := UInt32.ofNat endLine, startColumn := 0, endColumn := 0 }

def columns (before : Array LineRecord) : (lines : List LineRecord) → Machine (List LineRecord)
  | [] => return before.toList
  | line :: lines => do
    let startColumn ← uint16
    let endColumn ← uint16
    columns (before.push { line with startColumn, endColumn }) lines

/-- The end of a block with `count` entries, unless that is beyond the end of the subsection. -/
def blockStop (stop linesStart count : Nat) (hasColumns : Bool) : Option Nat := do
  let size ← Checked.mul 64 count (LineTable.entrySize hasColumns)
  let blockStop ← Checked.add 64 linesStart size
  if blockStop ≤ stop then some blockStop else none

def lineBlock (checksums : ChecksumTable) (hasColumns : Bool) (stop : Nat) : Machine LineTable := do
  let blockStart ← position
  let fileId ← uint32
  let count ← uint32
  let _blockSize ← uint32
  let linesStart ← position
  -- an end that does not fit is an error and no fault
  match blockStop stop linesStart count.toNat hasColumns with
  | none => failAt .invalidLineBlock blockStart
  | some blockStop =>
    Checked.room count.toNat 16
    let lines ← times count.toNat lineRecord
    let lines ← if hasColumns then columns #[] lines else pure lines
    seek blockStop
    return { fileId, file := checksums.file? fileId, lines }

def lineBlocks (checksums : ChecksumTable) (hasColumns : Bool) (stop : Nat) :
    Machine (List LineTable) := do
  let tables ← whileBelow stop (fun tables => do
    return tables.push (← lineBlock checksums hasColumns stop)) #[]
  return tables.toList

/-! ### Token lines -/

def tokenLine : Machine (UInt32 × TokenLine) := do
  let token ← uint32
  let fileId ← uint32
  let line ← uint32
  let column ← uint32
  let endLine ← uint32
  let endColumn ← uint32
  return (token, { fileId, file := none, line, column, endLine, endColumn })

def tokenLineOrSkip (limit : Nat) (found : Array (UInt32 × TokenLine)) :
    Machine (Array (UInt32 × TokenLine)) := do
  let header ← recordHeader limit
  let found ←
    if header.kind = .vendor then do
      let name ← vendorName
      if name = tokenLineFormat then pure (found.push (← tokenLine)) else pure found
    else pure found
  seek header.stop
  return found

def tokenLines (limit : Nat) : Machine (List (UInt32 × TokenLine)) := do
  symbolSignature
  let found ← whileBelow limit (tokenLineOrSkip limit) #[]
  return found.toList

end Machine

/-! ### Subsections -/

theorem Advances.subsection (limit : Nat) (found : Array Subsection) :
    Advances (Machine.subsection limit found) (Subsection.readNext limit found) := by
  constructor
  intro buffer length start staged inside
  have hshort := staged.short
  refine (Takes.uint32.agrees staged inside).bind fun kind middle hinside hmiddle => ?_
  refine (Takes.uint32.agrees staged hinside).bind fun size content hcontent hstart => ?_
  have hsize := size.toNat_lt
  refine .position_bind (.lift_bind (Checked.add_eq (by omega)) ?_)
  refine .ite (fun _ => .lift_bind (Checked.sub_eq (by omega)) (.failAt_bind _ _)) fun _ => ?_
  refine (Agrees.seek staged _).bind fun _ stop hinside hstop => ?_
  refine (Agrees.align_four staged hinside).bind fun _ next hinside hnext => ?_
  have hlt : start < next := by omega
  exact .ite (fun _ => .pure hinside hlt) fun _ => .pure hinside hlt

theorem Matches.subsections (start limit : Nat) :
    Matches (Machine.subsections start limit) (Subsection.readAll start limit) := by
  have hfound := Follows.whileBelow (Advances.subsection limit) limit #[]
  exact (seek start).bind fun _ => hfound.toMatches.map _

theorem Matches.subsectionsOf (kind : UInt32) (start limit : Nat) :
    Matches (Machine.subsectionsOf kind start limit) (Subsection.readKind kind start limit) :=
  (subsections start limit).map _

/-! ### Checksum records -/

/-- The machine's loader does what the loader does. -/
def Machine.Loader.Same (load : Machine.Loader σ) (load' : SourceLoader σ) : Prop :=
  ∀ nameId kind checksum state,
    load nameId kind checksum state = some (load' nameId kind checksum state)

section

variable {load : Machine.Loader σ} {load' : SourceLoader σ}

theorem Agrees.checksumRecord {buffer : ByteArray} {length start base : Nat}
    (same : load.Same load') (staged : Staged buffer length) (inside : start ≤ length)
    (behind : base ≤ start) (state : ChecksumTable × σ) :
    Agrees buffer length start (Machine.checksumRecord load base state)
      (ChecksumTable.readRecord load' base state) fun _ stop => start < stop := by
  obtain ⟨files, sources⟩ := state
  refine .position_bind (.lift_bind (Checked.sub_eq behind) ?_)
  refine (Takes.uint32.agrees staged inside).bind fun nameId _ hinside hname => ?_
  refine (Takes.uint8.agrees staged hinside).bind fun count _ hinside hcount => ?_
  refine (Takes.uint8.agrees staged hinside).bind fun kind _ hinside hkind => ?_
  refine (Agrees.take staged count.toNat).bind fun checksum _ hinside hchecksum => ?_
  refine .lift_bind (same nameId kind checksum sources) ?_
  refine ((Follows.ofExcept _).agrees staged hinside).bind fun loaded _ hinside hloaded => ?_
  refine (Agrees.align_four staged hinside).bind fun _ stop hinside hstop => ?_
  exact .pure hinside (by omega)

theorem Matches.checksumSubsections (same : load.Same load') (state : ChecksumTable × σ)
    (subsections : List Subsection) :
    Matches (Machine.checksumSubsections load state subsections)
      (ChecksumTable.readSubsections load' state subsections) := by
  induction subsections generalizing state with
  | nil => exact .pure state
  | cons subsection rest ih =>
    constructor
    intro buffer length start staged inside
    -- all records are behind the start of the subsection, so that their offsets are differences
    refine (Agrees.seek staged subsection.start).bind fun _ base hinside hbase => ?_
    have hrecords : Agrees buffer length base
        (Machine.whileBelow subsection.stop (Machine.checksumRecord load subsection.start) state)
        (Reader.whileBelow subsection.stop (ChecksumTable.readRecord load' subsection.start) state)
        fun _ _ => True := by
      refine (Agrees.whileBelow staged (fun _ stop => base ≤ stop) ?_ hinside (Nat.le_refl _)).mono
        fun _ _ _ _ => trivial
      intro state position hinside _ hle
      refine (Agrees.checksumRecord same staged hinside (by omega) state).mono ?_
      exact fun _ _ _ hlt => ⟨hlt, by omega⟩
    exact hrecords.bind fun state _ hinside _ => (ih state).agrees staged hinside

theorem Matches.checksums (same : load.Same load') (start stop : Nat) (sources : σ) :
    Matches (Machine.checksums load start stop sources)
      (ChecksumTable.read load' start stop sources) :=
  (subsectionsOf _ start stop).bind fun subsections => checksumSubsections same _ subsections

end

/-! ### Blocks -/

/-- The first line has 24 bits, and its distance to the last line has seven. -/
theorem LineRecord.endLine_lt (packed : UInt32) :
    (packed &&& 0x00ffffff).toNat + ((packed &&& 0x7f000000) >>> 24).toNat < 2 ^ 32 := by
  have hline : (packed &&& 0x00ffffff).toNat ≤ 0x00ffffff := by
    rw [UInt32.toNat_and]
    exact Nat.and_le_right
  have hdistance : ((packed &&& 0x7f000000) >>> 24).toNat ≤ 0x7f000000 := by
    rw [UInt32.toNat_shiftRight, UInt32.toNat_and]
    exact Nat.le_trans (Nat.shiftRight_le _ _) Nat.and_le_right
  omega

theorem Machine.blockStop_eq {linesStart count : Nat} (hstart : linesStart < 2 ^ 32)
    (hcount : count < 2 ^ 32) (stop : Nat) (hasColumns : Bool) :
    blockStop stop linesStart count hasColumns
      = if linesStart + count * LineTable.entrySize hasColumns ≤ stop
        then some (linesStart + count * LineTable.entrySize hasColumns) else none := by
  have hentry : count * LineTable.entrySize hasColumns ≤ count * 12 := by
    cases hasColumns <;> exact Nat.mul_le_mul_left count (by decide)
  rw [blockStop, Checked.mul_eq (by omega)]
  simp only [Option.bind_eq_bind, Option.bind_some]
  rw [Checked.add_eq (by omega), Option.bind_some]

namespace Follows

theorem linesHeader : Follows Machine.linesHeader LinesHeader.read :=
  uint32.bind fun _ => uint16.bind fun _ => uint16.bind fun _ => uint32.bind fun _ => .pure _

theorem lineRecord : Follows Machine.lineRecord LineRecord.read := by
  refine uint32.bind fun offset => uint32.bind fun packed => ?_
  refine .lift_bind (Checked.add_eq (LineRecord.endLine_lt packed)) ?_
  rw [UInt32.ofNat_add, UInt32.ofNat_toNat, UInt32.ofNat_toNat]
  exact Follows.pure _

theorem columns (before : Array LineRecord) (lines : List LineRecord) :
    Follows (Machine.columns before lines) (LineRecord.readColumns before lines) := by
  induction lines generalizing before with
  | nil => exact .pure _
  | cons line lines ih => exact uint16.bind fun _ => uint16.bind fun _ => ih _

end Follows

theorem Advances.lineBlock (checksums : ChecksumTable) (hasColumns : Bool) (stop : Nat) :
    Advances (Machine.lineBlock checksums hasColumns stop)
      (LineTable.readBlock checksums hasColumns stop) := by
  refine .position_bind fun blockStart _ => ?_
  refine (Takes.uint32.advances (by decide)).bind fun fileId => ?_
  refine Follows.uint32.bind fun count => Follows.uint32.bind fun _ => ?_
  refine Follows.of_reaches fun linesStart hstart => ?_
  rw [Machine.blockStop_eq hstart count.toNat_lt]
  generalize hstop : linesStart + count.toNat * LineTable.entrySize hasColumns = blockStop
  by_cases h : blockStop ≤ stop
  · have hbehind : linesStart ≤ blockStop := by omega
    have hcount := count.toNat_lt
    rw [if_pos h, if_neg (Nat.not_lt.mpr h)]
    refine .lift_bind (Checked.room_eq (by omega)) ?_
    refine Reaches.bind (Follows.lineRecord.times count.toNat).toMatches fun lines => ?_
    refine .ite (fun _ => ?_) fun _ => Reaches.seek_return hbehind _
    exact Reaches.bind (Follows.columns #[] lines).toMatches fun lines =>
      Reaches.seek_return hbehind _
  · rw [if_neg h, if_pos (Nat.lt_of_not_le h)]
    exact .failAt _ _

theorem Follows.lineBlocks (checksums : ChecksumTable) (hasColumns : Bool) (stop : Nat) :
    Follows (Machine.lineBlocks checksums hasColumns stop)
      (LineTable.readBlocks checksums hasColumns stop) := by
  have htables := whileBelow (fun tables : Array LineTable =>
    (Advances.lineBlock checksums hasColumns stop).map tables.push) stop #[]
  exact htables.map Array.toList

/-! ### Token lines -/

theorem Follows.tokenLine : Follows Machine.tokenLine TokenLine.read :=
  uint32.bind fun _ => uint32.bind fun _ => uint32.bind fun _ => uint32.bind fun _ =>
    uint32.bind fun _ => uint32.bind fun _ => .pure _

theorem Advances.tokenLineOrSkip (limit : Nat) (found : Array (UInt32 × TokenLine)) :
    Advances (Machine.tokenLineOrSkip limit found) (TokenLine.readRecord limit found) := by
  refine recordHeader_bind fun header => ?_
  have hend := fun found : Array (UInt32 × TokenLine) =>
    Reaches.seek_return (Nat.le_refl header.stop) found
  refine .ite (fun _ => ?_) fun _ => hend found
  refine Reaches.bind Follows.vendorName.toMatches fun name => ?_
  refine .ite (fun _ => ?_) fun _ => hend found
  exact Reaches.bind Follows.tokenLine.toMatches fun line => hend (found.push line)

theorem Matches.tokenLines (limit : Nat) :
    Matches (Machine.tokenLines limit) (TokenLine.readAll limit) := by
  have hfound := Follows.whileBelow (Advances.tokenLineOrSkip limit) limit #[]
  exact Matches.symbolSignature.bind fun _ => hfound.toMatches.map _

end ManagedPdb
