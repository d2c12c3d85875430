import ManagedPdb.Reader.Field

/-!
# Subsections

A line region is a sequence of framed subsections, each with its kind and length and followed by
padding to a multiple of four.  All frames of a region are checked before any of them is opened.
-/

namespace ManagedPdb

/-- The frame of a subsection and the offsets of its content. -/
structure Subsection where
  kind : UInt32
  start : Nat
  stop : Nat
  deriving DecidableEq, Repr

namespace Subsection

/-- The flag in a kind that says to pass over the subsection. -/
def ignoredFlag : UInt32 := 0x80000000

def linesKind : UInt32 := 0xf2

def checksumsKind : UInt32 := 0xf4

/-- Puts the frame at the position behind the frames `found`, unless it is to be passed over.  It
must end at `limit` or before. -/
def readNext (limit : Nat) (found : Array Subsection) : Reader (Array Subsection) := do
  let kind ← Reader.uint32
  let length ← Reader.uint32
  let start ← Reader.position
  let stop := start + length.toNat
  if limit < stop then Reader.failAt .unexpectedEnd (start - 8)
  Reader.seek stop
  Reader.align 4
  if kind &&& ignoredFlag = 0 then return found.push { kind, start, stop } else return found

/-- The frames of a line region that are not to be passed over. -/
def readAll (start limit : Nat) : Reader (List Subsection) := do
  Reader.seek start
  let found ← Reader.whileBelow limit (readNext limit) #[]
  return found.toList

/-- The frames of one kind in a line region. -/
def readKind (kind : UInt32) (start limit : Nat) : Reader (List Subsection) :=
  return (← readAll start limit).filter (·.kind == kind)

end Subsection

end ManagedPdb
