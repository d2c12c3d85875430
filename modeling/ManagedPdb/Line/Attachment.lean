import ManagedPdb.Line.Block
import ManagedPdb.Symbol.Method

/-!
# Attaching lines to methods

A lines subsection names a place in the code, and several methods may start there.  The methods are
sorted by place, so that those of one place stand together, and each of them gets at most one
subsection: the first subsection goes to the first of them, the next to the next, and subsections
without a method left are dropped.

A search (`SiteSearch`) lands on any of the methods at the place.  From a free one the walk goes
back to the first free one, and from a taken one forward to the first free one.
-/

namespace ManagedPdb

namespace Site

/-- Whether a place comes in front of another. -/
def before (left right : Site) : Bool :=
  left.segment < right.segment ||
    (left.segment == right.segment && left.address < right.address)

end Site

/-- Finds a method that starts at a place among methods sorted by place, whichever if there are
several. -/
abbrev SiteSearch : Type := Array Method → Site → Option Nat

namespace SiteSearch

/-- Halves the range `low … high` of indices until a method that starts at the place is found. -/
def probe (methods : Array Method) (site : Site) (low high : Nat) : Option Nat :=
  if _h : low < high then
    let middle := low + (high - low) / 2
    match methods[middle]? with
    | none => none
    | some method =>
      if method.site = site then some middle
      else if method.site.before site then probe methods site (middle + 1) high
      else probe methods site low middle
  else none
termination_by high - low

def binary : SiteSearch := fun methods site => probe methods site 0 methods.size

end SiteSearch

/-- The methods of a module and which of them have got their lines. -/
structure Attachment where
  methods : Array Method
  taken : Array Bool

namespace Attachment

/-- Methods none of which has got its lines. -/
def ofMethods (methods : List Method) : Attachment where
  methods := methods.toArray
  taken := Array.replicate methods.length false

/-- Whether the method at an index has got its lines. -/
def isTaken (attachment : Attachment) (index : Nat) : Bool := attachment.taken[index]?.getD true

/-- Whether there is a method at an index and it starts at a place. -/
def isAt (attachment : Attachment) (site : Site) (index : Nat) : Bool :=
  (attachment.methods[index]?.map Method.site) == some site

/-- Goes back from a free method as long as the one in front is free and at the same place. -/
def backToFirstFree (attachment : Attachment) (site : Site) : (index : Nat) → Nat
  | 0 => 0
  | index + 1 =>
    if !attachment.isTaken index && attachment.isAt site index then
      attachment.backToFirstFree site index
    else index + 1

/-- Goes forward from a taken method as long as the next one is at the same place, up to a free
one. -/
def forwardToFree (attachment : Attachment) (site : Site) (index : Nat) : Nat :=
  if _h : attachment.isTaken index && index + 1 < attachment.methods.size
      && attachment.isAt site (index + 1) then
    attachment.forwardToFree site (index + 1)
  else index
termination_by attachment.methods.size - index
decreasing_by simp_all; omega

/-- The free method that a walk from any method at a place leads to. -/
def freeFrom (attachment : Attachment) (site : Site) (index : Nat) : Option Nat :=
  let target :=
    if attachment.isTaken index then attachment.forwardToFree site index
    else attachment.backToFirstFree site index
  if attachment.isTaken target then none else some target

/-- The method that gets the next subsection of a place. -/
def free? (search : SiteSearch) (attachment : Attachment) (site : Site) : Option Nat :=
  (search attachment.methods site).bind (attachment.freeFrom site)

/-- Gives lines to the method at an index. -/
def attach (attachment : Attachment) (index : Nat) (lines : List LineTable) : Attachment where
  methods := attachment.methods.modify index ({ · with lines })
  taken := attachment.taken.setIfInBounds index true

/-- Reads a lines subsection and gives its lines to the method they belong to.  If there is none,
the blocks are not read at all. -/
def readSubsection (search : SiteSearch) (checksums : ChecksumTable) (attachment : Attachment)
    (subsection : Subsection) : Reader Attachment := do
  Reader.seek subsection.start
  let header ← LinesHeader.read
  match attachment.free? search ⟨header.segment, header.address⟩ with
  | none => return attachment
  | some index =>
    return attachment.attach index
      (← LineTable.readBlocks checksums header.hasColumns subsection.stop)

/-- Reads all given subsections in order. -/
def readSubsections (search : SiteSearch) (checksums : ChecksumTable) (attachment : Attachment) :
    (subsections : List Subsection) → Reader Attachment
  | [] => return attachment
  | subsection :: rest => do
    let attachment ← attachment.readSubsection search checksums subsection
    readSubsections search checksums attachment rest

end Attachment

/-- The methods, which are sorted by place, with the lines of the line region `start … stop`. -/
def readLinesBy (search : SiteSearch) (checksums : ChecksumTable) (start stop : Nat)
    (methods : List Method) : Reader (List Method) := do
  let subsections ← Subsection.readKind Subsection.linesKind start stop
  let attachment ← (Attachment.ofMethods methods).readSubsections search checksums subsections
  return attachment.methods.toList

/-- The methods with their lines, found by binary search. -/
def readLines : (checksums : ChecksumTable) → (start stop : Nat) → (methods : List Method) →
    Reader (List Method) :=
  readLinesBy .binary

end ManagedPdb
