import ManagedPdb.Reader.Field

/-!
# Bitmaps

A set of numbers, stored as the number of its 32-bit words and the words.  Numbers beyond the
words are not in the set.
-/

namespace ManagedPdb

/-- A set of numbers in 32-bit words. -/
structure Bitmap where
  words : Array UInt32
  deriving DecidableEq, Repr

namespace Bitmap

def read : Reader Bitmap := do
  let count ← Reader.uint32
  return ⟨(← Reader.uint32s count.toNat).toArray⟩

def contains (bitmap : Bitmap) (number : Nat) : Bool :=
  match bitmap.words[number / 32]? with
  | some word => word &&& (1 <<< UInt32.ofNat (number % 32)) != 0
  | none => false

def isEmpty (bitmap : Bitmap) : Bool := bitmap.words.all (· == 0)

/-- The numbers below `limit` that are in the set, in increasing order. -/
def membersBelow (bitmap : Bitmap) (limit : Nat) : List Nat :=
  (List.range (min limit (32 * bitmap.words.size))).filter bitmap.contains

end Bitmap

end ManagedPdb
