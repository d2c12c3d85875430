import ManagedPdb.Bytes

/-!
# UTF-16

A character below `0x10000` is one unit.  Any other character is a pair: a leading unit in
`0xd800 … 0xdbff` with the high ten bits of its distance from `0x10000`, then a trailing unit in
`0xdc00 … 0xdfff` with the low ten bits.  `Utf16.decode` refuses a unit of a pair that stands
alone, so that each text has one spelling.
-/

namespace ManagedPdb.Utf16

/-- The first unit of a pair. -/
def isLeading (unit : UInt16) : Bool := 0xd800 ≤ unit && unit < 0xdc00

/-- The second unit of a pair. -/
def isTrailing (unit : UInt16) : Bool := 0xdc00 ≤ unit && unit < 0xe000

/-- The character of a pair. -/
def join (leading trailing : UInt16) : Char :=
  Char.ofNat (0x10000 + (leading.toNat - 0xd800) * 0x400 + (trailing.toNat - 0xdc00))

def units (char : Char) : List UInt16 :=
  if char.toNat < 0x10000 then
    [UInt16.ofNat char.toNat]
  else
    let distance := char.toNat - 0x10000
    [UInt16.ofNat (0xd800 + distance / 0x400), UInt16.ofNat (0xdc00 + distance % 0x400)]

def encode (text : String) : List UInt16 := text.toList.flatMap units

/-- The characters of `units`, put behind the characters `before`, which are in reverse order. -/
def decodeOnto (before : List Char) : (units : List UInt16) → Option (List Char)
  | [] => some before.reverse
  | unit :: rest =>
    if isLeading unit then
      match rest with
      | [] => none
      | next :: rest =>
        if isTrailing next then decodeOnto (join unit next :: before) rest else none
    else if isTrailing unit then none
    else decodeOnto (Char.ofNat unit.toNat :: before) rest

/-- The text of the units, unless a unit of a pair stands alone. -/
def decode (units : List UInt16) : Option String :=
  (decodeOnto [] units).map String.ofList

/-- The stored form of a text: its units and a zero unit. -/
def terminated (text : String) : ByteArray :=
  Bytes.concat ((encode text ++ [0]).map Bytes.uint16)

end ManagedPdb.Utf16
