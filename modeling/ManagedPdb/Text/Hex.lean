/-!
# Hexadecimal numbers

Lower-case digits, with or without leading zeros.  `Hex.digits` is the shortest spelling of a
number, `Hex.padded` fills it up with zeros on the left and never cuts it, and `Hex.marked` puts
the mark `0x` in front.
-/

namespace ManagedPdb.Hex

/-- The character of a digit below sixteen. -/
def digit (value : Nat) : Char :=
  if value < 10 then Char.ofNat (0x30 + value) else Char.ofNat (0x57 + value)

/-- The digits of `value`, most significant first, without leading zeros. -/
def digits (value : Nat) : List Char :=
  if value < 16 then [digit value] else digits (value / 16) ++ [digit (value % 16)]

/-- The digits of `value`, filled up with zeros to at least `width` characters. -/
def padded (width value : Nat) : List Char :=
  List.replicate (width - (digits value).length) '0' ++ digits value

/-- `0x` and at least `width` digits. -/
def marked (width value : Nat) : String :=
  "0x" ++ String.ofList (padded width value)

end ManagedPdb.Hex
