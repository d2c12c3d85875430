/-!
# Shortest decimal text of binary floating-point numbers

A binary floating-point number stands for all reals that round to it.  Its shortest decimal is the
one with the fewest digits among these reals; of several the nearest to the number, and of two
equally near ones the greater.

The search is exact.  The number and the ends of its interval are fractions with one denominator.
For one digit, two digits and so on, the two neighbours of the number on the grid of decimals with
that many digits are tested; if any decimal of the grid is in the interval, one of these is.
-/

namespace ManagedPdb

/-- The widths of the parts of a binary floating-point number, and how many decimal digits always
tell two numbers apart. -/
structure FloatFormat where
  fractionBits : Nat
  exponentBits : Nat
  decimalDigits : Nat

namespace FloatFormat

def single : FloatFormat := ⟨23, 8, 9⟩

def double : FloatFormat := ⟨52, 11, 17⟩

/-- The exponent of the last bit of the least normal number. -/
def leastExponent (format : FloatFormat) : Int :=
  2 - (1 <<< (format.exponentBits - 1) : Nat) - format.fractionBits

end FloatFormat

/-- What the bits of a floating-point number stand for. -/
inductive BinaryNumber where
  | notANumber
  | infinite (negative : Bool)
  /-- A significand times a power of two.  Below a power of two, numbers are half as far apart. -/
  | finite (negative : Bool) (significand : Nat) (exponent : Int) (isPower : Bool)
  deriving DecidableEq, Repr

namespace BinaryNumber

def ofBits (format : FloatFormat) (bits : Nat) : BinaryNumber :=
  let fraction := bits % (1 <<< format.fractionBits)
  let biased := (bits >>> format.fractionBits) % (1 <<< format.exponentBits)
  let negative := (bits >>> (format.fractionBits + format.exponentBits)) % 2 == 1
  if biased = (1 <<< format.exponentBits) - 1 then
    if fraction = 0 then infinite negative else notANumber
  else if biased = 0 then
    finite negative fraction format.leastExponent false
  else
    finite negative ((1 <<< format.fractionBits) + fraction) (format.leastExponent + (biased - 1))
      (fraction == 0 && 1 < biased)

end BinaryNumber

/-- A positive number with the ends of the interval of reals that round to it, as numerators over
one denominator. -/
structure RoundingInterval where
  low : Nat
  middle : Nat
  high : Nat
  denominator : Nat
  /-- Whether the ends belong to the interval. -/
  closed : Bool
  deriving DecidableEq, Repr

/-- A decimal number: its digits as a number, times a power of ten. -/
structure ShortDecimal where
  digits : Nat
  exponent : Int
  deriving DecidableEq, Repr

/-- The number of decimal digits of a number. -/
def decimalLength (number : Nat) : Nat :=
  if number < 10 then 1 else 1 + decimalLength (number / 10)

namespace RoundingInterval

/-- The interval of a significand times a power of two.  A real halfway to the next number rounds
to the one with an even significand. -/
def ofBinary (significand : Nat) (exponent : Int) (isPower : Bool) : RoundingInterval :=
  let factor := 1 <<< (exponent - 2).toNat
  { low := (4 * significand - (if isPower then 1 else 2)) * factor
    middle := 4 * significand * factor
    high := (4 * significand + 2) * factor
    denominator := 1 <<< (2 - exponent).toNat
    closed := significand % 2 == 0 }

/-- The interval with all values divided by a power of ten. -/
def scale (interval : RoundingInterval) (exponent : Int) : RoundingInterval :=
  let factor := Nat.pow 10 (-exponent).toNat
  { low := interval.low * factor
    middle := interval.middle * factor
    high := interval.high * factor
    denominator := interval.denominator * Nat.pow 10 exponent.toNat
    closed := interval.closed }

/-- The number of digits in front of the decimal point; it is not positive if there are zeros
behind the point. -/
def pointPosition (interval : RoundingInterval) : Int :=
  let estimate : Int := decimalLength interval.middle - decimalLength interval.denominator
  let scaled := interval.scale estimate
  if scaled.denominator ≤ scaled.middle then estimate + 1 else estimate

def contains (interval : RoundingInterval) (integer : Nat) : Bool :=
  let value := integer * interval.denominator
  if interval.closed then interval.low ≤ value && value ≤ interval.high
  else interval.low < value && value < interval.high

/-- The integer in the interval that is next to the number. -/
def nearestInside (interval : RoundingInterval) : Option Nat :=
  let below := interval.middle / interval.denominator
  let isBelowNearer := 2 * (interval.middle % interval.denominator) < interval.denominator
  if interval.contains below && (isBelowNearer || !interval.contains (below + 1)) then some below
  else if interval.contains (below + 1) then some (below + 1)
  else none

/-- The shortest decimal with `digits` digits or at most `more` further ones. -/
def shortestFrom (interval : RoundingInterval) (point : Int) (digits : Nat) :
    (more : Nat) → ShortDecimal
  | 0 =>
    let exponent := point - digits
    let scaled := interval.scale exponent
    ⟨(scaled.nearestInside).getD (scaled.middle / scaled.denominator), exponent⟩
  | more + 1 =>
    let exponent := point - digits
    match (interval.scale exponent).nearestInside with
    | some number => ⟨number, exponent⟩
    | none => shortestFrom interval point (digits + 1) more

/-- The shortest decimal in the interval, for numbers that `maxDigits` digits tell apart. -/
def shortest (interval : RoundingInterval) (maxDigits : Nat) : ShortDecimal :=
  shortestFrom interval interval.pointPosition 1 (maxDigits - 1)

end RoundingInterval

/-! ### Text -/

/-- Which decimals are written with all their places.  The bounds are numbers of digits in front of
the decimal point. -/
structure FloatLayout where
  leastPoint : Int
  greatestPoint : Int

namespace FloatLayout

/-- All places are written from 0.0001 up to, but not including, 10 to the 16th. -/
def standard : FloatLayout := ⟨-3, 16⟩

/-- All places, with at least one digit on each side of the point. -/
def positional (digits : List Char) (point : Int) : List Char :=
  if point ≤ 0 then '0' :: '.' :: List.replicate (-point).toNat '0' ++ digits
  else if (digits.length : Int) ≤ point then
    digits ++ List.replicate (point.toNat - digits.length) '0' ++ ['.', '0']
  else digits.take point.toNat ++ '.' :: digits.drop point.toNat

/-- One digit in front of the point, and the power of ten. -/
def scientific (digits : List Char) (point : Int) : List Char :=
  let fraction := if digits.length ≤ 1 then [] else '.' :: digits.drop 1
  digits.take 1 ++ fraction ++ 'e' :: (toString (point - 1)).toList

/-- The digits of a decimal, without zeros at the end, and the position of its point. -/
def digitsAndPoint (decimal : ShortDecimal) : List Char × Int :=
  let digits := (toString decimal.digits).toList
  let trimmed := (digits.reverse.dropWhile (· == '0')).reverse
  (trimmed, digits.length + decimal.exponent)

def ofDecimal (layout : FloatLayout) (decimal : ShortDecimal) : List Char :=
  let (digits, point) := digitsAndPoint decimal
  if layout.leastPoint ≤ point ∧ point ≤ layout.greatestPoint then positional digits point
  else scientific digits point

/-- A sign in front of what is negative. -/
def signed (negative : Bool) (text : List Char) : List Char :=
  if negative then '-' :: text else text

def ofBits (layout : FloatLayout) (format : FloatFormat) (bits : Nat) : String :=
  String.ofList (match BinaryNumber.ofBits format bits with
    | .notANumber => "NaN".toList
    | .infinite negative => signed negative "inf".toList
    | .finite negative 0 _ _ => signed negative "0.0".toList
    | .finite negative significand exponent isPower =>
      let interval := RoundingInterval.ofBinary significand exponent isPower
      signed negative (layout.ofDecimal (interval.shortest format.decimalDigits)))

end FloatLayout

end ManagedPdb
