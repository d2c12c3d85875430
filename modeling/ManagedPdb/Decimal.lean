/-!
# Decimal numbers

A sign, a 96-bit mantissa and a power of ten: the value is
`(-1)^negative * mantissa / 10^scale`.
-/

namespace ManagedPdb

/-- A decimal number with its mantissa in three words. -/
structure Decimal where
  negative : Bool
  scale : UInt8
  /-- Bits 64 to 95 of the mantissa. -/
  high : UInt32
  /-- Bits 32 to 63 of the mantissa. -/
  middle : UInt32
  /-- Bits 0 to 31 of the mantissa. -/
  low : UInt32
  deriving DecidableEq, Repr, Inhabited

namespace Decimal

def mantissa (decimal : Decimal) : Nat :=
  (decimal.high.toNat <<< 64) + (decimal.middle.toNat <<< 32) + decimal.low.toNat

/-- The decimal of four stored words.  Of the first word the top bit is the sign and the third
byte the scale; the other three hold the mantissa in the order high, low, middle. -/
def ofWords (flags high low middle : UInt32) : Decimal where
  negative := flags &&& 0x80000000 != 0
  scale := ((flags &&& 0x00ff0000) >>> 16).toUInt8
  high
  middle
  low

end Decimal

end ManagedPdb
