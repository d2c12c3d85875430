import ManagedPdb.Reader.Field

/-!
# Constants

A constant has a value in one of eleven forms.  The stored value is a 16-bit tag: below `0x8000` it
is the value itself, from there on it names the form of the value that follows.
-/

namespace ManagedPdb

/-- The value of a constant.  Floating-point values are their bits. -/
inductive ConstantValue where
  | int8 (value : Int8)
  | int16 (value : Int16)
  | uint16 (value : UInt16)
  | int32 (value : Int32)
  | uint32 (value : UInt32)
  | int64 (value : Int64)
  | uint64 (value : UInt64)
  | float32 (bits : UInt32)
  | float64 (bits : UInt64)
  | text (value : String)
  | decimal (value : Decimal)
  deriving DecidableEq

def ConstantValue.read : Reader ConstantValue := do
  let position ← Reader.position
  let tag ← Reader.uint16
  if tag < 0x8000 then return .uint16 tag
  else if tag = 0x8000 then return .int8 (← Reader.int8)
  else if tag = 0x8001 then return .int16 (← Reader.int16)
  else if tag = 0x8002 then return .uint16 (← Reader.uint16)
  else if tag = 0x8003 then return .int32 (← Reader.int32)
  else if tag = 0x8004 then return .uint32 (← Reader.uint32)
  else if tag = 0x8005 then return .float32 (← Reader.uint32)
  else if tag = 0x8006 then return .float64 (← Reader.uint64)
  else if tag = 0x8009 then return .int64 (← Reader.int64)
  else if tag = 0x800a then return .uint64 (← Reader.uint64)
  else if tag = 0x8010 then return .text (← Reader.countedString)
  else if tag = 0x8019 then return .decimal (← Reader.decimal)
  else Reader.failAt (.invalidConstantTag tag) position

structure Constant where
  /-- The token of its type signature. -/
  token : UInt32
  value : ConstantValue
  name : String
  deriving DecidableEq

def Constant.read : Reader Constant :=
  return { token := ← Reader.uint32, value := ← ConstantValue.read
           name := ← Reader.terminatedString }

end ManagedPdb
