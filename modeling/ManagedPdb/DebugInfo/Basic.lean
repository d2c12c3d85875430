import ManagedPdb.Module.DebugStream
import ManagedPdb.Source.Library
import ManagedPdb.Symbol.Method
import ManagedPdb.TokenLine

/-!
# Decoded debug information

All that a file says about managed code.  Methods are in the order of their places; line tables and
token lines refer to the one table of source files.
-/

namespace ManagedPdb

structure DebugInfo where
  version : UInt32
  signature : UInt32
  /-- The age of the info stream, which grows whenever the file is written. -/
  age : UInt32
  /-- The age of the debug information stream, which follows the executable. -/
  debugAge : UInt32
  guid : Guid
  modules : List ModuleDescriptor
  /-- All methods, by segment, address and token. -/
  methods : Array Method
  /-- The place of the last method with each token. -/
  lastOfToken : Std.HashMap UInt32 Nat
  tokenLines : TokenLines
  /-- All source files that modules refer to, in the order of their first references. -/
  sources : Array SourceFile
  /-- The source server script, empty if there is none. -/
  sourceServer : String

/-- How to decode a file. -/
structure DecodeOptions where
  /-- Whether to keep the names of methods and object files. -/
  keepNames : Bool := true
  /-- Whether to change tokens by the token remap table, if there is one. -/
  applyTokenRemap : Bool := true
  deriving DecidableEq, Repr

/-- The text of an identifier and an age, which is in hexadecimal and is left out if it is zero. -/
def debugIdText (guid : Guid) (age : UInt32) : String :=
  if age = 0 then guid.text else guid.text ++ "-" ++ String.ofList (Hex.digits age.toNat)

namespace DebugInfo

/-- The age that belongs to the executable; where it is missing, the age of the info stream. -/
def executableAge (info : DebugInfo) : UInt32 :=
  if info.debugAge = 0 then info.age else info.debugAge

/-- The identifier that ties the file to its executable, in the usual form or another one. -/
def debugId (info : DebugInfo) (idText : Guid → UInt32 → String := debugIdText) : String :=
  idText info.guid info.executableAge

end DebugInfo

end ManagedPdb
