import ManagedPdb.Guid

/-!
# Source languages

A source file names its language by an identifier; five languages are known.
-/

namespace ManagedPdb

inductive Language where
  | unknown
  | c
  | cPlusPlus
  | cSharp
  | visualBasic
  | fSharp
  deriving DecidableEq, Repr

namespace Language

/-- The identifiers of the known languages. -/
def known : List (Guid × Language) := [
  (⟨0x63a08714, 0xfc37, 0x11d2, 0x904c00c04fa302a1⟩, c),
  (⟨0x3a12d0b7, 0xc26c, 0x11d0, 0xb44200a0244a1dd2⟩, cPlusPlus),
  (⟨0x3f5162f8, 0x07c6, 0x11d3, 0x905300c04fa302a1⟩, cSharp),
  (⟨0x3a12d0b8, 0xc26c, 0x11d0, 0xb44200a0244a1dd2⟩, visualBasic),
  (⟨0xab4f38c9, 0xb6e6, 0x43ba, 0xbe3b58080b2ccce3⟩, fSharp)]

def ofGuid (guid : Guid) : Language := (known.lookup guid).getD unknown

def name : Language → String
  | unknown => "unknown"
  | c => "c"
  | cPlusPlus => "cpp"
  | cSharp => "csharp"
  | visualBasic => "visualbasic"
  | fSharp => "fsharp"

end Language

/-- The identifier of one vendor of languages. -/
def microsoftVendor : Guid := ⟨0x994b45c4, 0xe6e9, 0x11d2, 0x903f00c04fa302a1⟩

def textDocumentType : Guid := ⟨0x5a869d0b, 0x6611, 0x11d3, 0xbd2a0000f80849bd⟩

end ManagedPdb
