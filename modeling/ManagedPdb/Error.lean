import ManagedPdb.Text.Hex

/-!
# Decoding errors

An error is a cause (`ErrorKind`) and, where it is known, the offset inside the region that was
being decoded.  Decoding is all or nothing: the first error ends it, and nothing that was read
before it is kept.  `ErrorKind.message` and `DecodeError.message` hold all wording.
-/

namespace ManagedPdb

/-- Why a file cannot be decoded. -/
inductive ErrorKind where
  /-- The file does not start with the signature of the container format. -/
  | invalidMagic
  /-- The header announces a page size that is no power of two between 512 and 65536. -/
  | invalidPageSize (size : UInt32)
  /-- A read ran past the end of the data. -/
  | unexpectedEnd
  /-- `length` bytes from `position` on are not all part of a stream. -/
  | streamOutOfBounds (position : UInt32) (length : Nat)
  /-- The directory does not list this stream. -/
  | invalidStreamIndex (index : UInt32)
  /-- The name index does not list the string table of source names. -/
  | missingNamesStream
  | deletedNamesNotEmpty
  /-- The name index holds another number of names than it announces. -/
  | nameCountMismatch (found expected : UInt32)
  /-- The string table has another signature or version than the known one. -/
  | invalidNameTable (signature : UInt32) (version : Int32)
  /-- An offset into the string table that stands for no name. -/
  | unknownName (id : UInt32)
  | invalidString
  | moduleListOverrun (stop expected : Nat)
  /-- The regions of a module are longer than its stream. -/
  | invalidModuleRegions
  /-- A symbol region starts with another signature than the known one. -/
  | invalidModuleSignature (signature : UInt32)
  /-- A record of a method or block goes beyond the announced end. -/
  | notAtEnd
  /-- A method or block is closed by a record of another kind. -/
  | missingEnd (kind : UInt16)
  /-- A block starts in front of the method that holds it. -/
  | invalidScope
  /-- A block is opened while this many scopes, the most there may be, are open. -/
  | scopeTooDeep (depth : Nat)
  /-- A vendor record of a vendor other than the one of managed code. -/
  | unknownOemVendor
  | unsupportedMetadataVersion (version : UInt8)
  /-- An item of custom metadata does not fit into its record. -/
  | invalidCustomMetadata
  | invalidConstantTag (tag : UInt16)
  /-- A block of lines does not fit into its subsection. -/
  | invalidLineBlock
  /-- A token whose row is beyond the token remap table. -/
  | tokenRemapOutOfRange (token : UInt32)
  | sourceUnreadable
  deriving DecidableEq, Repr

namespace ErrorKind

def message : ErrorKind → String
  | invalidMagic => "invalid MSF magic signature"
  | invalidPageSize size => "invalid page size " ++ toString size.toNat
  | unexpectedEnd => "unexpected end of data"
  | streamOutOfBounds position length =>
    "read of " ++ toString length ++ " bytes at position " ++ toString position.toNat
      ++ " is out of bounds for the stream"
  | invalidStreamIndex index =>
    "stream index " ++ toString index.toNat ++ " is not present in the directory"
  | missingNamesStream => "could not find the /NAMES stream; this may be a public symbol file"
  | deletedNamesNotEmpty => "unsupported name index: the deleted bitmap is not empty"
  | nameCountMismatch found expected =>
    "name index count mismatch: found " ++ toString found.toNat ++ ", expected "
      ++ toString expected.toNat
  | invalidNameTable signature version =>
    "unsupported name table (signature " ++ Hex.marked 8 signature.toNat ++ ", version "
      ++ toString version.toInt ++ ")"
  | unknownName id => "unknown name id " ++ toString id.toNat
  | invalidString => "invalid string data"
  | moduleListOverrun stop expected =>
    "module list ends at " ++ toString stop ++ ", expected " ++ toString expected
  | invalidModuleRegions => "module regions exceed the module stream length"
  | invalidModuleSignature signature =>
    "invalid module signature " ++ toString signature.toNat
  | notAtEnd => "symbol records do not end at the declared end offset"
  | missingEnd kind =>
    "missing S_END record, found record kind " ++ Hex.marked 4 kind.toNat
  | invalidScope => "scope starts before its method"
  | scopeTooDeep depth => "scopes are nested deeper than " ++ toString depth ++ " levels"
  | unknownOemVendor => "unknown OEM vendor in symbol record"
  | unsupportedMetadataVersion version =>
    "unsupported custom metadata item version " ++ toString version.toNat
  | invalidCustomMetadata => "custom metadata item exceeds its record"
  | invalidConstantTag tag => "invalid constant value tag " ++ Hex.marked 4 tag.toNat
  | invalidLineBlock => "line block exceeds its subsection"
  | tokenRemapOutOfRange token =>
    "token " ++ Hex.marked 8 token.toNat ++ " is out of range for the token remap table"
  | sourceUnreadable => "failed to read from the byte source"

end ErrorKind

/-- A cause and the offset at which it arose, where that is known. -/
structure DecodeError where
  kind : ErrorKind
  offset : Option Nat := none
  deriving DecidableEq, Repr

namespace DecodeError

def ofKind (kind : ErrorKind) : DecodeError := ⟨kind, none⟩

def ofKindAt (kind : ErrorKind) (offset : Nat) : DecodeError := ⟨kind, some offset⟩

/-- Names the place of an error that has none yet; the innermost place stays. -/
def locate (error : DecodeError) (offset : Nat) : DecodeError :=
  ⟨error.kind, error.offset <|> some offset⟩

/-- The text of the cause, followed by the offset if there is one. -/
def message (error : DecodeError) : String :=
  match error.offset with
  | none => error.kind.message
  | some offset => error.kind.message ++ " (at offset " ++ Hex.marked 1 offset ++ ")"

end DecodeError

end ManagedPdb
