/-!
# Line tables

A line table says which source lines the code of a method comes from.  It names its source file
twice: by the offset of the file's checksum record, as stored, and by the place of that file in the
table of all source files, unless the module has no such record.
-/

namespace ManagedPdb

/-- The place of a source file in the table of all source files of a container. -/
structure SourceRef where
  index : Nat
  deriving DecidableEq, Repr, Hashable

/-- The source range of the code at an offset.  Columns are zero if they are not recorded. -/
structure LineRecord where
  offset : UInt32
  startLine : UInt32
  endLine : UInt32
  startColumn : UInt16
  endColumn : UInt16
  deriving DecidableEq, Repr

/-- The lines that one source file contributes to a method. -/
structure LineTable where
  /-- The offset of the file's checksum record. -/
  fileId : UInt32
  file : Option SourceRef
  lines : List LineRecord
  deriving DecidableEq, Repr

end ManagedPdb
