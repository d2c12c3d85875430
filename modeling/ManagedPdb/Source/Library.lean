import ManagedPdb.Container.Staging
import ManagedPdb.Line.Checksum
import ManagedPdb.Names.InfoStream
import ManagedPdb.Names.NameTable
import ManagedPdb.Source.File

/-!
# The source files of a container

All modules of a container share one table of source files.  A file enters the table when a checksum
record first names it; later records with the same name refer to the same entry, whatever they say.
-/

namespace ManagedPdb

/-- What is needed to find out about a source file. -/
structure SourceLibrary where
  container : Container
  info : InfoStream
  names : NameTable

/-- The source files that have been referred to. -/
structure SourceTable where
  files : Array SourceFile
  /-- The entries of `files` by name. -/
  byName : Std.HashMap String Nat

namespace SourceTable

def empty : SourceTable := ⟨#[], ∅⟩

/-- The entry of a name. -/
def find? (table : SourceTable) (name : String) : Option SourceRef :=
  table.byName[name]?.map SourceRef.mk

/-- Adds a file as the last entry. -/
def add (table : SourceTable) (file : SourceFile) : SourceRef × SourceTable :=
  (⟨table.files.size⟩,
    ⟨table.files.push file, table.byName.insert file.name table.files.size⟩)

def file? (table : SourceTable) (ref : SourceRef) : Option SourceFile := table.files[ref.index]?

end SourceTable

/-- The source files found so far, and the cursor that the streams about them are read into. -/
structure SourceSession where
  table : SourceTable
  cursor : Cursor

/-- The name of the stream about the source file with a name. -/
def sourceStreamName (name : String) : String := "/SRC/FILES/" ++ Upper.ofString name

namespace SourceLibrary

/-- Adds to `file` what the stream about it says, if there is such a stream and it is not empty. -/
def describe (library : SourceLibrary) (file : SourceFile) : Staging SourceFile :=
  match library.info.stream? (sourceStreamName file.name) with
  | none => return file
  | some index => do
    let stream ← library.container.directory.stream index
    if stream.isEmpty then return file
    else stream.stage library.container.file file.readStream

/-- The entry of the file that a checksum record names, which is new if the name is. -/
def load (library : SourceLibrary) : SourceLoader SourceSession :=
  fun nameId checksumKind checksum session =>
    match library.names.name? nameId with
    | none => .error (.ofKind (.unknownName nameId))
    | some name =>
      match session.table.find? name with
      | some ref => .ok (ref, session)
      | none => do
        let (file, cursor) ←
          library.describe { SourceFile.ofName name with checksumKind, checksum } session.cursor
        let (ref, table) := session.table.add file
        return (ref, { table, cursor })

end SourceLibrary

end ManagedPdb
