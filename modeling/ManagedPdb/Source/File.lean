import ManagedPdb.Reader.Field
import ManagedPdb.Source.Language

/-!
# Source files

What is known about a source file comes from two places: the checksum record by which a module first
refers to it, and a stream about the file, if the container has one.
-/

namespace ManagedPdb

structure SourceFile where
  name : String
  languageGuid : Guid
  vendor : Guid
  documentType : Guid
  /-- The algorithm of `algorithmChecksum`. -/
  algorithm : Guid
  /-- The checksum in the stream about the file. -/
  algorithmChecksum : ByteArray
  /-- The text of the file, if it is in the container. -/
  embeddedSource : Option ByteArray
  /-- The kind of the checksum in the checksum record. -/
  checksumKind : UInt8
  /-- The checksum in the checksum record. -/
  checksum : ByteArray

namespace SourceFile

/-- A text file of which only the name is known. -/
def ofName (name : String) : SourceFile where
  name
  languageGuid := .nil
  vendor := .nil
  documentType := textDocumentType
  algorithm := .nil
  algorithmChecksum := ByteArray.empty
  embeddedSource := none
  checksumKind := 0
  checksum := ByteArray.empty

def language (file : SourceFile) : Language := .ofGuid file.languageGuid

/-- A stored size; a negative one counts as zero. -/
def readSize : Reader Nat := return (← Reader.int32).toInt.toNat

/-- Adds what the stream about a file says.  It may end behind the document type. -/
def readStream (file : SourceFile) : Reader SourceFile := do
  let languageGuid ← Reader.guid
  let vendor ← Reader.guid
  let documentType ← Reader.guid
  let file := { file with languageGuid, vendor, documentType }
  if (← Reader.position) = (← Reader.size) then return file
  else
    let algorithm ← Reader.guid
    let checksumSize ← readSize
    let sourceSize ← readSize
    let algorithmChecksum ← Reader.bytes checksumSize
    let embeddedSource ←
      if sourceSize = 0 then pure file.embeddedSource
      else some <$> Reader.bytes sourceSize
    return { file with algorithm, algorithmChecksum, embeddedSource }

end SourceFile

end ManagedPdb
