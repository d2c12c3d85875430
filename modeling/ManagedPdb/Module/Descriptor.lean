import ManagedPdb.Reader.Field

/-!
# Module descriptors

A module is what one compilation contributed.  Its descriptor names the stream with its symbols and
lines and says how long the regions of that stream are.
-/

namespace ManagedPdb

/-- The part of a section that a module contributed. -/
structure SectionContribution where
  sectionIndex : UInt16
  offset : UInt32
  size : UInt32
  characteristics : UInt32
  moduleIndex : UInt16
  dataCrc : UInt32
  relocCrc : UInt32
  deriving DecidableEq, Repr

def SectionContribution.read : Reader SectionContribution := do
  let sectionIndex ← Reader.uint16
  let _padding ← Reader.uint16
  let offset ← Reader.uint32
  let size ← Reader.uint32
  let characteristics ← Reader.uint32
  let moduleIndex ← Reader.uint16
  let _padding ← Reader.uint16
  let dataCrc ← Reader.uint32
  let relocCrc ← Reader.uint32
  return { sectionIndex, offset, size, characteristics, moduleIndex, dataCrc, relocCrc }

/-- The stream number behind a 16-bit field, in which zero and `0xffff` stand for no stream. -/
def streamOfField (field : UInt16) : Option UInt32 :=
  if field = 0 ∨ field = 0xffff then none else some field.toUInt32

structure ModuleDescriptor where
  contribution : SectionContribution
  flags : UInt16
  streamField : UInt16
  symbolsSize : UInt32
  /-- The length of the line region in an old format. -/
  oldLinesSize : UInt32
  linesSize : UInt32
  fileCount : UInt16
  sourceNameId : UInt32
  compilerNameId : UInt32
  name : String
  /-- The name of the object or library file, unless names are dropped. -/
  objectName : Option String
  deriving DecidableEq, Repr

namespace ModuleDescriptor

/-- The descriptor at the position, with the padding behind it. -/
def read (keepNames : Bool) : Reader ModuleDescriptor := do
  let _opened ← Reader.uint32
  let contribution ← SectionContribution.read
  let flags ← Reader.uint16
  let streamField ← Reader.uint16
  let symbolsSize ← Reader.uint32
  let oldLinesSize ← Reader.uint32
  let linesSize ← Reader.uint32
  let fileCount ← Reader.uint16
  let _padding ← Reader.uint16
  let _fileNameOffsets ← Reader.uint32
  let sourceNameId ← Reader.uint32
  let compilerNameId ← Reader.uint32
  let name ← Reader.terminatedString
  let objectName ←
    if keepNames then some <$> Reader.terminatedString
    else do
      Reader.skipTerminated
      pure none
  Reader.align 4
  return { contribution, flags, streamField, symbolsSize, oldLinesSize, linesSize, fileCount,
           sourceNameId, compilerNameId, name, objectName }

/-- The stream with the symbols and lines of the module, if it has one. -/
def stream? (descriptor : ModuleDescriptor) : Option UInt32 :=
  streamOfField descriptor.streamField

def symbolsEnd (descriptor : ModuleDescriptor) : Nat := descriptor.symbolsSize.toNat

def linesStart (descriptor : ModuleDescriptor) : Nat :=
  descriptor.symbolsEnd + descriptor.oldLinesSize.toNat

/-- The offset at which the line region, and so the last region, ends. -/
def linesEnd (descriptor : ModuleDescriptor) : Nat :=
  descriptor.linesStart + descriptor.linesSize.toNat

end ModuleDescriptor

end ManagedPdb
