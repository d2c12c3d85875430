import ManagedPdb.Module.Descriptor

/-!
# The debug information stream

This stream lists the modules of a file.  Its header gives the sizes of the parts that follow: the
module list, five parts of no interest here, and optionally a list of further streams, one of which
is the token remap table.
-/

namespace ManagedPdb

/-- The header of the stream, as far as it is of interest. -/
structure DebugStreamHeader where
  age : UInt32
  moduleListSize : UInt32
  sectionContributionSize : UInt32
  sectionMapSize : UInt32
  fileInfoSize : UInt32
  typeServerMapSize : UInt32
  streamListSize : UInt32
  editAndContinueSize : UInt32
  deriving DecidableEq, Repr

namespace DebugStreamHeader

def read : Reader DebugStreamHeader := do
  let _signature ← Reader.int32
  let _version ← Reader.uint32
  let age ← Reader.uint32
  let _globalSymbolsStream ← Reader.uint16
  let _buildNumber ← Reader.uint16
  let _publicSymbolsStream ← Reader.uint16
  let _writerVersion ← Reader.uint16
  let _symbolRecordsStream ← Reader.uint16
  let _writerBuild ← Reader.uint16
  let moduleListSize ← Reader.uint32
  let sectionContributionSize ← Reader.uint32
  let sectionMapSize ← Reader.uint32
  let fileInfoSize ← Reader.uint32
  let typeServerMapSize ← Reader.uint32
  let _defaultTypeServer ← Reader.uint32
  let streamListSize ← Reader.uint32
  let editAndContinueSize ← Reader.uint32
  let _flags ← Reader.uint16
  let _machine ← Reader.uint16
  let _reserved ← Reader.uint32
  return { age, moduleListSize, sectionContributionSize, sectionMapSize, fileInfoSize,
           typeServerMapSize, streamListSize, editAndContinueSize }

/-- The sizes of the parts between the module list and the stream list, in their order. -/
def skippedSizes (header : DebugStreamHeader) : List UInt32 :=
  [header.sectionContributionSize, header.sectionMapSize, header.fileInfoSize,
    header.typeServerMapSize, header.editAndContinueSize]

end DebugStreamHeader

/-- The modules of a file and the streams that the debug information stream names. -/
structure DebugStream where
  age : UInt32
  modules : List ModuleDescriptor
  /-- The stream with the token remap table, if there is one. -/
  tokenRemapStream : Option UInt32
  deriving DecidableEq, Repr

namespace DebugStream

/-- The module list of `size` bytes at the position.  Its last descriptor must end where the list
ends. -/
def readModules (size : Nat) (keepNames : Bool) : Reader (List ModuleDescriptor) := do
  let stop := (← Reader.position) + size
  let modules ← Reader.whileBelow stop (fun modules => do
    return modules.push (← ModuleDescriptor.read keepNames)) #[]
  let position ← Reader.position
  if position ≠ stop then Reader.failAt (.moduleListOverrun position stop) stop
  return modules.toList

/-- Moves over parts of the given sizes. -/
def skipAll : (sizes : List UInt32) → Reader Unit
  | [] => return
  | size :: sizes => do
    let _ ← Reader.skip size.toNat
    skipAll sizes

/-- The token remap stream in the stream list at the position, which ends `size` bytes further on.
It is the seventh of the eleven streams in the list. -/
def readStreamList (size : Nat) : Reader (Option UInt32) := do
  let stop := (← Reader.position) + size
  let fields ← Reader.times 11 Reader.uint16
  Reader.seek stop
  return fields[6]?.bind streamOfField

def read (keepNames : Bool) : Reader DebugStream := do
  let header ← DebugStreamHeader.read
  let modules ← readModules header.moduleListSize.toNat keepNames
  skipAll header.skippedSizes
  let tokenRemapStream ←
    if header.streamListSize = 0 then pure none
    else readStreamList header.streamListSize.toNat
  return { age := header.age, modules, tokenRemapStream }

end DebugStream

end ManagedPdb
