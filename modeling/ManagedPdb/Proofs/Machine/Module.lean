import ManagedPdb.Module.DebugStream
import ManagedPdb.Proofs.Machine.Field
import ManagedPdb.Source.File

/-!
# Modules and source files on a machine

The module list and the list of further streams end at sums in 64 bits.
-/

namespace ManagedPdb

namespace Machine

/-! ### Modules -/

def sectionContribution : Machine SectionContribution := do
  let sectionIndex ← uint16
  let _padding ← uint16
  let offset ← uint32
  let size ← uint32
  let characteristics ← uint32
  let moduleIndex ← uint16
  let _padding ← uint16
  let dataCrc ← uint32
  let relocCrc ← uint32
  return { sectionIndex, offset, size, characteristics, moduleIndex, dataCrc, relocCrc }

def moduleDescriptor (keepNames : Bool) : Machine ModuleDescriptor := do
  let _opened ← uint32
  let contribution ← sectionContribution
  let flags ← uint16
  let streamField ← uint16
  let symbolsSize ← uint32
  let oldLinesSize ← uint32
  let linesSize ← uint32
  let fileCount ← uint16
  let _padding ← uint16
  let _fileNameOffsets ← uint32
  let sourceNameId ← uint32
  let compilerNameId ← uint32
  let name ← terminatedString
  let objectName ←
    if keepNames then some <$> terminatedString
    else do
      skipTerminated
      pure none
  align 4
  return { contribution, flags, streamField, symbolsSize, oldLinesSize, linesSize, fileCount,
           sourceNameId, compilerNameId, name, objectName }

/-! ### The debug information stream -/

def debugStreamHeader : Machine DebugStreamHeader := do
  let _signature ← int32
  let _version ← uint32
  let age ← uint32
  let _globalSymbolsStream ← uint16
  let _buildNumber ← uint16
  let _publicSymbolsStream ← uint16
  let _writerVersion ← uint16
  let _symbolRecordsStream ← uint16
  let _writerBuild ← uint16
  let moduleListSize ← uint32
  let sectionContributionSize ← uint32
  let sectionMapSize ← uint32
  let fileInfoSize ← uint32
  let typeServerMapSize ← uint32
  let _defaultTypeServer ← uint32
  let streamListSize ← uint32
  let editAndContinueSize ← uint32
  let _flags ← uint16
  let _machine ← uint16
  let _reserved ← uint32
  return { age, moduleListSize, sectionContributionSize, sectionMapSize, fileInfoSize,
           typeServerMapSize, streamListSize, editAndContinueSize }

def moduleList (size : Nat) (keepNames : Bool) : Machine (List ModuleDescriptor) := do
  let stop ← Checked.add 64 (← position) size
  let modules ← whileBelow stop (fun modules => do
    return modules.push (← moduleDescriptor keepNames)) #[]
  let position ← position
  if position ≠ stop then failAt (.moduleListOverrun position stop) stop
  return modules.toList

def skipAll : (sizes : List UInt32) → Machine Unit
  | [] => return
  | size :: sizes => do
    let _ ← skip size.toNat
    skipAll sizes

def streamList (size : Nat) : Machine (Option UInt32) := do
  let stop ← Checked.add 64 (← position) size
  let fields ← times 11 uint16
  seek stop
  return fields[6]?.bind streamOfField

def debugStream (keepNames : Bool) : Machine DebugStream := do
  let header ← debugStreamHeader
  let modules ← moduleList header.moduleListSize.toNat keepNames
  skipAll header.skippedSizes
  let tokenRemapStream ←
    if header.streamListSize = 0 then pure none
    else streamList header.streamListSize.toNat
  return { age := header.age, modules, tokenRemapStream }

/-! ### Source files -/

def storedSize : Machine Nat := return (← int32).toInt.toNat

def sourceFile (file : SourceFile) : Machine SourceFile := do
  let languageGuid ← guid
  let vendor ← guid
  let documentType ← guid
  let file := { file with languageGuid, vendor, documentType }
  if (← position) = (← size) then return file
  else
    let algorithm ← guid
    let checksumSize ← storedSize
    let sourceSize ← storedSize
    let algorithmChecksum ← take checksumSize
    let embeddedSource ←
      if sourceSize = 0 then pure file.embeddedSource
      else some <$> take sourceSize
    return { file with algorithm, algorithmChecksum, embeddedSource }

end Machine

namespace Follows

theorem sectionContribution : Follows Machine.sectionContribution SectionContribution.read := by
  refine uint16.bind fun sectionIndex => uint16.bind fun _ => uint32.bind fun offset => ?_
  refine uint32.bind fun size => uint32.bind fun characteristics => ?_
  refine uint16.bind fun moduleIndex => ?_
  exact uint16.bind fun _ => uint32.bind fun dataCrc => uint32.bind fun relocCrc => Follows.pure _

end Follows

/-- A descriptor starts with a number, so that the module list does get shorter. -/
theorem Advances.moduleDescriptor (keepNames : Bool) :
    Advances (Machine.moduleDescriptor keepNames) (ModuleDescriptor.read keepNames) := by
  refine (Takes.uint32.advances (by decide)).bind fun _ => ?_
  refine Follows.sectionContribution.bind fun contribution => ?_
  refine Follows.uint16.bind fun flags => Follows.uint16.bind fun streamField => ?_
  refine Follows.uint32.bind fun symbolsSize => Follows.uint32.bind fun oldLinesSize => ?_
  refine Follows.uint32.bind fun linesSize => Follows.uint16.bind fun fileCount => ?_
  refine Follows.uint16.bind fun _ => Follows.uint32.bind fun _ => ?_
  refine Follows.uint32.bind fun sourceNameId => Follows.uint32.bind fun compilerNameId => ?_
  refine Follows.terminatedString.bind fun name => ?_
  apply Moves.ite
  · intro _
    refine Follows.bind (Follows.terminatedString.map some) fun _ => ?_
    exact Follows.align_four.bind fun _ => Follows.pure _
  · intro _
    refine Follows.skipTerminated.bind fun _ => (Follows.pure none).bind fun _ => ?_
    exact Follows.align_four.bind fun _ => Follows.pure _

namespace Follows

theorem debugStreamHeader : Follows Machine.debugStreamHeader DebugStreamHeader.read := by
  refine int32.bind fun _ => uint32.bind fun _ => uint32.bind fun age => ?_
  refine uint16.bind fun _ => uint16.bind fun _ => uint16.bind fun _ => ?_
  refine uint16.bind fun _ => uint16.bind fun _ => uint16.bind fun _ => ?_
  refine uint32.bind fun moduleListSize => uint32.bind fun sectionContributionSize => ?_
  refine uint32.bind fun sectionMapSize => uint32.bind fun fileInfoSize => ?_
  refine uint32.bind fun typeServerMapSize => uint32.bind fun _ => ?_
  refine uint32.bind fun streamListSize => uint32.bind fun editAndContinueSize => ?_
  exact uint16.bind fun _ => uint16.bind fun _ => uint32.bind fun _ => Follows.pure _

theorem moduleList {size : Nat} (short : size < 2 ^ 32) (keepNames : Bool) :
    Follows (Machine.moduleList size keepNames) (DebugStream.readModules size keepNames) := by
  refine .position_bind fun start hstart => .lift_bind (Checked.add_eq (by omega)) ?_
  have hmodules := whileBelow (fun modules : Array ModuleDescriptor =>
    (Advances.moduleDescriptor keepNames).map modules.push) (start + size) #[]
  refine hmodules.bind fun modules => ?_
  refine .position_bind fun stop _ => .ite (fun _ => .failAt_bind _ _) fun _ => Follows.pure _

theorem skipAll (sizes : List UInt32) :
    Follows (Machine.skipAll sizes) (DebugStream.skipAll sizes) := by
  induction sizes with
  | nil => exact .pure ()
  | cons size sizes ih => exact .skip_bind fun _ _ => ih

theorem storedSize : Follows Machine.storedSize SourceFile.readSize :=
  int32.map fun value => value.toInt.toNat

theorem sourceFile (file : SourceFile) : Follows (Machine.sourceFile file) file.readStream := by
  refine guid.bind fun languageGuid => guid.bind fun vendor => guid.bind fun documentType => ?_
  refine .position_bind fun start _ => .size_bind fun length _ => ?_
  refine .ite (fun _ => Follows.pure _) fun _ => ?_
  refine guid.bind fun algorithm => ?_
  refine storedSize.bind fun checksumSize => storedSize.bind fun sourceSize => ?_
  refine (take checksumSize).bind fun algorithmChecksum => ?_
  exact .ite (fun _ => Follows.pure _) fun _ => ((take sourceSize).map some).map _

end Follows

namespace Matches

theorem streamList {size : Nat} (short : size < 2 ^ 32) :
    Matches (Machine.streamList size) (DebugStream.readStreamList size) := by
  refine .position_bind fun start hstart => .lift_bind (Checked.add_eq (by omega)) ?_
  exact (Follows.uint16.times 11).toMatches.bind fun fields => (seek _).map _

theorem debugStream (keepNames : Bool) :
    Matches (Machine.debugStream keepNames) (DebugStream.read keepNames) := by
  refine Follows.debugStreamHeader.toMatches.bind fun header => ?_
  have hmodules := header.moduleListSize.toNat_lt
  have hstreams := header.streamListSize.toNat_lt
  refine (Follows.moduleList hmodules keepNames).toMatches.bind fun modules => ?_
  refine (Follows.skipAll header.skippedSizes).toMatches.bind fun _ => ?_
  apply Moves.ite
  · intro _
    exact ((Follows.pure none).map _).toMatches
  · intro _
    exact (streamList hstreams).map _

end Matches

end ManagedPdb
