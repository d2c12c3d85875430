import ManagedPdb.Proofs.DebugInfo.Remapping
import ManagedPdb.Proofs.Machine.Attachment
import ManagedPdb.Proofs.Machine.Container
import ManagedPdb.Proofs.Machine.Module
import ManagedPdb.Proofs.Machine.Names

/-!
# Decoding a file on a machine

All decoders are put together.  The main result is `Machine.decodeWith_eq`: no file makes a machine
fault, and it gives the information or the error that the decoder gives.
-/

namespace ManagedPdb

variable {α σ : Type}

namespace Machine

/-- Makes the stream with a number the content, and then goes on. -/
def onStream (container : Container) (index : UInt32) (machine : Machine α) : Machine α := do
  let stream ← ofExcept (container.directory.stream index)
  load stream container.file
  machine

/-! ### Source files -/

def describe (library : SourceLibrary) (file : SourceFile) : Machine SourceFile :=
  match library.info.stream? (sourceStreamName file.name) with
  | none => return file
  | some index => do
    let stream ← ofExcept (library.container.directory.stream index)
    if stream.isEmpty then return file
    else do
      load stream library.container.file
      sourceFile file

/-- What the loader of source files gives and keeps once a file is described. -/
def enter (table : SourceTable) (found : Except DecodeError SourceFile × Cursor) :
    Except DecodeError (SourceRef × SourceSession) :=
  found.1.map fun file => ((table.add file).1, ⟨(table.add file).2, found.2⟩)

def loader (library : SourceLibrary) : Loader SourceSession :=
  fun nameId checksumKind checksum session =>
    match library.names.name? nameId with
    | none => some (.error (.ofKind (.unknownName nameId)))
    | some name =>
      match session.table.find? name with
      | some ref => some (.ok (ref, session))
      | none =>
        (describe library { SourceFile.ofName name with checksumKind, checksum }
          session.cursor).map (enter session.table)

/-! ### Modules -/

def moduleTokenLines (descriptor : ModuleDescriptor) (load : Loader σ) (linesStart linesEnd : Nat)
    (findings : ModuleFindings σ) : Machine (ModuleFindings σ) := do
  let lines ← tokenLines descriptor.symbolsEnd
  let loaded ← checksums load linesStart linesEnd findings.sources
  let resolved := lines.map fun entry => (entry.1, entry.2.resolve loaded.1)
  return { findings with
    tokenLines := resolved.foldl TokenLines.add findings.tokenLines
    sources := loaded.2 }

def moduleMethods (descriptor : ModuleDescriptor) (load : Loader σ) (linesStart linesEnd : Nat)
    (keepNames : Bool) (findings : ModuleFindings σ) : Machine (ModuleFindings σ) := do
  let found ← methods descriptor.symbolsEnd keepNames
  let loaded ← checksums load linesStart linesEnd findings.sources
  let withLines ← lines loaded.1 linesStart linesEnd (Method.sort found)
  return { findings with
    methods := findings.methods ++ withLines.toArray
    sources := loaded.2 }

def moduleContent (descriptor : ModuleDescriptor) (load : Loader σ) (keepNames : Bool)
    (findings : ModuleFindings σ) : Machine (ModuleFindings σ) := do
  let linesStart ← Checked.add 64 descriptor.symbolsSize.toNat descriptor.oldLinesSize.toNat
  let linesEnd ← Checked.add 64 linesStart descriptor.linesSize.toNat
  if descriptor.name = tokenLineModule then
    moduleTokenLines descriptor load linesStart linesEnd findings
  else if descriptor.symbolsSize = 0 then return findings
  else moduleMethods descriptor load linesStart linesEnd keepNames findings

def decodeModule (library : SourceLibrary) (keepNames : Bool)
    (findings : ModuleFindings SourceSession) (descriptor : ModuleDescriptor) :
    Machine (ModuleFindings SourceSession) :=
  match descriptor.stream? with
  | none => return findings
  | some index => do
    let stream ← ofExcept (library.container.directory.stream index)
    let symbols ← Checked.add 64 descriptor.symbolsSize.toNat descriptor.oldLinesSize.toNat
    let regions ← Checked.add 64 symbols descriptor.linesSize.toNat
    if stream.length.toNat < regions then fail (.ofKind .invalidModuleRegions)
    load stream library.container.file
    moduleContent descriptor (loader library) keepNames findings

/-! ### Files -/

def library (container : Container) : Machine SourceLibrary := do
  let info ← onStream container infoStreamIndex infoStream
  match info.stream? "/NAMES" with
  | none => fail (.ofKind .missingNamesStream)
  | some index => return { container, info, names := ← onStream container index nameTable }

def remapTable : Machine TokenRemap := do
  return .ofTable (← uint32s ((← size) / 4))

def tokenRemap (container : Container) (debug : DebugStream) (options : DecodeOptions) :
    Machine TokenRemap :=
  match debug.tokenRemapStream with
  | none => return .identity
  | some index =>
    if options.applyTokenRemap then onStream container index remapTable
    else return .identity

/-- The source server script, which is read to a buffer of its own. -/
def sourceServer (library : SourceLibrary) : Machine String :=
  match library.info.stream? "SRCSRV" with
  | none => return ""
  | some index => do
    let stream ← ofExcept (library.container.directory.stream index)
    Checked.room stream.length.toNat 1
    let content ← readStream stream library.container.file 0 stream.length.toNat
      (Bytes.zeros stream.length.toNat)
    return Lossy.decode (← ofExcept content)

def debugInfo (options : DecodeOptions) (container : Container) (sourceCursor : Cursor) :
    Machine DebugInfo := do
  let library ← library container
  let debug ← onStream container debugStreamIndex (debugStream options.keepNames)
  let remap ← tokenRemap container debug options
  let findings ← debug.modules.foldlM (decodeModule library options.keepNames)
    (.empty ⟨.empty, sourceCursor⟩)
  let methods ← ofExcept (DebugInfo.remapMethods remap findings.methods.toList)
  let sourceServer ← sourceServer library
  return .ofFindings library debug findings methods sourceServer

/-- The information in a file or the error that stops the decoding, unless the machine faults. -/
def decodeWith (options : DecodeOptions) (image : ByteArray) :
    Option (Except DecodeError DebugInfo) :=
  ((do debugInfo options (← container image) .empty : Machine DebugInfo) .empty).map (·.1)

/-- The last method with a token.  Its index must be that of a method. -/
def method? (info : DebugInfo) (token : UInt32) : Option (Option Method) :=
  match info.methodIndex? token with
  | none => some none
  | some index => (Checked.get info.methods index).map some

/-- Decodes a file and looks up a method, unless the machine faults. -/
def methodOf (options : DecodeOptions) (image : ByteArray) (token : UInt32) :
    Option (Except DecodeError (Option Method)) := do
  match ← decodeWith options image with
  | .ok info => return .ok (← method? info token)
  | .error error => return .error error

end Machine

/-! ### Source files -/

namespace Serves

variable {container : Container}

theorem onStream (paged : container.Paged) (index : UInt32) {machine : Machine α}
    {reader : Reader α} (h : Matches machine reader) :
    Serves (Machine.onStream container index machine) (container.stage index reader) :=
  (lift _).bind fun _ _ => .stage paged h

variable {library : SourceLibrary}

theorem describe (paged : library.container.Paged) (file : SourceFile) :
    Serves (Machine.describe library file) (library.describe file) := by
  rw [Machine.describe, SourceLibrary.describe]
  cases library.info.stream? (sourceStreamName file.name) with
  | none => exact .pure file
  | some index =>
    refine (lift _).bind fun stream _ => .ite (fun _ => .pure file) fun _ => ?_
    exact .stage paged (Follows.sourceFile file).toMatches

end Serves

theorem Machine.loader_same {library : SourceLibrary} (paged : library.container.Paged) :
    (loader library).Same library.load := by
  intro nameId checksumKind checksum session
  rw [loader, SourceLibrary.load]
  cases library.names.name? nameId with
  | none => rfl
  | some name =>
    cases hfind : session.table.find? name with
    | some ref => simp only [hfind]
    | none =>
      have hserves := Serves.describe paged { SourceFile.ofName name with checksumKind, checksum }
      obtain ⟨dropped, hdescribe⟩ := hserves session.cursor
      simp only [hfind, hdescribe, Option.map_some]
      cases library.describe { SourceFile.ofName name with checksumKind, checksum }
        session.cursor <;> rfl

/-! ### Modules -/

section

variable {load : Machine.Loader σ} {load' : SourceLoader σ} (descriptor : ModuleDescriptor)

theorem Matches.moduleTokenLines (same : load.Same load') (findings : ModuleFindings σ) :
    Matches
      (Machine.moduleTokenLines descriptor load descriptor.linesStart descriptor.linesEnd findings)
      (descriptor.readTokenLines load' findings) := by
  refine (tokenLines _).bind fun lines => ?_
  exact (checksums same _ _ _).map _

theorem Matches.moduleMethods (same : load.Same load') (keepNames : Bool)
    (findings : ModuleFindings σ) :
    Matches
      (Machine.moduleMethods descriptor load descriptor.linesStart descriptor.linesEnd keepNames
        findings)
      (descriptor.readMethodsWithLines load' keepNames findings) where
  agrees staged inside := by
    refine (Agrees.methods staged inside _ keepNames).bind fun found _ hinside hshort => ?_
    have hsorted : (Method.sort found).length < 2 ^ 32 := by
      rwa [(Method.perm_sort found).length_eq]
    refine ((checksums same _ _ _).agrees staged hinside).bind fun loaded _ hinside _ => ?_
    exact ((lines loaded.1 _ _ hsorted).map _).agrees staged hinside

theorem Matches.moduleContent (same : load.Same load') (keepNames : Bool)
    (findings : ModuleFindings σ) :
    Matches (Machine.moduleContent descriptor load keepNames findings)
      (descriptor.readStream load' keepNames findings) := by
  have hsymbols := descriptor.symbolsSize.toNat_lt
  have hold := descriptor.oldLinesSize.toNat_lt
  have hlines := descriptor.linesSize.toNat_lt
  refine .lift_bind (Checked.add_eq (by omega)) (.lift_bind (Checked.add_eq (by omega)) ?_)
  refine .ite (fun _ => moduleTokenLines descriptor same findings) fun _ => ?_
  exact .ite (fun _ => Matches.pure findings) fun _ =>
    moduleMethods descriptor same keepNames findings

end

namespace Serves

theorem decodeModule {library : SourceLibrary} (paged : library.container.Paged) (keepNames : Bool)
    (findings : ModuleFindings SourceSession) (descriptor : ModuleDescriptor) :
    Serves (Machine.decodeModule library keepNames findings descriptor)
      (descriptor.decode library keepNames findings) := by
  have hsymbols := descriptor.symbolsSize.toNat_lt
  have hold := descriptor.oldLinesSize.toNat_lt
  have hlines := descriptor.linesSize.toNat_lt
  rw [Machine.decodeModule, ModuleDescriptor.decode]
  cases descriptor.stream? with
  | none => exact .pure findings
  | some index =>
    refine (lift _).bind fun stream _ => ?_
    refine .lift_bind (Checked.add_eq (by omega)) (.lift_bind (Checked.add_eq (by omega)) ?_)
    refine .ite (fun _ => ?_) fun _ => ?_
    · exact .throw_bind _
    · exact .stage paged (Matches.moduleContent descriptor (Machine.loader_same paged) keepNames
        findings)

/-! ### Files -/

variable {container : Container}

theorem library (paged : container.Paged) :
    Serves (Machine.library container) (SourceLibrary.ofContainer container) := by
  refine (onStream paged _ Follows.infoStream.toMatches).bind fun info _ => ?_
  cases info.stream? "/NAMES" with
  | none => exact .throw _
  | some index => exact (onStream paged index Follows.nameTable.toMatches).map _

end Serves

theorem Matches.remapTable : Matches Machine.remapTable TokenRemap.read :=
  .size_bind fun length hlength => (Follows.uint32s (by omega)).toMatches.map _

namespace Serves

variable {container : Container}

theorem tokenRemap (paged : container.Paged) (debug : DebugStream) (options : DecodeOptions) :
    Serves (Machine.tokenRemap container debug options)
      (DebugInfo.decodeRemap container debug options) := by
  rw [Machine.tokenRemap, DebugInfo.decodeRemap]
  cases debug.tokenRemapStream with
  | none => exact .pure _
  | some index => exact .ite (fun _ => onStream paged index .remapTable) fun _ => .pure _

theorem sourceServer {library : SourceLibrary} (paged : library.container.Paged) :
    Serves (Machine.sourceServer library)
      (liftM (DebugInfo.decodeSourceServer library) : Staging String) := by
  intro cursor
  rw [Machine.sourceServer, DebugInfo.decodeSourceServer]
  cases library.info.stream? "SRCSRV" with
  | none => exact ⟨cursor, rfl⟩
  | some index =>
    simp only [Container.content]
    cases library.container.directory.stream index with
    | error error => exact ⟨cursor, rfl⟩
    | ok stream =>
      have hlength := stream.length.toNat_lt
      have hscript : (do
            Checked.room stream.length.toNat 1
            let content ← Machine.readStream stream library.container.file 0
              stream.length.toNat (Bytes.zeros stream.length.toNat)
            return Lossy.decode (← Machine.ofExcept content) : Machine String)
          = (do return Lossy.decode (← Machine.ofExcept (stream.content library.container.file))) :=
        (Machine.lift_bind (Checked.room_eq (by omega)) _).trans
          (Machine.lift_bind (Machine.readStream_zeros paged) _)
      refine ⟨cursor, (congrFun hscript cursor).trans ?_⟩
      rw [ok_bind]
      cases stream.content library.container.file <;> rfl

theorem debugInfo (paged : container.Paged) (options : DecodeOptions) (sourceCursor : Cursor) :
    Serves (Machine.debugInfo options container sourceCursor)
      (DebugInfo.ofContainer options container sourceCursor) := by
  refine (library paged).bind fun library hlibrary => ?_
  obtain ⟨cursor, hlibrary⟩ := hlibrary
  rw [Staging.Steady.ofContainer paged cursor .empty] at hlibrary
  have hcontainer := SourceLibrary.container_of_ofContainer paged hlibrary
  have hpaged : library.container.Paged := hcontainer.symm ▸ paged
  refine (onStream paged _ (Matches.debugStream options.keepNames)).bind fun debug _ => ?_
  refine (tokenRemap paged debug options).bind fun remap _ => ?_
  refine (foldlM (decodeModule hpaged options.keepNames) _ _).bind fun findings _ => ?_
  exact (lift _).bind fun methods _ => (sourceServer hpaged).map _

end Serves

namespace Machine

theorem decodeWith_eq (options : DecodeOptions) (image : ByteArray) :
    decodeWith options image = some (DebugInfo.decodeWith options image) := by
  obtain ⟨cursor, hcontainer⟩ := Yields.container image .empty
  rw [decodeWith, DebugInfo.decodeWith]
  cases himage : Container.ofImage image with
  | error error =>
    rw [himage] at hcontainer
    rw [bind_of_error hcontainer]
    rfl
  | ok container =>
    rw [himage] at hcontainer
    have paged := Container.paged_of_ofImage himage
    obtain ⟨dropped, hinfo⟩ := Serves.debugInfo paged options .empty cursor
    -- the machine goes on with the cursor of the container, the decoder with an empty one
    have hempty : (DebugInfo.ofContainer options container .empty).run' .empty
        = (DebugInfo.ofContainer options container .empty).run' cursor := by
      rw [DebugInfo.run'_ofContainer_eq paged, DebugInfo.run'_ofContainer_eq paged]
    rw [bind_of_ok hcontainer, hinfo, ok_bind, hempty, StateT.run']
    cases DebugInfo.ofContainer options container .empty cursor <;> rfl

/-- The index of tokens leads to methods. -/
theorem method?_eq {info : DebugInfo} (indexed : info.Indexed) (token : UInt32) :
    method? info token = some (info.method? token) := by
  rw [method?, DebugInfo.method?, DebugInfo.methodIndex?, indexed]
  rcases DebugInfo.getElem?_indexTokens info.methods.toList token with
    ⟨hnone, -⟩ | ⟨place, method, hplace, hmethod, -⟩
  · rw [hnone]
    rfl
  · rw [Array.getElem?_toList] at hmethod
    have hget : Checked.get info.methods place = some method := hmethod
    simp only [hplace, hget, hmethod, Option.map_some, Option.bind_some]

/-- No file makes the machine fault, and neither does the look-up of a token in what is decoded.
The machine gives what the decoder gives: the information in the file, or an error. -/
theorem decodes_without_fault (options : DecodeOptions) (image : ByteArray) :
    decodeWith options image = some (DebugInfo.decodeWith options image) ∧
      ∀ token, methodOf options image token
        = some ((DebugInfo.decodeWith options image).map (·.method? token)) := by
  refine ⟨decodeWith_eq options image, fun token => ?_⟩
  rw [methodOf, decodeWith_eq]
  cases hdecode : DebugInfo.decodeWith options image with
  | error error => rfl
  | ok info =>
    have hmethod := method?_eq (DebugInfo.indexed_of_decodeWith hdecode) token
    simp only [Option.bind_eq_bind, Option.bind_some, hmethod]
    rfl

end Machine

end ManagedPdb
