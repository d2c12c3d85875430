import ManagedPdb.DebugInfo.Basic
import ManagedPdb.Line.Attachment
import ManagedPdb.Symbol.Body
import ManagedPdb.Text.Lossy
import ManagedPdb.TokenRemap

/-!
# Decoding a file

The parts of a file are decoded in a fixed order, and the first error ends it: the container, the
info stream, the name table, the debug information stream, the token remap table if it is to be
applied, each module, the remapping of all methods, and the source server script.
-/

namespace ManagedPdb

namespace Method

/-- Whether a method may stand in front of another: by segment, then address, then token. -/
def inOrder (left right : Method) : Bool :=
  left.site.before right.site || (left.site == right.site && left.token ≤ right.token)

/-- Methods by segment, address and token; equal ones keep their order. -/
def sort (methods : List Method) : List Method := methods.mergeSort inOrder

end Method

/-- What has been found in the modules so far.  `σ` is what the loader of source files keeps. -/
structure ModuleFindings (σ : Type) where
  methods : Array Method
  tokenLines : TokenLines
  sources : σ

namespace ModuleFindings

/-- Nothing but what the loader starts with. -/
def empty {σ : Type} (sources : σ) : ModuleFindings σ := ⟨#[], ∅, sources⟩

end ModuleFindings

namespace ModuleDescriptor

variable {σ : Type}

def readTokenLines (descriptor : ModuleDescriptor) (load : SourceLoader σ)
    (findings : ModuleFindings σ) : Reader (ModuleFindings σ) := do
  let lines ← TokenLine.readAll descriptor.symbolsEnd
  let (checksums, sources) ←
    ChecksumTable.read load descriptor.linesStart descriptor.linesEnd findings.sources
  let resolved := lines.map fun (token, line) => (token, line.resolve checksums)
  return { findings with tokenLines := resolved.foldl TokenLines.add findings.tokenLines, sources }

def readMethodsWithLines (descriptor : ModuleDescriptor) (load : SourceLoader σ)
    (keepNames : Bool) (findings : ModuleFindings σ) : Reader (ModuleFindings σ) := do
  let methods ← readMethods descriptor.symbolsEnd keepNames
  let (checksums, sources) ←
    ChecksumTable.read load descriptor.linesStart descriptor.linesEnd findings.sources
  let methods ←
    readLines checksums descriptor.linesStart descriptor.linesEnd (Method.sort methods)
  return { findings with methods := findings.methods ++ methods.toArray, sources }

/-- Adds what the stream of a module says.  A module without symbols adds nothing. -/
def readStream (descriptor : ModuleDescriptor) (load : SourceLoader σ) (keepNames : Bool)
    (findings : ModuleFindings σ) : Reader (ModuleFindings σ) :=
  if descriptor.name = tokenLineModule then descriptor.readTokenLines load findings
  else if descriptor.symbolsSize = 0 then return findings
  else descriptor.readMethodsWithLines load keepNames findings

/-- Adds what a module says.  A module without a stream adds nothing, and the regions of a module
must be in its stream. -/
def decode (library : SourceLibrary) (keepNames : Bool)
    (findings : ModuleFindings SourceSession) (descriptor : ModuleDescriptor) :
    Staging (ModuleFindings SourceSession) :=
  match descriptor.stream? with
  | none => return findings
  | some index => do
    let stream ← library.container.directory.stream index
    if stream.length.toNat < descriptor.linesEnd then
      throw (.ofKind .invalidModuleRegions)
    stream.stage library.container.file (descriptor.readStream library.load keepNames findings)

end ModuleDescriptor

def infoStreamIndex : UInt32 := 1

def debugStreamIndex : UInt32 := 3

namespace SourceLibrary

/-- Reads the info stream and the name table of a container. -/
def ofContainer (container : Container) : Staging SourceLibrary := do
  let info ← container.stage infoStreamIndex InfoStream.read
  match info.stream? "/NAMES" with
  | none => throw (.ofKind .missingNamesStream)
  | some index => return { container, info, names := ← container.stage index NameTable.read }

end SourceLibrary

/-- The token remap table in a stream: as many words as it holds. -/
def TokenRemap.read : Reader TokenRemap := do
  return .ofTable (← Reader.uint32s ((← Reader.size) / 4))

namespace DebugInfo

/-- The places of the last methods with each token. -/
def indexTokens (methods : Array Method) : Std.HashMap UInt32 Nat :=
  methods.toList.zipIdx.foldl (fun index (method, place) => index.insert method.token place) ∅

def decodeRemap (container : Container) (debug : DebugStream) (options : DecodeOptions) :
    Staging TokenRemap :=
  match debug.tokenRemapStream with
  | none => return .identity
  | some index =>
    if options.applyTokenRemap then container.stage index TokenRemap.read
    else return .identity

/-- The methods with their new tokens, in the order of these. -/
def remapMethods (remap : TokenRemap) (methods : List Method) :
    Except DecodeError (Array Method) :=
  return (Method.sort (← methods.mapM remap.apply)).toArray

/-- The source server script, which is read into a buffer of its own. -/
def decodeSourceServer (library : SourceLibrary) : Except DecodeError String :=
  match library.info.stream? "SRCSRV" with
  | none => .ok ""
  | some index => return Lossy.decode (← library.container.content index)

/-- Decodes the streams of a container.  Those about source files are read into `sourceCursor`,
while the stream of a module stays in the other cursor. -/
def ofContainer (options : DecodeOptions) (container : Container) (sourceCursor : Cursor) :
    Staging DebugInfo := do
  let library ← SourceLibrary.ofContainer container
  let debug ← container.stage debugStreamIndex (DebugStream.read options.keepNames)
  let remap ← decodeRemap container debug options
  let findings ← debug.modules.foldlM (ModuleDescriptor.decode library options.keepNames)
    (.empty ⟨.empty, sourceCursor⟩)
  let methods ← remapMethods remap findings.methods.toList
  let sourceServer ← decodeSourceServer library
  return {
    version := library.info.version
    signature := library.info.signature
    age := library.info.age
    debugAge := debug.age
    guid := library.info.guid
    modules := debug.modules
    methods
    lastOfToken := indexTokens methods
    tokenLines := findings.tokenLines
    sources := findings.sources.table.files
    sourceServer }

def decodeWith (options : DecodeOptions) (image : ByteArray) : Except DecodeError DebugInfo := do
  let container ← Container.ofImage image
  (ofContainer options container .empty).run' .empty

/-- Decodes a file with all names and with its token remap table applied. -/
def decode (image : ByteArray) : Except DecodeError DebugInfo := decodeWith {} image

/-- Decodes the content of a file, which is missing if the file could not be read. -/
def decodeFile : (content : Option ByteArray) → Except DecodeError DebugInfo
  | none => .error (.ofKind .sourceUnreadable)
  | some image => decode image

end DebugInfo

end ManagedPdb
