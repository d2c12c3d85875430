import ManagedPdb.Draft.Layout
import ManagedPdb.Draft.LineRegion
import ManagedPdb.Draft.SymbolRegion
import ManagedPdb.Text.Upper

/-!
# Writing files

A draft collects what a file is to hold: its identity, source names, named streams, modules and a
token remap table.  `ImageDraft.image` gives every part its stream and lays the streams out.
-/

namespace ManagedPdb

/-- A module to be written. -/
structure ModuleDraft where
  name : String
  objectName : String
  /-- The symbol region.  Without one, the module has no stream. -/
  symbols : Option ByteArray
  lines : ByteArray

namespace ModuleDraft

/-- A module without a stream, whose object file has the same name. -/
def ofName (name : String) : ModuleDraft := ⟨name, name, none, ByteArray.empty⟩

def stream? (draft : ModuleDraft) : Option ByteArray := draft.symbols.map (· ++ draft.lines)

/-- The descriptor of the module, whose stream has the number `stream`. -/
def descriptor (draft : ModuleDraft) (stream : Option UInt16) : ByteArray :=
  let symbolsSize := (draft.symbols.map ByteArray.size).getD 0
  Bytes.padded (
    Bytes.uint32 0
    ++ Bytes.uint16 1 ++ Bytes.uint16 0 ++ Bytes.uint32s [0, 0, 0]
    ++ Bytes.uint16 0 ++ Bytes.uint16 0 ++ Bytes.uint32s [0, 0]
    ++ Bytes.uint16 0 ++ Bytes.uint16 (stream.getD 0xffff)
    ++ Bytes.uint32s [UInt32.ofNat symbolsSize, 0, UInt32.ofNat draft.lines.size]
    ++ Bytes.uint16 0 ++ Bytes.uint16 0 ++ Bytes.uint32s [0, 0, 0]
    ++ Bytes.terminated draft.name ++ Bytes.terminated draft.objectName)

end ModuleDraft

/-- A file to be written. -/
structure ImageDraft where
  pageSize : UInt32 := 512
  signature : UInt32 := 0x5f3a1c20
  age : UInt32 := 1
  debugAge : UInt32 := 1
  guid : Guid := ⟨0x2c1cb8f7, 0x8f0e, 0x4b5e, 0x9b073e6f3c9a8d11⟩
  /-- The string buffer of the name table.  A name is known by its offset; the first byte is taken,
  so that no name has the offset zero. -/
  nameBuffer : ByteArray := Bytes.zeros 1
  hasNameTable : Bool := true
  namedStreams : List (String × ByteArray) := []
  modules : List ModuleDraft := []
  tokenRemap : Option (List UInt32) := none

namespace ImageDraft

def nextNameId (draft : ImageDraft) : UInt32 := UInt32.ofNat draft.nameBuffer.size

def addName (draft : ImageDraft) (name : String) : ImageDraft :=
  { draft with nameBuffer := draft.nameBuffer ++ Bytes.terminated name }

def addStream (draft : ImageDraft) (name : String) (content : ByteArray) : ImageDraft :=
  { draft with namedStreams := draft.namedStreams ++ [(name, content)] }

def addSourceServer (draft : ImageDraft) (text : String) : ImageDraft :=
  draft.addStream "srcsrv" text.toUTF8

/-- The stream about a source file. -/
def sourceStream (language vendor documentType : Guid) (source : Option ByteArray) : ByteArray :=
  language.bytes ++ vendor.bytes ++ documentType.bytes
    ++ match source with
      | none => ByteArray.empty
      | some text => Guid.nil.bytes ++ Bytes.uint32s [0, UInt32.ofNat text.size] ++ text

def addSourceStream (draft : ImageDraft) (name : String) (language vendor documentType : Guid)
    (source : Option ByteArray) : ImageDraft :=
  draft.addStream ("/src/files/" ++ name) (sourceStream language vendor documentType source)

def addModule (draft : ImageDraft) (descriptor : ModuleDraft) : ImageDraft :=
  { draft with modules := draft.modules ++ [descriptor] }

/-! ### The streams of a file -/

/-- The offsets of texts that are stored one after the other, each with a zero byte. -/
def textOffsets (start : Nat) : (texts : List String) → List Nat
  | [] => []
  | text :: texts => start :: textOffsets (start + (Bytes.terminated text).size) texts

/-- A bitmap in which the numbers below `count` are present. -/
def fullBitmap (count : Nat) : ByteArray :=
  let words := (count + 31) / 32
  Bytes.uint32s (UInt32.ofNat words :: (List.range words).map fun word =>
    UInt32.ofNat ((1 <<< min (count - word * 32) 32) - 1))

/-- The info stream of a file with the given named streams. -/
def infoStream (draft : ImageDraft) (named : List (String × UInt32)) : ByteArray :=
  let names := named.map Prod.fst
  let buffer := Bytes.concat (names.map Bytes.terminated)
  let count := UInt32.ofNat named.length
  let entries := (textOffsets 0 names).zip (named.map Prod.snd)
  Bytes.uint32s [20000404, draft.signature, draft.age] ++ draft.guid.bytes
    ++ Bytes.uint32 (UInt32.ofNat buffer.size) ++ buffer
    ++ Bytes.uint32s [count, max count 1]
    ++ fullBitmap named.length ++ Bytes.uint32 0
    ++ Bytes.uint32s (entries.flatMap fun (offset, stream) => [UInt32.ofNat offset, stream])
    ++ Bytes.uint32 0

/-- The offsets from `offset` on at which a name starts in a string buffer: each is behind the zero
byte that ends the name in front of it. -/
def nameIds (buffer : ByteArray) (offset : Nat) : List UInt32 :=
  if _h : offset < buffer.size then
    let stop := (Reader.zeroFrom buffer offset).getD offset
    UInt32.ofNat offset :: nameIds buffer (max offset stop + 1)
  else []
termination_by buffer.size - offset

def nameStream (draft : ImageDraft) : ByteArray :=
  let ids := nameIds draft.nameBuffer 1
  Bytes.uint32s [0xeffeeffe, 1, UInt32.ofNat draft.nameBuffer.size] ++ draft.nameBuffer
    ++ Bytes.uint32s ([UInt32.ofNat ids.length + 1, 0] ++ ids ++ [UInt32.ofNat ids.length])

/-- The debug information stream of a file whose modules and token remap table have the given
streams. -/
def debugStream (draft : ImageDraft) (moduleStreams : List (Option UInt16))
    (remapStream : Option UInt16) : ByteArray :=
  let modules := Bytes.concat
    ((draft.modules.zip moduleStreams).map fun (descriptor, stream) => descriptor.descriptor stream)
  let streamList := match remapStream with
    | none => ByteArray.empty
    | some remap => Bytes.concat ((List.range 11).map fun index =>
        Bytes.uint16 (if index = 6 then remap else 0xffff))
  Bytes.uint32s [0xffffffff, 19990903, draft.debugAge]
    ++ Bytes.concat ([0xffff, 0x8e00, 0xffff, 0, 0xffff, 0].map Bytes.uint16)
    ++ Bytes.uint32s [UInt32.ofNat modules.size, 0, 0, 0, 0, 0, UInt32.ofNat streamList.size, 0]
    ++ Bytes.uint16 0 ++ Bytes.uint16 0x14c ++ Bytes.uint32 0
    ++ modules ++ streamList

/-- The named streams, with the name table in front of the others. -/
def allNamedStreams (draft : ImageDraft) : List (String × ByteArray) :=
  if draft.hasNameTable then ("/names", draft.nameStream) :: draft.namedStreams
  else draft.namedStreams

/-- The numbers of the module streams, of which the first is `next`. -/
def moduleStreamNumbers (next : Nat) : (modules : List ModuleDraft) → List (Option UInt16)
  | [] => []
  | descriptor :: modules =>
    if descriptor.symbols.isSome then
      some (UInt16.ofNat next) :: moduleStreamNumbers (next + 1) modules
    else none :: moduleStreamNumbers next modules

/-- All streams of the file: an old directory, the info stream, the types and the debug information
stream have fixed numbers, and behind them come the named streams, the module streams and the token
remap table. -/
def streams (draft : ImageDraft) : List ByteArray :=
  let named := draft.allNamedStreams
  let moduleStart := 4 + named.length
  let moduleStreams := draft.modules.filterMap ModuleDraft.stream?
  let remap := draft.tokenRemap.map Bytes.uint32s
  let remapStart := moduleStart + moduleStreams.length
  let namedNumbers := (named.map Prod.fst).zipIdx 4 |>.map fun (name, number) =>
    (name, UInt32.ofNat number)
  [ByteArray.empty, draft.infoStream namedNumbers, ByteArray.empty,
    draft.debugStream (moduleStreamNumbers moduleStart draft.modules)
      (remap.map fun _ => UInt16.ofNat remapStart)]
    ++ named.map Prod.snd ++ moduleStreams ++ remap.toList

def image (draft : ImageDraft) : ByteArray := Layout.image draft.pageSize draft.streams

end ImageDraft

end ManagedPdb
