import ManagedPdb.Symbol.Record

/-!
# Writing symbol regions

A symbol region starts with its signature; every record is padded to a multiple of four bytes.  The
end offset of a method or block is not known when its record is written, so it is zero at first and
is filled in when the scope is closed.
-/

namespace ManagedPdb

/-- An item to be written into an `MD2` record. -/
inductive MetadataDraft where
  | usingCounts (counts : List UInt16)
  | forward (token : UInt32)
  | forwardToModule (token : UInt32)
  | iteratorRanges (ranges : List (UInt32 × UInt32))
  | iteratorClass (name : String)
  /-- An item of any kind with any payload. -/
  | raw (kind : UInt8) (payload : ByteArray)

namespace MetadataDraft

def kind : MetadataDraft → UInt8
  | usingCounts _ => 0
  | forward _ => 1
  | forwardToModule _ => 2
  | iteratorRanges _ => 3
  | iteratorClass _ => 4
  | raw kind _ => kind

def payload : MetadataDraft → ByteArray
  | usingCounts counts =>
    Bytes.concat ((UInt16.ofNat counts.length :: counts).map Bytes.uint16)
  | forward token => Bytes.uint32 token
  | forwardToModule token => Bytes.uint32 token
  | iteratorRanges ranges =>
    Bytes.uint32s (UInt32.ofNat ranges.length :: ranges.flatMap fun (start, stop) => [start, stop])
  | iteratorClass name => Utf16.terminated name
  | raw _ payload => payload

/-- An item with its version, kind and size. -/
def bytes (item : MetadataDraft) : ByteArray :=
  let payload := Bytes.padded item.payload
  Bytes.uint8 4 ++ Bytes.uint8 item.kind ++ Bytes.uint16 0
    ++ Bytes.uint32 (UInt32.ofNat (8 + payload.size)) ++ payload

end MetadataDraft

/-- The bytes of a symbol region and the places of the end offsets that are still to be filled in,
the innermost first. -/
structure SymbolRegion where
  bytes : ByteArray
  openEnds : List Nat

/-- One step in writing a symbol region. -/
inductive SymbolCommand where
  | method (token : UInt32) (segment : UInt16) (address length : UInt32) (name : String)
  | block (address length : UInt32)
  /-- Closes the innermost open method or block with a record of some kind. -/
  | close (kind : UInt16)
  | slot (index typeToken : UInt32) (name : String)
  /-- A constant of which the value is given by its tag and the bytes behind it. -/
  | constant (token : UInt32) (tag : UInt16) (value : ByteArray) (name : String)
  | importing (name : String)
  | vendor (name : String) (body : ByteArray)
  | metadata (items : List MetadataDraft)
  /-- A state machine with its wait points: offset, continuation, offset there. -/
  | asynchronous (kickoff catchHandler : UInt32) (points : List (UInt32 × UInt32 × UInt32))
  | tokenLine (token fileId line column endLine endColumn : UInt32)
  /-- A record of any kind with any payload. -/
  | raw (kind : UInt16) (payload : ByteArray)

namespace SymbolRegion

def empty : SymbolRegion := ⟨Bytes.uint32 symbolSignature, []⟩

def nextOffset (region : SymbolRegion) : Nat := region.bytes.size

/-- A framed record.  The length is kept in 16 bits. -/
def record (kind : UInt16) (payload : ByteArray) : ByteArray :=
  let payload := Bytes.padded payload
  Bytes.uint16 (UInt16.ofNat payload.size + 2) ++ Bytes.uint16 kind ++ payload

def append (region : SymbolRegion) (kind : RecordKind) (payload : ByteArray) : SymbolRegion :=
  { region with bytes := region.bytes ++ record kind.code payload }

/-- Appends a record that opens a scope; the end offset is the second word of its payload. -/
def appendOpening (region : SymbolRegion) (kind : RecordKind) (payload : ByteArray) :
    SymbolRegion :=
  { region.append kind payload with openEnds := (region.nextOffset + 8) :: region.openEnds }

/-- Fills the offset of the next record into the record of the innermost open scope. -/
def fillEnd (region : SymbolRegion) : SymbolRegion :=
  match region.openEnds with
  | [] => region
  | place :: openEnds =>
    ⟨Bytes.overwrite region.bytes place (Bytes.uint32 (UInt32.ofNat region.nextOffset)), openEnds⟩

def methodPayload (token : UInt32) (segment : UInt16) (address length : UInt32) (name : String) :
    ByteArray :=
  Bytes.uint32s [0, 0, 0, length, 0, length, token, address]
    ++ Bytes.uint16 segment ++ Bytes.uint8 0 ++ Bytes.uint16 0 ++ Bytes.terminated name

def blockPayload (address length : UInt32) : ByteArray :=
  Bytes.uint32s [0, 0, length, address] ++ Bytes.uint16 1 ++ Bytes.uint8 0

def slotPayload (index typeToken : UInt32) (name : String) : ByteArray :=
  Bytes.uint32s [index, typeToken, 0] ++ Bytes.uint16 0 ++ Bytes.uint16 0 ++ Bytes.terminated name

def constantPayload (token : UInt32) (tag : UInt16) (value : ByteArray) (name : String) :
    ByteArray :=
  Bytes.uint32 token ++ Bytes.uint16 tag ++ value ++ Bytes.terminated name

def vendorPayload (name : String) (body : ByteArray) : ByteArray :=
  managedVendor.bytes ++ Bytes.uint32 0 ++ Utf16.terminated name ++ body

def metadataBody (items : List MetadataDraft) : ByteArray :=
  Bytes.uint8 4 ++ Bytes.uint8 (UInt8.ofNat items.length) ++ Bytes.uint16 0
    ++ Bytes.concat (items.map MetadataDraft.bytes)

def asyncBody (kickoff catchHandler : UInt32) (points : List (UInt32 × UInt32 × UInt32)) :
    ByteArray :=
  Bytes.uint32s (kickoff :: catchHandler :: UInt32.ofNat points.length ::
    points.flatMap fun (offset, method, target) => [offset, method, target])

def apply (region : SymbolRegion) : SymbolCommand → SymbolRegion
  | .method token segment address length name =>
    region.appendOpening .globalMethod (methodPayload token segment address length name)
  | .block address length => region.appendOpening .block (blockPayload address length)
  | .close kind => region.fillEnd.append (.other kind) ByteArray.empty
  | .slot index typeToken name => region.append .slot (slotPayload index typeToken name)
  | .constant token tag value name =>
    region.append .constant (constantPayload token tag value name)
  | .importing name => region.append .importing (Bytes.terminated name)
  | .vendor name body => region.append .vendor (vendorPayload name body)
  | .metadata items => region.append .vendor (vendorPayload "MD2" (metadataBody items))
  | .asynchronous kickoff catchHandler points =>
    region.append .vendor
      (vendorPayload "asyncMethodInfo" (asyncBody kickoff catchHandler points))
  | .tokenLine token fileId line column endLine endColumn =>
    region.append .vendor
      (vendorPayload "TSLI" (Bytes.uint32s [token, fileId, line, column, endLine, endColumn]))
  | .raw kind payload => region.append (.other kind) payload

def ofCommands (commands : List SymbolCommand) : SymbolRegion := commands.foldl apply empty

end SymbolRegion

end ManagedPdb
