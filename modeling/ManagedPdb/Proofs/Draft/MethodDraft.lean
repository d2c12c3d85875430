import ManagedPdb.Draft.SymbolRegion
import ManagedPdb.Proofs.Text
import ManagedPdb.Symbol.Body

/-!
# Methods to be written

A draft of a method is a tree of records and blocks.  Its commands write it in order, each block
and the method with an end record behind its content; `MethodDraft.method` is the method that it
stands for.  Records of custom metadata count only outside of the blocks, and what is said twice
is known by what is said last.

`Writable` collects what a draft must satisfy so that it can be told apart from others when it is
read: no zero character in text that ends at a zero, payloads that fit into their records, ranges
and blocks that do not start behind their ends or in front of their methods.
-/

namespace ManagedPdb

/-! ### Constants -/

/-- A stored value: a tag and the bytes behind it. -/
inductive LeafDraft where
  /-- A number below `0x8000`, which is its own tag. -/
  | inline (value : UInt16)
  | int8 (value : Int8)
  | int16 (value : Int16)
  | uint16 (value : UInt16)
  | int32 (value : Int32)
  | uint32 (value : UInt32)
  | int64 (value : Int64)
  | uint64 (value : UInt64)
  | float32 (bits : UInt32)
  | float64 (bits : UInt64)
  | text (value : String)
  | decimal (flags high low middle : UInt32)

namespace LeafDraft

def tag : LeafDraft → UInt16
  | inline value => value
  | int8 _ => 0x8000
  | int16 _ => 0x8001
  | uint16 _ => 0x8002
  | int32 _ => 0x8003
  | uint32 _ => 0x8004
  | float32 _ => 0x8005
  | float64 _ => 0x8006
  | int64 _ => 0x8009
  | uint64 _ => 0x800a
  | text _ => 0x8010
  | decimal .. => 0x8019

def bytes : LeafDraft → ByteArray
  | inline _ => .empty
  | int8 value => Bytes.uint8 value.toUInt8
  | int16 value => Bytes.uint16 value.toUInt16
  | uint16 value => Bytes.uint16 value
  | int32 value => Bytes.uint32 value.toUInt32
  | uint32 value => Bytes.uint32 value
  | int64 value => Bytes.uint64 value.toUInt64
  | uint64 value => Bytes.uint64 value
  | float32 bits => Bytes.uint32 bits
  | float64 bits => Bytes.uint64 bits
  | text value => Bytes.uint16 (UInt16.ofNat value.toUTF8.size) ++ value.toUTF8
  | decimal flags high low middle => Bytes.uint32s [flags, high, low, middle]

def value : LeafDraft → ConstantValue
  | inline value => .uint16 value
  | int8 value => .int8 value
  | int16 value => .int16 value
  | uint16 value => .uint16 value
  | int32 value => .int32 value
  | uint32 value => .uint32 value
  | int64 value => .int64 value
  | uint64 value => .uint64 value
  | float32 bits => .float32 bits
  | float64 bits => .float64 bits
  | text value => .text value
  | decimal flags high low middle => .decimal (Decimal.ofWords flags high low middle)

/-- A number that is its own tag must not look like a tag. -/
def Writable : LeafDraft → Prop
  | inline value => value < 0x8000
  | _ => True

instance : (leaf : LeafDraft) → Decidable leaf.Writable
  | inline value => inferInstanceAs (Decidable (value < 0x8000))
  | int8 _ | int16 _ | uint16 _ | int32 _ | uint32 _ | int64 _ | uint64 _ | float32 _ | float64 _
  | text _ | decimal .. => instDecidableTrue

end LeafDraft

/-! ### Custom metadata -/

namespace MetadataDraft

/-- The numbers of imports, if the item holds them. -/
def counts? : MetadataDraft → Option (List UInt16)
  | usingCounts counts => some counts
  | _ => none

/-- The method with the same imports, if the item names it. -/
def forward? : MetadataDraft → Option UInt32
  | forward token => some token
  | _ => none

/-- The method with the imports of the module, if the item names it. -/
def forwardToModule? : MetadataDraft → Option UInt32
  | forwardToModule token => some token
  | _ => none

/-- The ranges of hoisted variables, if the item holds them. -/
def scopes? : MetadataDraft → Option (List IteratorScope)
  | iteratorRanges ranges => some (ranges.map fun (start, stop) => ⟨start, stop - start⟩)
  | _ => none

/-- The name of the state machine class, if the item holds it. -/
def class? : MetadataDraft → Option String
  | iteratorClass name => some name
  | _ => none

/-- The item as it is read. -/
def item : MetadataDraft → MetadataItem
  | usingCounts counts => .usingCounts counts
  | forward token => .forward token
  | forwardToModule token => .forwardToModule token
  | iteratorRanges ranges => .iteratorScopes (ranges.map fun (start, stop) => ⟨start, stop - start⟩)
  | iteratorClass name => .iteratorClass name
  | raw kind _ => .unknown kind

/-- Ranges have their starts in front, and raw items do not look like others. -/
def Writable : MetadataDraft → Prop
  | iteratorRanges ranges => ∀ range ∈ ranges, range.1 ≤ range.2
  | iteratorClass name => ZeroFree name
  | raw kind _ => 5 ≤ kind
  | _ => True

instance : (item : MetadataDraft) → Decidable item.Writable
  -- along the list, and not over all pairs of numbers
  | iteratorRanges ranges =>
    List.decidableBAll (fun (range : UInt32 × UInt32) => range.1 ≤ range.2) ranges
  | iteratorClass name => inferInstanceAs (Decidable (ZeroFree name))
  | raw kind _ => inferInstanceAs (Decidable (5 ≤ kind))
  | usingCounts _ | forward _ | forwardToModule _ => instDecidableTrue

end MetadataDraft

/-! ### Records -/

/-- A record that neither opens nor closes a scope. -/
inductive RecordDraft where
  | slot (index typeToken : UInt32) (name : String)
  | constant (token : UInt32) (leaf : LeafDraft) (name : String)
  | importing (name : String)
  | metadata (items : List MetadataDraft)
  | asynchronous (kickoff catchHandler : UInt32) (points : List (UInt32 × UInt32 × UInt32))
  /-- A vendor record of a format that says nothing that is known. -/
  | vendor (name : String) (body : ByteArray)
  | raw (kind : UInt16) (payload : ByteArray)

namespace RecordDraft

def command : RecordDraft → SymbolCommand
  | slot index typeToken name => .slot index typeToken name
  | constant token leaf name => .constant token leaf.tag leaf.bytes name
  | importing name => .importing name
  | metadata items => .metadata items
  | asynchronous kickoff catchHandler points => .asynchronous kickoff catchHandler points
  | vendor name body => .vendor name body
  | raw kind payload => .raw kind payload

def kind : RecordDraft → RecordKind
  | slot .. => .slot
  | constant .. => .constant
  | importing _ => .importing
  | metadata _ | asynchronous .. | vendor .. => .vendor
  | raw kind _ => .other kind

def payload : RecordDraft → ByteArray
  | slot index typeToken name => SymbolRegion.slotPayload index typeToken name
  | constant token leaf name => SymbolRegion.constantPayload token leaf.tag leaf.bytes name
  | importing name => Bytes.terminated name
  | metadata items => SymbolRegion.vendorPayload "MD2" (SymbolRegion.metadataBody items)
  | asynchronous kickoff catchHandler points =>
    SymbolRegion.vendorPayload "asyncMethodInfo"
      (SymbolRegion.asyncBody kickoff catchHandler points)
  | vendor name body => SymbolRegion.vendorPayload name body
  | raw _ payload => payload

/-- The variable that the record declares. -/
def slot? : RecordDraft → Option Slot
  | slot index typeToken name => some ⟨index, typeToken, 0, 0, 0, name⟩
  | _ => none

/-- The constant that the record declares. -/
def constant? : RecordDraft → Option Constant
  | constant token leaf name => some ⟨token, leaf.value, name⟩
  | _ => none

/-- The namespace that the record imports. -/
def importing? : RecordDraft → Option String
  | importing name => some name
  | _ => none

/-- The items of custom metadata in the record. -/
def items : RecordDraft → List MetadataDraft
  | metadata items => items
  | _ => []

/-- The state machine that the record describes. -/
def asyncInfo? : RecordDraft → Option AsyncInfo
  | asynchronous kickoff catchHandler points =>
    some ⟨kickoff, catchHandler,
      points.map fun (offset, method, target) => ⟨offset, method, target⟩⟩
  | _ => none

/-- The parts of the record can be told apart when it is read. -/
def Legal : RecordDraft → Prop
  | slot _ _ name => ZeroFree name
  | constant _ leaf name => leaf.Writable ∧ ZeroFree name
  | importing name => ZeroFree name
  | metadata items => items.length ≤ 255 ∧ ∀ item ∈ items, item.Writable
  | asynchronous .. => True
  | vendor name _ => ZeroFree name ∧ name ≠ "MD2" ∧ name ≠ "asyncMethodInfo"
  | raw kind _ => RecordKind.ofCode kind = .other kind

instance : (record : RecordDraft) → Decidable record.Legal
  | slot _ _ name | importing name => inferInstanceAs (Decidable (ZeroFree name))
  | constant _ leaf name => inferInstanceAs (Decidable (leaf.Writable ∧ ZeroFree name))
  | metadata items =>
    inferInstanceAs (Decidable (items.length ≤ 255 ∧ ∀ item ∈ items, item.Writable))
  | asynchronous .. => instDecidableTrue
  | vendor name _ =>
    inferInstanceAs (Decidable (ZeroFree name ∧ name ≠ "MD2" ∧ name ≠ "asyncMethodInfo"))
  | raw kind _ => inferInstanceAs (Decidable (RecordKind.ofCode kind = .other kind))

/-- The record is legal and fits into its frame. -/
structure Writable (record : RecordDraft) : Prop where
  legal : record.Legal
  fits : record.payload.size ≤ 65532

instance (record : RecordDraft) : Decidable record.Writable :=
  decidable_of_iff (record.Legal ∧ record.payload.size ≤ 65532)
    ⟨fun ⟨legal, fits⟩ => ⟨legal, fits⟩, fun ⟨legal, fits⟩ => ⟨legal, fits⟩⟩

end RecordDraft

/-! ### Bodies -/

/-- The content of a method or block: records and blocks in a row. -/
inductive BodyDraft where
  | done
  | record (first : RecordDraft) (rest : BodyDraft)
  | block (address length : UInt32) (inside rest : BodyDraft)

namespace BodyDraft

def commands : BodyDraft → List SymbolCommand
  | done => []
  | record first rest => first.command :: rest.commands
  | block address length inside rest =>
    .block address length :: inside.commands ++ .close RecordKind.scopeEnd.code :: rest.commands

/-- The records outside of the blocks. -/
def records : BodyDraft → List RecordDraft
  | done => []
  | record first rest => first :: rest.records
  | block _ _ _ rest => rest.records

def slots (body : BodyDraft) : List Slot := body.records.filterMap RecordDraft.slot?

def constants (body : BodyDraft) : List Constant := body.records.filterMap RecordDraft.constant?

def namespaces (body : BodyDraft) : List String := body.records.filterMap RecordDraft.importing?

/-- The blocks as scopes of a method at an address. -/
def scopes (address : UInt32) : BodyDraft → List Scope
  | done => []
  | record _ rest => rest.scopes address
  | block start length inside rest =>
    ⟨start - address, length, inside.slots, inside.constants, inside.namespaces,
      inside.scopes address⟩ :: rest.scopes address

/-- The greatest number of scopes inside each other, that of the content included. -/
def depth : BodyDraft → Nat
  | done => 1
  | record _ rest => rest.depth
  | block _ _ inside rest => max (inside.depth + 1) rest.depth

/-- The records are writable, and no block starts in front of the method at the address. -/
def Writable (address : UInt32) : BodyDraft → Prop
  | done => True
  | record first rest => first.Writable ∧ rest.Writable address
  | block start _ inside rest => address ≤ start ∧ inside.Writable address ∧ rest.Writable address

instance decidableWritable (address : UInt32) :
    (body : BodyDraft) → Decidable (body.Writable address)
  | done => instDecidableTrue
  | record first rest =>
    have := decidableWritable address rest
    inferInstanceAs (Decidable (first.Writable ∧ rest.Writable address))
  | block start _ inside rest =>
    have := decidableWritable address inside
    have := decidableWritable address rest
    inferInstanceAs
      (Decidable (address ≤ start ∧ inside.Writable address ∧ rest.Writable address))

end BodyDraft

/-! ### Methods -/

/-- What a method record holds behind the end of the method. -/
def SymbolRegion.methodTail (token : UInt32) (segment : UInt16) (address length : UInt32)
    (name : String) : ByteArray :=
  Bytes.uint32s [0, length, 0, length, token, address] ++ Bytes.uint16 segment ++ Bytes.uint8 0
    ++ Bytes.uint16 0 ++ Bytes.terminated name

/-- A method to be written. -/
structure MethodDraft where
  token : UInt32
  segment : UInt16
  address : UInt32
  length : UInt32
  name : String
  body : BodyDraft

namespace MethodDraft

def commands (draft : MethodDraft) : List SymbolCommand :=
  .method draft.token draft.segment draft.address draft.length draft.name
    :: draft.body.commands ++ [.close RecordKind.scopeEnd.code]

/-- The items of custom metadata about the method. -/
def items (draft : MethodDraft) : List MetadataDraft :=
  draft.body.records.flatMap RecordDraft.items

/-- The method as far as its own record says. -/
def start (draft : MethodDraft) : Method where
  token := draft.token
  segment := draft.segment
  address := draft.address
  length := draft.length
  flags := 0
  name := some draft.name
  scope := default
  usingCounts := []
  forwardToken := none
  forwardModuleToken := none
  iteratorClass := none
  iteratorScopes := []
  asyncInfo := none
  lines := []

/-- What the record of the method holds behind the end of the method. -/
def tail (draft : MethodDraft) : ByteArray :=
  SymbolRegion.methodTail draft.token draft.segment draft.address draft.length draft.name

/-- The method that is written. -/
def method (draft : MethodDraft) : Method where
  token := draft.token
  segment := draft.segment
  address := draft.address
  length := draft.length
  flags := 0
  name := some draft.name
  scope := ⟨0, draft.length, draft.body.slots, draft.body.constants, draft.body.namespaces,
    draft.body.scopes draft.address⟩
  usingCounts := (draft.items.filterMap MetadataDraft.counts?).getLast?.getD []
  forwardToken := (draft.items.filterMap MetadataDraft.forward?).getLast?
  forwardModuleToken := (draft.items.filterMap MetadataDraft.forwardToModule?).getLast?
  iteratorClass := (draft.items.filterMap MetadataDraft.class?).getLast?
  iteratorScopes := (draft.items.filterMap MetadataDraft.scopes?).getLast?.getD []
  asyncInfo := (draft.body.records.filterMap RecordDraft.asyncInfo?).getLast?
  lines := []

/-- The method can be read back. -/
structure Writable (draft : MethodDraft) : Prop where
  name : ZeroFree draft.name
  fits : (SymbolRegion.methodPayload draft.token draft.segment draft.address draft.length
    draft.name).size ≤ 65532
  body : draft.body.Writable draft.address
  depth : draft.body.depth ≤ maxOpenScopes

instance (draft : MethodDraft) : Decidable draft.Writable :=
  decidable_of_iff (ZeroFree draft.name
      ∧ (SymbolRegion.methodPayload draft.token draft.segment draft.address draft.length
        draft.name).size ≤ 65532
      ∧ draft.body.Writable draft.address ∧ draft.body.depth ≤ maxOpenScopes)
    ⟨fun ⟨name, fits, body, depth⟩ => ⟨name, fits, body, depth⟩,
      fun ⟨name, fits, body, depth⟩ => ⟨name, fits, body, depth⟩⟩

end MethodDraft

/-! ### Regions -/

/-- A method, or a record between methods. -/
inductive RegionDraft where
  | method (draft : MethodDraft)
  | raw (kind : UInt16) (payload : ByteArray)

namespace RegionDraft

def commands : RegionDraft → List SymbolCommand
  | method draft => draft.commands
  | raw kind payload => [.raw kind payload]

/-- The method, if it is one. -/
def method? : RegionDraft → Option Method
  | method draft => some draft.method
  | raw .. => none

/-- The method or record can be read back. -/
def Writable : RegionDraft → Prop
  | method draft => draft.Writable
  | raw kind payload => (RecordDraft.raw kind payload).Writable

instance : (draft : RegionDraft) → Decidable draft.Writable
  | method draft => inferInstanceAs (Decidable draft.Writable)
  | raw kind payload => inferInstanceAs (Decidable (RecordDraft.raw kind payload).Writable)

/-- The bytes of a symbol region that holds the methods and records. -/
def written (drafts : List RegionDraft) : ByteArray :=
  (SymbolRegion.ofCommands (drafts.flatMap RegionDraft.commands)).bytes

end RegionDraft

end ManagedPdb
