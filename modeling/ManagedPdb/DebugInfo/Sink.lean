import ManagedPdb.DebugInfo.Basic

/-!
# Handing methods on

All methods can be handed to a container that keeps one method for each token, in the order of
their places.  A later method with a token takes the place of an earlier one.
-/

namespace ManagedPdb

/-- A container of methods by token. -/
class MethodSink (κ : Type) where
  /-- Adds a method in place of any other with its token. -/
  insertMethod : κ → Method → κ

/-- The operations of a map that goes over its tokens in the order in which they were first
inserted. -/
class OrderedMap (κ : Type) where
  empty : κ
  insert : κ → UInt32 → Method → κ
  get? : κ → UInt32 → Option Method
  /-- The entries in the order in which the map goes over them. -/
  entries : κ → List (UInt32 × Method)

instance : MethodSink (Std.HashMap UInt32 Method) where
  insertMethod methods method := methods.insert method.token method

instance : MethodSink (Std.TreeMap UInt32 Method) where
  insertMethod methods method := methods.insert method.token method

instance {κ : Type} [OrderedMap κ] : MethodSink κ where
  insertMethod methods method := OrderedMap.insert methods method.token method

/-- An ordered map that keeps its entries in a list. -/
structure MethodSequence where
  entries : List (UInt32 × Method)
  distinct : (entries.map Prod.fst).Nodup

namespace MethodSequence

def empty : MethodSequence := ⟨[], .nil⟩

/-- Replaces the method of a token that has one, or puts the token behind all others. -/
def insert (sequence : MethodSequence) (token : UInt32) (method : Method) : MethodSequence :=
  if known : token ∈ sequence.entries.map Prod.fst then
    { entries := sequence.entries.map fun entry =>
        (entry.1, if entry.1 = token then method else entry.2)
      distinct := by
        rw [List.map_map]
        exact sequence.distinct }
  else
    { entries := sequence.entries ++ [(token, method)]
      distinct := by
        rw [List.map_append, List.nodup_append]
        refine ⟨sequence.distinct, by simp, fun key member other hother hsame => known ?_⟩
        rw [hsame, List.mem_singleton.mp hother] at member
        exact member }

def find? (sequence : MethodSequence) (token : UInt32) : Option Method :=
  (sequence.entries.find? (·.1 == token)).map Prod.snd

def methods (sequence : MethodSequence) : Array Method :=
  (sequence.entries.map Prod.snd).toArray

end MethodSequence

instance : OrderedMap MethodSequence where
  empty := .empty
  insert := MethodSequence.insert
  get? := MethodSequence.find?
  entries := MethodSequence.entries

namespace DebugInfo

/-- Hands all methods to a container. -/
def intoSink {κ : Type} [MethodSink κ] (info : DebugInfo) (sink : κ) : κ :=
  info.methods.foldl MethodSink.insertMethod sink

end DebugInfo

end ManagedPdb
