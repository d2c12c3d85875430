import Mathlib.Data.List.Nodup
import ManagedPdb.DebugInfo.Sink
import ManagedPdb.Proofs.DebugInfo.Remapping
import ManagedPdb.Proofs.Draft.Decoded

/-!
# Methods that were handed on

Methods that share a token are told apart in the same way everywhere: the last one counts.  A
container that puts a method in place of any other with its token (`LawfulSink`) finds, after all
methods were handed to it, the last method with each token (`LawfulSink.find?_foldl`).  The three
containers are of that kind.  They differ in the order in which they go over the tokens: a hash map
in none, a search tree from the least token on, and an ordered map in the order in which the tokens
come up first (`LawfulOrderedMap.keys_foldl`).  Of an ordered map only its laws are used.
-/

namespace ManagedPdb

/-! ### The last method with a token -/

/-- The method is the last one with the token. -/
def LastWith (methods : List Method) (token : UInt32) (method : Method) : Prop :=
  ∃ before after, methods = before ++ method :: after ∧ method.token = token ∧
    ∀ later ∈ after, later.token ≠ token

theorem getLast?_filter_eq_some_iff {methods : List Method} {token : UInt32} {method : Method} :
    (methods.filter (·.token = token)).getLast? = some method ↔ LastWith methods token method := by
  rw [List.getLast?_filter, List.find?_eq_some_iff_append]
  constructor
  · rintro ⟨htoken, after, before, hmethods, hlater⟩
    refine ⟨before.reverse, after.reverse, ?_, by simpa using htoken, by simpa using hlater⟩
    rw [← List.reverse_reverse methods, hmethods]
    simp
  · rintro ⟨before, after, rfl, htoken, hlater⟩
    exact ⟨by simpa using htoken, after.reverse, before.reverse, by simp, by simpa using hlater⟩

theorem getLast?_filter_eq_none_iff {methods : List Method} {token : UInt32} :
    (methods.filter (·.token = token)).getLast? = none ↔
      ∀ method ∈ methods, method.token ≠ token := by
  simp

/-! ### Containers of methods by token -/

/-- A container that finds under a token the method with that token which was added last. -/
structure LawfulSink (κ : Type) [MethodSink κ] (find? : κ → UInt32 → Option Method) (start : κ) :
    Prop where
  find?_start : ∀ token, find? start token = none
  find?_insert : ∀ sink method token, find? (MethodSink.insertMethod sink method) token
    = if method.token = token then some method else find? sink token

/-- What is found under a token after all methods were added. -/
theorem LawfulSink.find?_foldl {κ : Type} [MethodSink κ] {find? : κ → UInt32 → Option Method}
    {start : κ} (lawful : LawfulSink κ find? start) (methods : List Method) (token : UInt32) :
    find? (methods.foldl MethodSink.insertMethod start) token
      = (methods.filter (·.token = token)).getLast? := by
  induction methods using List.reverseRecOn with
  | nil => exact lawful.find?_start token
  | append_singleton methods method ih =>
    rw [List.foldl_append, List.foldl_cons, List.foldl_nil, lawful.find?_insert, ih,
      List.filter_append]
    by_cases htoken : method.token = token
    · rw [if_pos htoken, List.filter_cons_of_pos (by simpa using htoken), List.filter_nil,
        List.getLast?_concat]
    · rw [if_neg htoken, List.filter_cons_of_neg (by simpa using htoken), List.filter_nil,
        List.append_nil]

theorem lawfulSink_hashMap :
    LawfulSink (Std.HashMap UInt32 Method) (fun sink token => sink[token]?) ∅ where
  find?_start _ := Std.HashMap.getElem?_empty
  find?_insert sink method token := by
    show (sink.insert method.token method)[token]? = _
    simp only [Std.HashMap.getElem?_insert, beq_iff_eq]

theorem lawfulSink_treeMap :
    LawfulSink (Std.TreeMap UInt32 Method) (fun sink token => sink[token]?) ∅ where
  find?_start _ := Std.TreeMap.getElem?_emptyc
  find?_insert sink method token := by
    show (sink.insert method.token method)[token]? = _
    simp only [Std.TreeMap.getElem?_insert, Std.LawfulEqCmp.compare_eq_iff_eq]

/-! ### Ordered maps -/

namespace OrderedMap

/-- The tokens in the order in which the map goes over them. -/
def keys {κ : Type} [OrderedMap κ] (map : κ) : List UInt32 := (entries map).map Prod.fst

end OrderedMap

open OrderedMap

/-- What is known about an ordered map. -/
class LawfulOrderedMap (κ : Type) [OrderedMap κ] : Prop where
  keys_empty : keys (empty : κ) = []
  get?_insert_self : ∀ (map : κ) token method, get? (insert map token method) token = some method
  get?_insert_of_ne : ∀ (map : κ) token method other, token ≠ other →
    get? (insert map token method) other = get? map other
  /-- A token that has a method keeps its place. -/
  keys_insert_of_mem : ∀ (map : κ) token method, token ∈ keys map →
    keys (insert map token method) = keys map
  /-- A token that has none is the last one. -/
  keys_insert_of_notMem : ∀ (map : κ) token method, token ∉ keys map →
    keys (insert map token method) = keys map ++ [token]
  /-- The map goes over what it finds. -/
  mem_entries_iff : ∀ (map : κ) token method,
    (token, method) ∈ entries map ↔ get? map token = some method

namespace LawfulOrderedMap

variable {κ : Type} [OrderedMap κ] [LawfulOrderedMap κ]

theorem lawfulSink : LawfulSink κ get? empty where
  find?_start token := by
    refine Option.eq_none_iff_forall_ne_some.mpr fun method h => ?_
    have hmember := List.mem_map_of_mem (f := Prod.fst) ((mem_entries_iff _ _ _).mpr h)
    have hkeys := keys_empty (κ := κ)
    rw [keys] at hkeys
    rw [hkeys] at hmember
    cases hmember
  find?_insert map method token := by
    show get? (insert map method.token method) token = _
    by_cases htoken : method.token = token
    · subst htoken
      rw [if_pos rfl, get?_insert_self]
    · rw [if_neg htoken, get?_insert_of_ne _ _ _ _ htoken]

/-- The tokens stand in the order in which they come up first. -/
theorem keys_foldl (methods : List Method) :
    keys (methods.foldl MethodSink.insertMethod (empty : κ))
      = (methods.map Method.token).eraseDups := by
  induction methods using List.reverseRecOn with
  | nil => exact keys_empty
  | append_singleton methods method ih =>
    rw [List.foldl_append, List.foldl_cons, List.foldl_nil, List.map_append, List.map_singleton,
      List.eraseDups_append, List.cons_removeAll, List.removeAll, List.filter_nil, ← ih]
    generalize hmap : methods.foldl MethodSink.insertMethod (empty : κ) = map at ih
    have hmem : method.token ∈ keys map ↔ method.token ∈ methods.map Method.token := by
      rw [ih, List.mem_eraseDups]
    show keys (insert map method.token method) = _
    by_cases hknown : method.token ∈ keys map
    · rw [keys_insert_of_mem _ _ _ hknown]
      simp [hmem.mp hknown]
    · rw [keys_insert_of_notMem _ _ _ hknown]
      simp [mt hmem.mpr hknown, List.eraseDups_cons]

theorem nodup_keys_foldl (methods : List Method) :
    (keys (methods.foldl MethodSink.insertMethod (empty : κ))).Nodup := by
  induction methods using List.reverseRecOn with
  | nil => exact keys_empty (κ := κ) ▸ List.nodup_nil
  | append_singleton methods method ih =>
    rw [List.foldl_append, List.foldl_cons, List.foldl_nil]
    generalize methods.foldl MethodSink.insertMethod (empty : κ) = map at ih
    show (keys (insert map method.token method)).Nodup
    by_cases hknown : method.token ∈ keys map
    · rwa [keys_insert_of_mem _ _ _ hknown]
    · rw [keys_insert_of_notMem _ _ _ hknown]
      exact List.concat_eq_append ▸ ih.concat hknown

end LawfulOrderedMap

namespace MethodSequence

variable {sequence : MethodSequence} {token : UInt32} {method : Method}

theorem entries_insert_of_mem (known : token ∈ sequence.entries.map Prod.fst) :
    (sequence.insert token method).entries = sequence.entries.map fun entry =>
      (entry.1, if entry.1 = token then method else entry.2) := by
  rw [MethodSequence.insert, dif_pos known]

theorem entries_insert_of_notMem (new : token ∉ sequence.entries.map Prod.fst) :
    (sequence.insert token method).entries = sequence.entries ++ [(token, method)] := by
  rw [MethodSequence.insert, dif_neg new]

theorem find?_eq_some_iff :
    sequence.find? token = some method ↔ (token, method) ∈ sequence.entries := by
  rw [find?, Option.map_eq_some_iff]
  constructor
  · rintro ⟨entry, hentry, rfl⟩
    obtain rfl : entry.1 = token := by simpa using List.find?_some hentry
    exact List.mem_of_find?_eq_some hentry
  · intro member
    have hfound : (sequence.entries.find? (·.1 == token)).isSome :=
      List.find?_isSome.mpr ⟨(token, method), member, beq_self_eq_true token⟩
    obtain ⟨entry, hentry⟩ := Option.isSome_iff_exists.mp hfound
    refine ⟨entry, hentry, ?_⟩
    have htoken : entry.1 = token := by simpa using List.find?_some hentry
    have hsame := List.inj_on_of_nodup_map sequence.distinct (List.mem_of_find?_eq_some hentry)
      member htoken
    rw [hsame]

end MethodSequence

instance : LawfulOrderedMap MethodSequence where
  keys_empty := rfl
  get?_insert_self sequence token method := by
    refine MethodSequence.find?_eq_some_iff.mpr ?_
    show (token, method) ∈ (sequence.insert token method).entries
    by_cases known : token ∈ sequence.entries.map Prod.fst
    · rw [MethodSequence.entries_insert_of_mem known]
      obtain ⟨entry, member, rfl⟩ := List.mem_map.mp known
      exact List.mem_map.mpr ⟨entry, member, by rw [if_pos rfl]⟩
    · rw [MethodSequence.entries_insert_of_notMem known]
      exact List.mem_append_right _ (List.mem_singleton_self _)
  get?_insert_of_ne sequence token method other hne := by
    refine Option.ext fun found => ?_
    show MethodSequence.find? (sequence.insert token method) other = some found ↔
      sequence.find? other = some found
    rw [MethodSequence.find?_eq_some_iff, MethodSequence.find?_eq_some_iff]
    by_cases known : token ∈ sequence.entries.map Prod.fst
    · rw [MethodSequence.entries_insert_of_mem known, List.mem_map]
      constructor
      · rintro ⟨⟨key, old⟩, member, hentry⟩
        obtain ⟨rfl, hfound⟩ := Prod.mk.inj hentry
        rw [if_neg hne.symm] at hfound
        exact hfound ▸ member
      · exact fun member => ⟨_, member, by rw [if_neg hne.symm]⟩
    · rw [MethodSequence.entries_insert_of_notMem known, List.mem_append, List.mem_singleton]
      exact or_iff_left fun hentry => hne (congrArg Prod.fst hentry).symm
  keys_insert_of_mem sequence token method known := by
    show (sequence.insert token method).entries.map Prod.fst = _
    rw [MethodSequence.entries_insert_of_mem known, List.map_map]
    rfl
  keys_insert_of_notMem sequence token method new := by
    show (sequence.insert token method).entries.map Prod.fst = _
    rw [MethodSequence.entries_insert_of_notMem new, List.map_append]
    rfl
  mem_entries_iff _ _ _ := MethodSequence.find?_eq_some_iff.symm

/-! ### The methods of a file -/

namespace DebugInfo

variable {info : DebugInfo}

theorem intoSink_eq {κ : Type} [MethodSink κ] (sink : κ) :
    info.intoSink sink = info.methods.toList.foldl MethodSink.insertMethod sink :=
  (Array.foldl_toList ..).symm

/-- What is found in a container that all methods were handed to is what the file finds. -/
theorem find?_intoSink (indexed : info.Indexed) {κ : Type} [MethodSink κ]
    {find? : κ → UInt32 → Option Method} {start : κ} (lawful : LawfulSink κ find? start)
    (token : UInt32) : find? (info.intoSink start) token = info.method? token := by
  rw [intoSink_eq, lawful.find?_foldl, method?_eq_getLast? indexed]

/-- A container agrees with the file: it finds under each token what the file finds, and it goes
over one entry for each token that a method has. -/
structure AgreesWith (info : DebugInfo) (find? : UInt32 → Option Method)
    (entries : List (UInt32 × Method)) : Prop where
  find?_eq : ∀ token, find? token = info.method? token
  mem_iff : ∀ token method, (token, method) ∈ entries ↔ info.method? token = some method
  mem_tokens_iff : ∀ token, token ∈ entries.map Prod.fst ↔
    token ∈ info.methods.toList.map Method.token
  nodup : (entries.map Prod.fst).Nodup

theorem AgreesWith.of_indexed (indexed : info.Indexed) {find? : UInt32 → Option Method}
    {entries : List (UInt32 × Method)} (find?_eq : ∀ token, find? token = info.method? token)
    (mem_iff : ∀ token method, (token, method) ∈ entries ↔ find? token = some method)
    (nodup : (entries.map Prod.fst).Nodup) : info.AgreesWith find? entries where
  find?_eq
  mem_iff token method := by rw [mem_iff, find?_eq]
  mem_tokens_iff token := by
    have hnone : find? token = none ↔ ∀ method ∈ info.methods.toList, method.token ≠ token := by
      rw [find?_eq, method?_eq_getLast? indexed, getLast?_filter_eq_none_iff]
    rw [List.mem_map, List.mem_map]
    constructor
    · rintro ⟨⟨_, method⟩, member, rfl⟩
      rw [mem_iff] at member
      by_contra habsent
      rw [hnone.mpr fun other hother htoken => habsent ⟨other, hother, htoken⟩] at member
      cases member
    · rintro ⟨method, member, htoken⟩
      cases hfound : find? token with
      | none => exact absurd htoken (hnone.mp hfound method member)
      | some found => exact ⟨(token, found), (mem_iff token found).mpr hfound, rfl⟩
  nodup

/-- The look-up by token gives the last method with the token, and the three containers that all
methods are handed to agree with it.  A search tree goes over the tokens in their order, and an
ordered map in the order in which they come up first among the methods. -/
theorem sinks_agree (κ : Type) [OrderedMap κ] [LawfulOrderedMap κ] {options : DecodeOptions}
    {image : ByteArray} (h : decodeWith options image = .ok info) :
    (∀ token, (∀ method, info.method? token = some method ↔
        LastWith info.methods.toList token method) ∧
      (info.method? token = none ↔ ∀ method ∈ info.methods.toList, method.token ≠ token)) ∧
    (let hash : Std.HashMap UInt32 Method := info.intoSink ∅;
      info.AgreesWith (hash[·]?) hash.toList) ∧
    (let sorted : Std.TreeMap UInt32 Method := info.intoSink ∅;
      info.AgreesWith (sorted[·]?) sorted.toList ∧
        (sorted.toList.map Prod.fst).Pairwise (· < ·)) ∧
    (let ordered : κ := info.intoSink OrderedMap.empty;
      info.AgreesWith (OrderedMap.get? ordered) (OrderedMap.entries ordered) ∧
        (OrderedMap.entries ordered).map Prod.fst
          = (info.methods.toList.map Method.token).eraseDups) := by
  have indexed := indexed_of_decodeWith h
  refine ⟨fun token => ⟨fun method => ?_, ?_⟩, ?hash, ?sorted, ?ordered⟩
  · rw [method?_eq_getLast? indexed, getLast?_filter_eq_some_iff]
  · rw [method?_eq_getLast? indexed, getLast?_filter_eq_none_iff]
  case hash =>
    refine .of_indexed indexed (find?_intoSink indexed lawfulSink_hashMap) ?_ ?_
    · intro token method
      exact Std.HashMap.mem_toList_iff_getElem?_eq_some
    · rw [Std.HashMap.map_fst_toList_eq_keys]
      exact Std.HashMap.nodup_keys
  case sorted =>
    refine ⟨.of_indexed indexed (find?_intoSink indexed lawfulSink_treeMap) ?_ ?_, ?_⟩
    · intro token method
      exact Std.TreeMap.mem_toList_iff_getElem?_eq_some
    · rw [Std.TreeMap.map_fst_toList_eq_keys]
      exact Std.TreeMap.nodup_keys
    · rw [Std.TreeMap.map_fst_toList_eq_keys]
      exact Std.TreeMap.ordered_keys.imp Std.compare_eq_lt.mp
  case ordered =>
    refine ⟨.of_indexed indexed (find?_intoSink indexed LawfulOrderedMap.lawfulSink)
      (LawfulOrderedMap.mem_entries_iff _) ?_, ?_⟩
    · rw [intoSink_eq]
      exact LawfulOrderedMap.nodup_keys_foldl _
    · rw [intoSink_eq]
      exact LawfulOrderedMap.keys_foldl _

/-- Two of three methods share a token, and a token that comes up later is less. -/
def sharedTokenDraft : ImageDraft where
  modules := [
    { ModuleDraft.ofName "a.obj" with
      symbols := some (SymbolRegion.ofCommands [.method 0x06000002 1 16 32 "a", .close 6]).bytes },
    { ModuleDraft.ofName "b.obj" with
      symbols := some (SymbolRegion.ofCommands [.method 0x06000001 2 16 33 "b", .close 6]).bytes },
    { ModuleDraft.ofName "c.obj" with
      symbols := some (SymbolRegion.ofCommands [.method 0x06000002 3 16 34 "c", .close 6]).bytes }]

theorem sinks_agree_sharedTokenDraft :
    ∃ info, decodeWith {} sharedTokenDraft.image = .ok info ∧
      info.methods.toList.map Method.token = [0x06000002, 0x06000001, 0x06000002] ∧
      (∀ method, info.method? 0x06000002 = some method ↔
        LastWith info.methods.toList 0x06000002 method) ∧
      ((info.intoSink (∅ : Std.TreeMap UInt32 Method)).toList.map Prod.fst).Pairwise (· < ·) ∧
      (info.intoSink MethodSequence.empty).entries.map Prod.fst = [0x06000002, 0x06000001] := by
  have writable : sharedTokenDraft.Writable [] :=
    .of_modules rfl rfl rfl rfl nofun (by decide +kernel) (by decide +kernel) (by decide +kernel)
      (by decide +kernel) (by decide +kernel)
  have htokens : (sharedTokenDraft.decoded []).toOption.map
      (fun info => info.methods.toList.map Method.token)
        = some [0x06000002, 0x06000001, 0x06000002] := by
    unfold ImageDraft.decoded ImageDraft.readModules ModuleDraft.readWith
      ModuleDescriptor.readStream ModuleDescriptor.readMethodsWithLines DebugInfo.remapMethods
    simp only [Method.sort_eq_insertSort]
    decide +kernel
  obtain ⟨info, hinfo, htokens⟩ := exists_decode_image writable htokens
  obtain ⟨hlast, -, ⟨-, hsorted⟩, -, hfirst⟩ := sinks_agree MethodSequence hinfo
  refine ⟨info, hinfo, htokens, (hlast 0x06000002).1, hsorted, hfirst.trans ?_⟩
  rw [htokens]
  decide

end DebugInfo

end ManagedPdb
