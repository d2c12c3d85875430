import ManagedPdb.Proofs.DebugInfo.Truncation
import ManagedPdb.Proofs.DebugInfo.Remapping

/-!
# Tokens behind a remap table

A remap table holds words of 32 bits, and a new token is such a word behind the mark of method
definitions, with all its bits.  So the row of a new token is the low part of the word, and its
table is that of methods if the high part adds nothing to the mark (`TokenRemap.Renumbers`).  A file
with a table says so of all its tokens (`DebugInfo.tokens_renumbered`).
-/

namespace ManagedPdb

namespace TokenRemap

/-- The number of the metadata table that a token refers to. -/
def tableNumber (token : UInt32) : Nat := token.toNat / 2 ^ 24

/-- The new token is that of a method, and its row is the word for the row of the old one. -/
def TakesWord (table : Array UInt32) (old new : UInt32) : Prop :=
  tableNumber new = 6 ∧ ∃ word, table[row old]? = some word ∧ row new = word.toNat

/-- The new token is made of the word for the row of the old one. -/
structure Renumbers (table : Array UInt32) (old new word : UInt32) : Prop where
  found : table[row old]? = some word
  row_eq : row new = word.toNat % 2 ^ 24
  tableNumber_eq : tableNumber new = 6 ||| word.toNat / 2 ^ 24
  takesWord_iff : TakesWord table old new ↔ word.toNat < 2 ^ 24

theorem row_eq_mod (token : UInt32) : row token = token.toNat % 2 ^ 24 := by
  show token.toNat &&& (2 ^ 24 - 1) = _
  exact Nat.and_two_pow_sub_one_eq_mod _ _

theorem row_mark (word : UInt32) : row (methodMark ||| word) = word.toNat % 2 ^ 24 := by
  rw [row_eq_mod, UInt32.toNat_or, Nat.or_mod_two_pow]
  show 0 ||| _ = _
  exact Nat.zero_or _

theorem tableNumber_mark (word : UInt32) :
    tableNumber (methodMark ||| word) = 6 ||| word.toNat / 2 ^ 24 := by
  rw [tableNumber, UInt32.toNat_or, Nat.or_div_two_pow]
  rfl

/-- A token that is changed by a table takes its word over, if that is a row at all. -/
theorem exists_renumbers {table : Array UInt32} {old new : UInt32}
    (h : remap ⟨some table⟩ old = .ok new) : ∃ word, Renumbers table old new word := by
  simp only [remap] at h
  cases hword : table[row old]? with
  | none =>
    rw [hword] at h
    cases h
  | some word =>
    rw [hword] at h
    cases h
    refine ⟨word, hword, row_mark word, tableNumber_mark word, ?_⟩
    constructor
    · rintro ⟨-, word', hword', hrow⟩
      rw [hword] at hword'
      cases hword'
      rw [row_mark] at hrow
      omega
    · intro hlt
      refine ⟨?_, word, hword, ?_⟩
      · rw [tableNumber_mark, Nat.div_eq_of_lt hlt]
        rfl
      · rw [row_mark, Nat.mod_eq_of_lt hlt]

end TokenRemap

namespace DebugInfo

/-- In a file with a remap table, every token of a method is made of the word for the row of the
token that is stored.  It is the token of a method, with the word as its row, if the word has at
most 24 bits, and only then. -/
theorem tokens_renumbered {keepNames : Bool} {image : ByteArray} {info : DebugInfo}
    {table : Array UInt32}
    (h : decodeWith { keepNames, applyTokenRemap := true } image = .ok info)
    (htable : tokenRemap keepNames image = .ok ⟨some table⟩) :
    ∃ raw order, decodeWith { keepNames, applyTokenRemap := false } image = .ok raw ∧
      order.Perm raw.methods.toList ∧
      List.Forall₂ (fun stored method : Method =>
          List.Forall₂ (fun old new => ∃ word, TokenRemap.Renumbers table old new word)
            stored.tokens method.tokens)
        order info.methods.toList := by
  obtain ⟨container, library, debug, findings, found⟩ := exists_found h
  rw [found.tokenRemap_eq] at htable
  rw [found.decodeWith_eq true, htable, ok_bind] at h
  obtain ⟨renamed, sourceServer, hrenamed, hserver, rfl⟩ := finish_eq_ok_iff.mp h
  have sorted : SortedFrom ⟨some table⟩
      (ofFindings library debug findings (Method.sort findings.methods.toList).toArray sourceServer)
      (ofFindings library debug findings (Method.sort renamed).toArray sourceServer)
      findings.methods.toList renamed :=
    ⟨rfl, rfl, rfl, rfl,
      (forall₂_of_mapM_eq_ok hrenamed).imp fun _ _ => TokenRemap.changes_of_apply⟩
  obtain ⟨order, hperm, hchanges⟩ := sorted.exists_order
  refine ⟨_, order, ?_, hperm, hchanges.imp fun stored method changes => ?_⟩
  · rw [found.decodeWith_raw]
    exact finish_eq_ok_iff.mpr ⟨_, sourceServer, TokenRemap.mapM_identity _, hserver, rfl⟩
  · exact changes.forall₂_tokens.imp fun old new => TokenRemap.exists_renumbers

/-- The table that a draft was given is the one in the file. -/
theorem tokenRemap_image {draft : ImageDraft} {names : List String}
    (writable : draft.Writable names) : tokenRemap true draft.image = .ok draft.remap := by
  obtain ⟨container, hcontainer, holds⟩ := Layout.exists_holds writable.fits
  have himage : Container.ofImage draft.image = .ok container := hcontainer
  rw [tokenRemap, himage, ok_bind, Container.run'_stage holds.paged, holds.content_eq,
    writable.debugStream_run, ok_bind, (decodeRemap_sim holds _ _ .empty).eq]
  exact writable.remapOfStreams_eq rfl

/-- A method whose word is a row, and one whose word is wider and that points to the first one. -/
def wideWordDraft : ImageDraft where
  modules := [{
    ModuleDraft.ofName "a.obj" with
    symbols := some (SymbolRegion.ofCommands [
      .method 0x06000001 1 16 32 "a", .close 6,
      .method 0x06000002 1 64 32 "b", .metadata [.forward 0x06000001],
      .asynchronous 0x06000001 0 [(4, 0x06000002, 8)], .close 6]).bytes }]
  tokenRemap := some [0, 9, 0x01000005]

theorem writable_wideWordDraft : wideWordDraft.Writable [] :=
  .of_modules rfl rfl rfl rfl nofun (by decide +kernel) (by decide +kernel) (by decide +kernel)
    (by decide +kernel) (by decide +kernel)

theorem tokens_wideWordDraft :
    ∃ info, decodeWith {} wideWordDraft.image = .ok info ∧
      info.methods.toList.map Method.tokens
        = [[0x06000009], [0x07000005, 0x06000009, 0x06000009, 0x07000005]] := by
  apply exists_decode_image writable_wideWordDraft
  unfold ImageDraft.decoded ImageDraft.readModules ModuleDraft.readWith
    ModuleDescriptor.readStream ModuleDescriptor.readMethodsWithLines remapMethods
  simp only [Method.sort_eq_insertSort]
  decide +kernel

theorem tokenRemap_wideWordDraft :
    tokenRemap true wideWordDraft.image = .ok ⟨some #[0, 9, 0x01000005]⟩ :=
  tokenRemap_image writable_wideWordDraft

/-- The first word is a row and the second one is not. -/
theorem tokens_renumbered_wideWordDraft :
    ∃ info raw order, decodeWith {} wideWordDraft.image = .ok info ∧
      tokenRemap true wideWordDraft.image = .ok ⟨some #[0, 9, 0x01000005]⟩ ∧
      decodeWith { applyTokenRemap := false } wideWordDraft.image = .ok raw ∧
      order.Perm raw.methods.toList ∧
      List.Forall₂ (fun stored method : Method =>
          List.Forall₂ (fun old new =>
              ∃ word, TokenRemap.Renumbers #[0, 9, 0x01000005] old new word)
            stored.tokens method.tokens)
        order info.methods.toList ∧
      info.methods.toList.map Method.tokens
        = [[0x06000009], [0x07000005, 0x06000009, 0x06000009, 0x07000005]] := by
  obtain ⟨info, hinfo, htokens⟩ := tokens_wideWordDraft
  obtain ⟨raw, order, hraw, hperm, hrenumbered⟩ :=
    tokens_renumbered hinfo tokenRemap_wideWordDraft
  exact ⟨info, raw, order, hinfo, tokenRemap_wideWordDraft, hraw, hperm, hrenumbered, htokens⟩

/-- A token of the second method refers to another metadata table than that of methods. -/
theorem not_takesWord_wideWordDraft :
    ∃ info table, decodeWith {} wideWordDraft.image = .ok info ∧
      tokenRemap true wideWordDraft.image = .ok ⟨some table⟩ ∧
      ∃ method ∈ info.methods.toList, method.token = 0x07000005 ∧
        TokenRemap.tableNumber method.token = 7 ∧
        ∀ old, ¬ TokenRemap.TakesWord table old method.token := by
  obtain ⟨info, hinfo, htokens⟩ := tokens_wideWordDraft
  have hsecond : [0x07000005, 0x06000009, 0x06000009, 0x07000005]
      ∈ info.methods.toList.map Method.tokens := by
    simp [htokens]
  obtain ⟨method, member, hmethod⟩ := List.mem_map.mp hsecond
  have htoken : method.token = 0x07000005 := (List.cons.inj hmethod).1
  have hnumber : TokenRemap.tableNumber method.token = 7 := by
    rw [htoken]
    decide
  refine ⟨info, _, hinfo, tokenRemap_wideWordDraft, method, member, htoken, hnumber, ?_⟩
  rintro old ⟨hsix, -⟩
  omega

end DebugInfo

end ManagedPdb
