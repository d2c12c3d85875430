import ManagedPdb.DebugInfo.Decode
import ManagedPdb.DebugInfo.Lookup
import ManagedPdb.Proofs.Line.SiteSearch
import ManagedPdb.Proofs.StableSort
import ManagedPdb.Proofs.TokenRemap
import Mathlib.Data.List.Induction

/-!
# Looking up changed methods

The index of tokens gives the last method with a token (`DebugInfo.method?_eq_getLast?`).  Where no
two tokens become one, methods that were changed and sorted again are found under their new tokens
where they were found under the old ones, and the chains of imports lead to the same methods
(`DebugInfo.usingInfo?_rel`).
-/

namespace ManagedPdb

/-! ### The order of methods -/

theorem Site.before_trans {first second third : Site} (hleft : first.before second)
    (hright : second.before third) : first.before third := by
  simp only [Site.before, Bool.or_eq_true, Bool.and_eq_true, decide_eq_true_eq, beq_iff_eq,
    UInt16.lt_iff_toNat_lt, UInt32.lt_iff_toNat_lt, ← UInt16.toNat_inj] at hleft hright ⊢
  omega

namespace Method

theorem inOrder_iff {left right : Method} : left.inOrder right ↔
    left.site.before right.site ∨ left.site = right.site ∧ left.token ≤ right.token := by
  simp [inOrder]

theorem sorts_inOrder : Sorts inOrder where
  trans := by
    intro first second third hleft hright
    rw [inOrder_iff] at hleft hright ⊢
    rcases hleft with hleft | ⟨hleft, hleft_token⟩ <;>
      rcases hright with hright | ⟨hright, hright_token⟩
    · exact .inl (Site.before_trans hleft hright)
    · exact .inl (hright ▸ hleft)
    · exact .inl (hleft ▸ hright)
    · exact .inr ⟨hleft.trans hright, UInt32.le_trans hleft_token hright_token⟩
  total := by
    intro first second
    rw [Bool.or_eq_true, inOrder_iff, inOrder_iff]
    by_cases hfirst : first.site.before second.site
    · exact .inl (.inl hfirst)
    by_cases hsecond : second.site.before first.site
    · exact .inr (.inl hsecond)
    have hsite := Site.eq_of_not_before hfirst hsecond
    rcases UInt32.le_total first.token second.token with htoken | htoken
    · exact .inl (.inr ⟨hsite, htoken⟩)
    · exact .inr (.inr ⟨hsite.symm, htoken⟩)

theorem perm_sort (methods : List Method) : (sort methods).Perm methods :=
  List.mergeSort_perm methods inOrder

theorem inOrder_iff_toNat {left right : Method} : left.inOrder right ↔
    left.segment.toNat < right.segment.toNat ∨ left.segment.toNat = right.segment.toNat ∧
      (left.address.toNat < right.address.toNat ∨ left.address.toNat = right.address.toNat ∧
        left.token.toNat ≤ right.token.toNat) := by
  rw [inOrder_iff]
  simp only [site, Site.before, Site.mk.injEq, Bool.or_eq_true, Bool.and_eq_true,
    decide_eq_true_eq, beq_iff_eq, UInt16.lt_iff_toNat_lt, UInt32.lt_iff_toNat_lt,
    UInt32.le_iff_toNat_le, ← UInt16.toNat_inj, ← UInt32.toNat_inj]
  omega

/-- The order of methods by numbers.  Unlike equal places and tokens, equal numbers are found by the
kernel without a comparison of the terms that stand for them. -/
def numbersInOrder (left right : Method) : Bool :=
  Nat.blt left.segment.toNat right.segment.toNat
    || Nat.beq left.segment.toNat right.segment.toNat
      && (Nat.blt left.address.toNat right.address.toNat
        || Nat.beq left.address.toNat right.address.toNat
          && Nat.ble left.token.toNat right.token.toNat)

theorem inOrder_eq_numbersInOrder : inOrder = numbersInOrder := by
  funext left right
  rw [Bool.eq_iff_iff, inOrder_iff_toNat, numbersInOrder]
  simp only [Bool.or_eq_true, Bool.and_eq_true, Nat.blt_eq, Nat.beq_eq, Nat.ble_eq]

/-- Sorting by inserting, which the kernel can evaluate. -/
def insertSort : List Method → List Method
  | [] => []
  | method :: methods =>
    (insertSort methods).filter (!numbersInOrder method ·)
      ++ method :: (insertSort methods).filter (numbersInOrder method ·)

theorem sort_eq_insertSort (methods : List Method) : sort methods = insertSort methods := by
  induction methods with
  | nil => simp [sort, insertSort]
  | cons method methods ih =>
    rw [sort, sorts_inOrder.mergeSort_cons, insertSort, ← ih, ← inOrder_eq_numbersInOrder]
    rfl

end Method

/-! ### The last method with a token -/

theorem rel_getLast? {α β : Type} {Related : α → β → Prop} {items : List α} {items' : List β}
    (related : List.Forall₂ Related items items') :
    Option.Rel Related items.getLast? items'.getLast? := by
  rw [← List.head?_reverse, ← List.head?_reverse]
  have hreverse := List.rel_reverse related
  generalize items.reverse = reversed at hreverse
  generalize items'.reverse = reversed' at hreverse
  cases hreverse with
  | nil => exact .none
  | cons hlast _ => exact .some hlast

namespace DebugInfo

theorem indexTokens_concat (methods : List Method) (method : Method) :
    indexTokens (methods ++ [method]).toArray
      = (indexTokens methods.toArray).insert method.token methods.length := by
  simp [indexTokens, List.zipIdx_append]

theorem getElem?_indexTokens (methods : List Method) (token : UInt32) :
    (indexTokens methods.toArray)[token]? = none ∧ methods.filter (·.token = token) = [] ∨
      ∃ place method, (indexTokens methods.toArray)[token]? = some place ∧
        methods[place]? = some method ∧
        (methods.filter (·.token = token)).getLast? = some method := by
  induction methods using List.reverseRecOn with
  | nil => exact .inl ⟨Std.HashMap.getElem?_empty, rfl⟩
  | append_singleton methods method ih =>
    rw [indexTokens_concat, Std.HashMap.getElem?_insert]
    by_cases htoken : method.token = token
    · refine .inr ⟨methods.length, method, by simp [htoken], by simp, by simp [htoken]⟩
    · rcases ih with ⟨hnone, hfilter⟩ | ⟨place, last, hplace, hmethod, hlast⟩
      · exact .inl ⟨by simp [htoken, hnone], by simp [htoken, hfilter]⟩
      · refine .inr ⟨place, last, by simp [htoken, hplace], ?_, by simp [htoken, hlast]⟩
        have hlt := (List.getElem?_eq_some_iff.mp hmethod).1
        rw [List.getElem?_append_left hlt, hmethod]

/-- The index of the methods is about these methods. -/
def Indexed (info : DebugInfo) : Prop := info.lastOfToken = indexTokens info.methods

variable {info : DebugInfo}

/-- The last method with a token counts. -/
theorem method?_eq_getLast? (indexed : info.Indexed) (token : UInt32) :
    info.method? token = (info.methods.toList.filter (·.token = token)).getLast? := by
  unfold method? methodIndex?
  rw [indexed]
  rcases getElem?_indexTokens info.methods.toList token with
    ⟨hnone, hfilter⟩ | ⟨place, method, hplace, hmethod, hlast⟩
  · rw [Array.toArray_toList] at hnone
    rw [hnone, hfilter]
    rfl
  · rw [Array.toArray_toList] at hplace
    rw [hplace, hlast, Option.bind_some, ← Array.getElem?_toList, hmethod]

theorem mem_of_method? (indexed : info.Indexed) {token : UInt32} {method : Method}
    (h : info.method? token = some method) :
    method ∈ info.methods.toList ∧ method.token = token := by
  rw [method?_eq_getLast? indexed] at h
  simpa using List.mem_of_getLast? h

/-! ### Changed tokens -/

/-- The tokens that methods are looked up by: their own and those they forward to. -/
def linkTokens (info : DebugInfo) : List UInt32 :=
  info.methods.toList.flatMap fun method => method.token :: method.forwardToken.toList

end DebugInfo

namespace TokenRemap

variable {remap : TokenRemap}

theorem Changes.site_eq {method changed : Method} (changes : remap.Changes method changed) :
    changed.site = method.site := by
  rw [changes.others]
  rfl

/-- No two of the tokens become one. -/
def InjectiveOn (remap : TokenRemap) (tokens : List UInt32) : Prop :=
  ∀ first ∈ tokens, ∀ second ∈ tokens, ∀ newToken,
    remap.remap first = .ok newToken → remap.remap second = .ok newToken → first = second

/-- The imports are those of the method under its new token. -/
structure ChangesUsing (remap : TokenRemap) (info changed : UsingInfo) : Prop where
  token : remap.remap info.token = .ok changed.token
  usingCounts : changed.usingCounts = info.usingCounts
  scope : changed.scope = info.scope
  namespaces : changed.namespaces = info.namespaces

end TokenRemap

namespace DebugInfo

variable {remap : TokenRemap} {raw changed : DebugInfo}

/-- The methods of `changed` are those of `raw` with changed tokens: both were sorted from the same
methods, and both can be looked up. -/
structure SortedFrom (remap : TokenRemap) (raw changed : DebugInfo) (found renamed : List Method) :
    Prop where
  raw_methods : raw.methods.toList = Method.sort found
  changed_methods : changed.methods.toList = Method.sort renamed
  raw_indexed : raw.Indexed
  changed_indexed : changed.Indexed
  changes : List.Forall₂ remap.Changes found renamed

namespace SortedFrom

variable {found renamed : List Method}

/-- The methods with a token become those with the new token. -/
theorem forall₂_filter_token {token newToken : UInt32}
    (hremap : remap.remap token = .ok newToken)
    (changes : List.Forall₂ remap.Changes found renamed)
    (alone : ∀ method ∈ found, remap.remap method.token = .ok newToken → method.token = token) :
    List.Forall₂ (fun method changed => method.token = token ∧ changed.token = newToken ∧
        remap.Changes method changed)
      (found.filter (·.token = token)) (renamed.filter (·.token = newToken)) := by
  induction changes with
  | nil => exact .nil
  | @cons method changed found renamed hmethod _ ih =>
    rw [List.forall_mem_cons] at alone
    have hiff : method.token = token ↔ changed.token = newToken := by
      constructor
      · intro htoken
        have hsame := hmethod.token
        rw [htoken, hremap] at hsame
        exact (Except.ok.inj hsame).symm
      · intro htoken
        exact alone.1 (htoken ▸ hmethod.token)
    by_cases htoken : method.token = token
    · rw [List.filter_cons_of_pos (by simpa using htoken),
        List.filter_cons_of_pos (by simpa using hiff.mp htoken)]
      exact .cons ⟨htoken, hiff.mp htoken, hmethod⟩ (ih alone.2)
    · rw [List.filter_cons_of_neg (by simpa using htoken),
        List.filter_cons_of_neg (by simpa using fun h => htoken (hiff.mpr h))]
      exact ih alone.2

theorem length_eq (sorted : SortedFrom remap raw changed found renamed) :
    changed.methods.size = raw.methods.size := by
  rw [← Array.length_toList, ← Array.length_toList, sorted.raw_methods, sorted.changed_methods,
    (Method.perm_sort _).length_eq, (Method.perm_sort _).length_eq, sorted.changes.length_eq]

theorem token_mem_linkTokens {method : Method} (member : method ∈ raw.methods.toList) :
    method.token ∈ raw.linkTokens :=
  List.mem_flatMap.mpr ⟨method, member, List.mem_cons_self⟩

theorem forwardToken_mem_linkTokens {method : Method} (member : method ∈ raw.methods.toList)
    {token : UInt32} (htoken : method.forwardToken = some token) : token ∈ raw.linkTokens :=
  List.mem_flatMap.mpr ⟨method, member, by simp [htoken]⟩

/-- The last method with a token is, with changed tokens, the last one with the new token. -/
theorem method?_rel (sorted : SortedFrom remap raw changed found renamed)
    (injective : remap.InjectiveOn raw.linkTokens) {token newToken : UInt32}
    (member : token ∈ raw.linkTokens) (hremap : remap.remap token = .ok newToken) :
    Option.Rel remap.Changes (raw.method? token) (changed.method? newToken) := by
  have hfiltered := forall₂_filter_token hremap sorted.changes fun method hmethod hsame => by
    refine injective _ (token_mem_linkTokens ?_) _ member newToken hsame hremap
    rw [sorted.raw_methods]
    exact (Method.perm_sort found).mem_iff.mpr hmethod
  -- among methods of one token, the order is that of their places alone
  have hsorted := Method.sorts_inOrder.forall₂_mergeSort Method.sorts_inOrder (fun
    {first second first' second'} hfirst hsecond => by
      obtain ⟨htoken, htoken', hchanges⟩ := hfirst
      obtain ⟨hother, hother', hchanges'⟩ := hsecond
      simp [Method.inOrder, htoken, htoken', hother, hother', hchanges.site_eq,
        hchanges'.site_eq]) hfiltered
  rw [method?_eq_getLast? sorted.raw_indexed, method?_eq_getLast? sorted.changed_indexed,
    sorted.raw_methods, sorted.changed_methods, Method.sort, Method.sort,
    Method.sorts_inOrder.filter_mergeSort, Method.sorts_inOrder.filter_mergeSort]
  exact rel_getLast? (hsorted.imp fun _ _ related => related.2.2)

/-- Chains of imports lead to the same methods. -/
theorem followForwards_rel (sorted : SortedFrom remap raw changed found renamed)
    (injective : remap.InjectiveOn raw.linkTokens) (steps : Nat) {method method' : Method}
    (member : method ∈ raw.methods.toList) (changes : remap.Changes method method') :
    Option.Rel remap.ChangesUsing (raw.followForwards method steps)
      (changed.followForwards method' steps) := by
  induction steps generalizing method method' with
  | zero => exact .none
  | succ steps ih =>
    have hforward := changes.forwardToken
    rw [followForwards, followForwards]
    cases htoken : method.forwardToken with
    | none =>
      rw [htoken, rel_none_iff] at hforward
      have hcounts : method'.usingCounts = method.usingCounts := by rw [changes.others]
      have hscope : method'.scope = method.scope := by rw [changes.others]
      rw [hforward]
      exact .some ⟨changes.token, hcounts, hscope, by simp only [UsingInfo.namespaces, hscope]⟩
    | some token =>
      rw [htoken, rel_some_iff] at hforward
      obtain ⟨newToken, hnew, hremap⟩ := hforward
      have hlink := forwardToken_mem_linkTokens member htoken
      rw [hnew]
      refine rel_bind (sorted.method?_rel injective hlink hremap) ?_
      intro next next' hnext hchanges
      exact ih (mem_of_method? sorted.raw_indexed hnext).1 hchanges

/-- The imports that are found under a token are, with changed tokens, those found under the new
token. -/
theorem usingInfo?_rel (sorted : SortedFrom remap raw changed found renamed)
    (injective : remap.InjectiveOn raw.linkTokens) {token newToken : UInt32}
    (member : token ∈ raw.linkTokens) (hremap : remap.remap token = .ok newToken) :
    Option.Rel remap.ChangesUsing (raw.usingInfo? token) (changed.usingInfo? newToken) := by
  rw [usingInfo?, usingInfo?, sorted.length_eq]
  refine rel_bind (sorted.method?_rel injective member hremap) ?_
  intro method method' hmethod hchanges
  exact sorted.followForwards_rel injective _ (mem_of_method? sorted.raw_indexed hmethod).1 hchanges

end SortedFrom

end DebugInfo

end ManagedPdb
