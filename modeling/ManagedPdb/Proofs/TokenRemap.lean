import ManagedPdb.Proofs.Reader
import ManagedPdb.TokenRemap
import Mathlib.Data.List.Forall2

/-!
# Changed tokens

Tokens of a method are changed one by one, and nothing else is (`TokenRemap.changes_of_apply`).  A
change fails only at a token whose row is beyond the table (`TokenRemap.exists_of_apply_eq_error`).
-/

namespace ManagedPdb

/-! ### Related options -/

section

variable {α β γ δ : Type} {Related : α → β → Prop} {Related' : γ → δ → Prop}

theorem rel_none_iff {option : Option β} : Option.Rel Related none option ↔ option = none := by
  constructor
  · intro h
    cases h
    rfl
  · rintro rfl
    exact .none

theorem rel_some_iff {value : α} {option : Option β} :
    Option.Rel Related (some value) option ↔
      ∃ value', option = some value' ∧ Related value value' := by
  constructor
  · intro h
    cases h with
    | some related => exact ⟨_, rfl, related⟩
  · rintro ⟨value', rfl, related⟩
    exact .some related

theorem rel_bind {option : Option α} {option' : Option β} {next : α → Option γ}
    {next' : β → Option δ} (related : Option.Rel Related option option')
    (hnext : ∀ value value', option = some value → Related value value' →
      Option.Rel Related' (next value) (next' value')) :
    Option.Rel Related' (option.bind next) (option'.bind next') := by
  cases related with
  | none => exact .none
  | some related => exact hnext _ _ rfl related

theorem eq_of_rel {Related : α → α → Prop} (eq : ∀ {old new}, Related old new → new = old)
    {old new : Option α} (related : Option.Rel Related old new) : new = old := by
  cases related with
  | none => rfl
  | some related => rw [eq related]

end

/-! ### Tokens of a method -/

/-- The tokens of methods that belong to the state machine. -/
def AsyncInfo.tokens (info : AsyncInfo) : List UInt32 :=
  info.kickoffMethod :: info.syncPoints.map SyncPoint.continuationMethod

/-- All tokens of methods that stand in a method. -/
def Method.tokens (method : Method) : List UInt32 :=
  method.token :: (method.forwardToken.toList ++ method.forwardModuleToken.toList
    ++ (method.asyncInfo.map AsyncInfo.tokens).getD [])

namespace TokenRemap

variable {remap : TokenRemap} {error : DecodeError}

/-- The row of the token is beyond the table, and the error says so. -/
def Refuses (remap : TokenRemap) (token : UInt32) (error : DecodeError) : Prop :=
  (∃ table, remap.table = some table ∧ table.size ≤ row token) ∧
    error = .ofKind (.tokenRemapOutOfRange token)

theorem refuses_of_remap {token : UInt32} (h : remap.remap token = .error error) :
    remap.Refuses token error := by
  rw [TokenRemap.remap.eq_def] at h
  cases htable : remap.table with
  | none =>
    rw [htable] at h
    cases h
  | some table =>
    rw [htable] at h
    dsimp only at h
    cases hrow : table[row token]? with
    | some newRow =>
      rw [hrow] at h
      cases h
    | none =>
      rw [hrow] at h
      cases h
      exact ⟨⟨table, htable, Array.getElem?_eq_none_iff.mp hrow⟩, rfl⟩

theorem refuses_of_remapOption {token : Option UInt32}
    (h : remap.remapOption token = .error error) :
    ∃ token' ∈ token, remap.Refuses token' error := by
  cases token with
  | none => cases h
  | some token =>
    rw [remapOption, map_eq_pure_bind] at h
    rcases bind_eq_error_iff.mp h with hremap | ⟨_, -, hpure⟩
    · exact ⟨token, rfl, refuses_of_remap hremap⟩
    · cases hpure

theorem refuses_of_remapAsync {info : AsyncInfo} (h : remap.remapAsync info = .error error) :
    ∃ token ∈ info.tokens, remap.Refuses token error := by
  rcases bind_eq_error_iff.mp h with hkickoff | ⟨_, -, hpoints⟩
  · exact ⟨info.kickoffMethod, by simp [AsyncInfo.tokens], refuses_of_remap hkickoff⟩
  · rcases bind_eq_error_iff.mp hpoints with hpoints | ⟨_, -, hpure⟩
    · obtain ⟨point, member, hpoint⟩ := exists_of_mapM_eq_error hpoints
      rcases bind_eq_error_iff.mp hpoint with hpoint | ⟨_, -, hpure⟩
      · refine ⟨point.continuationMethod, ?_, refuses_of_remap hpoint⟩
        exact List.mem_cons_of_mem _ (List.mem_map_of_mem member)
      · cases hpure
    · cases hpure

/-- A change of all tokens of a method that fails does so at one of them. -/
theorem exists_of_apply_eq_error {method : Method} (h : remap.apply method = .error error) :
    ∃ token ∈ method.tokens, remap.Refuses token error := by
  rcases bind_eq_error_iff.mp h with htoken | ⟨_, -, h⟩
  · exact ⟨method.token, by simp [Method.tokens], refuses_of_remap htoken⟩
  rcases bind_eq_error_iff.mp h with hforward | ⟨_, -, h⟩
  · obtain ⟨token, member, refuses⟩ := refuses_of_remapOption hforward
    exact ⟨token, by simp [Method.tokens, Option.mem_def.mp member], refuses⟩
  rcases bind_eq_error_iff.mp h with hmodule | ⟨_, -, h⟩
  · obtain ⟨token, member, refuses⟩ := refuses_of_remapOption hmodule
    exact ⟨token, by simp [Method.tokens, Option.mem_def.mp member], refuses⟩
  cases hinfo : method.asyncInfo with
  | none =>
    rw [hinfo] at h
    cases h
  | some info =>
    rw [hinfo] at h
    rcases bind_eq_error_iff.mp h with hasync | ⟨_, -, hpure⟩
    · rw [map_eq_pure_bind] at hasync
      rcases bind_eq_error_iff.mp hasync with hasync | ⟨_, -, hpure⟩
      · obtain ⟨token, member, refuses⟩ := refuses_of_remapAsync hasync
        exact ⟨token, by simp [Method.tokens, hinfo, member], refuses⟩
      · cases hpure
    · cases hpure

/-! ### Tokens in range -/

/-- The waiting point changes its token, and nothing else. -/
structure ChangesPoint (remap : TokenRemap) (point changed : SyncPoint) : Prop where
  token : remap.remap point.continuationMethod = .ok changed.continuationMethod
  others : changed = { point with continuationMethod := changed.continuationMethod }

/-- The state machine changes its tokens, and nothing else. -/
structure ChangesAsync (remap : TokenRemap) (info changed : AsyncInfo) : Prop where
  kickoffMethod : remap.remap info.kickoffMethod = .ok changed.kickoffMethod
  syncPoints : List.Forall₂ remap.ChangesPoint info.syncPoints changed.syncPoints
  others : changed =
    { info with kickoffMethod := changed.kickoffMethod, syncPoints := changed.syncPoints }

/-- The method changes its tokens, and nothing else. -/
structure Changes (remap : TokenRemap) (method changed : Method) : Prop where
  token : remap.remap method.token = .ok changed.token
  forwardToken : Option.Rel (remap.remap · = .ok ·) method.forwardToken changed.forwardToken
  forwardModuleToken :
    Option.Rel (remap.remap · = .ok ·) method.forwardModuleToken changed.forwardModuleToken
  asyncInfo : Option.Rel remap.ChangesAsync method.asyncInfo changed.asyncInfo
  others : changed = { method with
    token := changed.token
    forwardToken := changed.forwardToken
    forwardModuleToken := changed.forwardModuleToken
    asyncInfo := changed.asyncInfo }

theorem rel_of_remapOption {token changed : Option UInt32}
    (h : remap.remapOption token = .ok changed) :
    Option.Rel (remap.remap · = .ok ·) token changed := by
  cases token with
  | none =>
    cases h
    exact .none
  | some token =>
    rw [remapOption, map_eq_pure_bind] at h
    obtain ⟨newToken, hremap, h⟩ := bind_eq_ok_iff.mp h
    cases h
    exact .some hremap

theorem changesAsync_of_remapAsync {info changed : AsyncInfo}
    (h : remap.remapAsync info = .ok changed) : remap.ChangesAsync info changed := by
  obtain ⟨kickoffMethod, hkickoff, h⟩ := bind_eq_ok_iff.mp h
  obtain ⟨syncPoints, hpoints, h⟩ := bind_eq_ok_iff.mp h
  cases h
  refine ⟨hkickoff, ?_, rfl⟩
  refine (forall₂_of_mapM_eq_ok hpoints).imp fun point changed hpoint => ?_
  obtain ⟨token, htoken, hpoint⟩ := bind_eq_ok_iff.mp hpoint
  cases hpoint
  exact ⟨htoken, rfl⟩

theorem changes_of_apply {method changed : Method} (h : remap.apply method = .ok changed) :
    remap.Changes method changed := by
  obtain ⟨token, htoken, h⟩ := bind_eq_ok_iff.mp h
  obtain ⟨forwardToken, hforward, h⟩ := bind_eq_ok_iff.mp h
  obtain ⟨forwardModuleToken, hmodule, h⟩ := bind_eq_ok_iff.mp h
  obtain ⟨asyncInfo, hasync, h⟩ : ∃ asyncInfo, Option.Rel remap.ChangesAsync method.asyncInfo
      asyncInfo ∧ changed = { method with token, forwardToken, forwardModuleToken, asyncInfo } := by
    cases hinfo : method.asyncInfo with
    | none =>
      rw [hinfo] at h
      cases h
      exact ⟨none, .none, rfl⟩
    | some info =>
      rw [hinfo] at h
      obtain ⟨asyncInfo, hasync, h⟩ := bind_eq_ok_iff.mp h
      cases h
      rw [map_eq_pure_bind] at hasync
      obtain ⟨changed, hremap, hasync⟩ := bind_eq_ok_iff.mp hasync
      cases hasync
      exact ⟨_, .some (changesAsync_of_remapAsync hremap), rfl⟩
  subst h
  exact ⟨htoken, rel_of_remapOption hforward, rel_of_remapOption hmodule, hasync, rfl⟩

theorem forall₂_toList {token changed : Option UInt32}
    (h : Option.Rel (remap.remap · = .ok ·) token changed) :
    List.Forall₂ (remap.remap · = .ok ·) token.toList changed.toList := by
  cases h with
  | none => exact .nil
  | some hremap => exact .cons hremap .nil

theorem ChangesAsync.forall₂_tokens {info changed : AsyncInfo}
    (changes : remap.ChangesAsync info changed) :
    List.Forall₂ (remap.remap · = .ok ·) info.tokens changed.tokens := by
  refine .cons changes.kickoffMethod ?_
  rw [List.forall₂_map_left_iff, List.forall₂_map_right_iff]
  exact changes.syncPoints.imp fun _ _ hpoint => hpoint.token

/-- The tokens of a method are changed one by one. -/
theorem Changes.forall₂_tokens {method changed : Method} (changes : remap.Changes method changed) :
    List.Forall₂ (remap.remap · = .ok ·) method.tokens changed.tokens := by
  refine .cons changes.token (List.rel_append (List.rel_append ?_ ?_) ?_)
  · exact forall₂_toList changes.forwardToken
  · exact forall₂_toList changes.forwardModuleToken
  · have hasync := changes.asyncInfo
    generalize method.asyncInfo = info at hasync ⊢
    generalize changed.asyncInfo = info' at hasync ⊢
    cases hasync with
    | none => exact .nil
    | some hasync => exact hasync.forall₂_tokens

/-- All tokens of a method that can be changed are in range. -/
theorem Changes.exists_remap_eq_ok {method changed : Method}
    (changes : remap.Changes method changed) {token : UInt32} (member : token ∈ method.tokens) :
    ∃ newToken, remap.remap token = .ok newToken := by
  obtain ⟨newToken, -, hremap⟩ := exists_of_mem_of_forall₂ changes.forall₂_tokens member
  exact ⟨newToken, hremap⟩

theorem Refuses.remap_eq {token : UInt32} (refuses : remap.Refuses token error) :
    remap.remap token = .error error := by
  obtain ⟨⟨table, htable, hsize⟩, rfl⟩ := refuses
  rw [TokenRemap.remap.eq_def, htable]
  simp [Array.getElem?_eq_none hsize]

/-- Methods can be changed unless one of their tokens is refused. -/
theorem refuses_iff_of_mapM {methods : List Method} :
    (∃ error, methods.mapM remap.apply = .error error) ↔
      ∃ method ∈ methods, ∃ token ∈ method.tokens, ∃ error, remap.Refuses token error := by
  constructor
  · rintro ⟨error, h⟩
    obtain ⟨method, member, h⟩ := exists_of_mapM_eq_error h
    obtain ⟨token, htoken, refuses⟩ := exists_of_apply_eq_error h
    exact ⟨method, member, token, htoken, error, refuses⟩
  · rintro ⟨method, member, token, htoken, error, refuses⟩
    cases h : methods.mapM remap.apply with
    | error error => exact ⟨error, rfl⟩
    | ok changed =>
      obtain ⟨changed, -, happly⟩ := exists_of_mem_of_forall₂ (forall₂_of_mapM_eq_ok h) member
      obtain ⟨newToken, hremap⟩ := (changes_of_apply happly).exists_remap_eq_ok htoken
      rw [refuses.remap_eq] at hremap
      cases hremap

/-! ### No table -/

theorem eq_of_remap_identity {token newToken : UInt32}
    (h : identity.remap token = .ok newToken) : newToken = token := by
  cases h
  rfl

theorem ChangesAsync.eq {info changed : AsyncInfo} (changes : identity.ChangesAsync info changed) :
    changed = info := by
  have hpoints : List.Forall₂ Eq info.syncPoints changed.syncPoints := by
    refine changes.syncPoints.imp fun point changed hpoint => ?_
    rw [hpoint.others, eq_of_remap_identity hpoint.token]
  rw [List.forall₂_eq_eq_eq] at hpoints
  rw [changes.others, eq_of_remap_identity changes.kickoffMethod, ← hpoints]

theorem Changes.eq {method changed : Method} (changes : identity.Changes method changed) :
    changed = method := by
  rw [changes.others, eq_of_remap_identity changes.token,
    eq_of_rel eq_of_remap_identity changes.forwardToken,
    eq_of_rel eq_of_remap_identity changes.forwardModuleToken,
    eq_of_rel ChangesAsync.eq changes.asyncInfo]

/-- Without a table all methods stay as they are. -/
theorem mapM_identity (methods : List Method) : methods.mapM identity.apply = .ok methods := by
  cases h : methods.mapM identity.apply with
  | error error =>
    obtain ⟨_, -, _, -, _, ⟨⟨table, htable, -⟩, -⟩⟩ := refuses_iff_of_mapM.mp ⟨error, h⟩
    cases htable
  | ok changed =>
    have hsame : List.Forall₂ Eq methods changed :=
      (forall₂_of_mapM_eq_ok h).imp fun _ _ happly => (changes_of_apply happly).eq.symm
    rw [List.forall₂_eq_eq_eq] at hsame
    rw [hsame]

end TokenRemap

end ManagedPdb
