import ManagedPdb.Proofs.Symbol.Frames
import ManagedPdb.Proofs.Symbol.StackDecoder
import Mathlib.Data.List.Forall2

/-!
# Brackets of records

Method records and block records open scopes, and end records close them.  The decoder does not
count brackets: it closes a scope at the offset that the opening record has announced.  In front of
that offset a method record or an end record is passed over like a record of no interest, so that it
is swallowed (`Part.swallowed`).

`readMethods_brackets` says what the records of an accepted region are to the decoder
(`Bracketed`): each method comes from one method record, each scope is closed by one end record, and
all other method records and end records inside methods are swallowed.  Where none is, the records
are balanced by their kinds alone.  There are regions with swallowed records
(`readMethods_hidden_method`).
-/

namespace ManagedPdb

/-- Whether a record of this kind starts a method. -/
def RecordKind.startsMethod : RecordKind → Bool
  | globalMethod | localMethod => true
  | _ => false

/-- What stands in the record of a method, apart from the end of its body. -/
def Method.head (method : Method) : UInt32 × Site × UInt32 × UInt8 × Option String :=
  (method.token, method.site, method.length, method.flags, method.name)

/-- A record of a region. -/
structure RegionRecord where
  start : Nat
  header : RecordHeader
  deriving DecidableEq, Repr

variable {limit : Nat} {content : ByteArray} {position next : Nat} {keepNames : Bool}

/-- The records of a region from a position on, each where the length of the one before says. -/
def recordsFrom (limit : Nat) (content : ByteArray) (position : Nat) : List RegionRecord :=
  if position < limit then
    match _hheader : RecordHeader.read limit content position with
    | .failed .. => []
    | .done header _ =>
      if header.stop ≤ content.size then
        ⟨position, header⟩ :: recordsFrom limit content header.stop
      else []
  else []
termination_by content.size - position
decreasing_by
  have hstop := Descent.header_eq_done _hheader
  omega

theorem recordsFrom_of_header {header : RecordHeader} {inside : Nat}
    (hheader : RecordHeader.read limit content position = .done header inside)
    (hsize : header.stop ≤ content.size) :
    recordsFrom limit content position
      = ⟨position, header⟩ :: recordsFrom limit content header.stop := by
  obtain ⟨-, -, hstop, hlimit⟩ := Descent.header_eq_done hheader
  rw [recordsFrom, if_pos (by omega)]
  split
  case h_1 hfailed =>
    rw [hheader] at hfailed
    cases hfailed
  case h_2 hdone =>
    rw [hheader] at hdone
    cases hdone
    rw [if_pos hsize]

theorem recordsFrom_of_le (h : limit ≤ position) : recordsFrom limit content position = [] := by
  rw [recordsFrom, if_neg (by omega)]

/-! ### Parts of records -/

/-- What a record is to the decoder. -/
inductive Part where
  /-- It stands outside of methods and starts none. -/
  | apart
  /-- It starts a method. -/
  | method
  /-- It starts a block. -/
  | block
  /-- It stands at the announced end of the innermost scope. -/
  | ending
  /-- It is a method record or an end record in front of the announced end. -/
  | swallowed
  /-- It is any other record inside a method. -/
  | entry
  deriving DecidableEq, Repr

namespace RegionRecord

/-- The end that a method record or a block record announces. -/
def announced (content : ByteArray) (record : RegionRecord) : Nat :=
  (UInt32.ofNat (LittleEndian.read content (record.start + 8) 4)).toNat

/-- What the record is, where scopes with the given announced ends are open, the innermost first. -/
def part (ends : List Nat) (record : RegionRecord) : Part :=
  match ends with
  | [] => if record.header.kind.startsMethod then .method else .apart
  | stop :: _ =>
    if record.start < stop then
      match record.header.kind with
      | .block => .block
      | .scopeEnd | .globalMethod | .localMethod => .swallowed
      | _ => .entry
    else .ending

/-- The announced ends of the scopes that are open behind the record. -/
def endsBehind (content : ByteArray) (ends : List Nat) (record : RegionRecord) : List Nat :=
  match record.part ends with
  | .method | .block => record.announced content :: ends
  | .ending => ends.tail
  | .apart | .swallowed | .entry => ends

/-- The method was started by the record: what is in the record is in the method. -/
def Starts (keepNames : Bool) (content : ByteArray) (record : RegionRecord) (method : Method) :
    Prop :=
  ∃ start stop next,
    Method.readStart record.header.stop keepNames content (record.start + 4)
      = .done (start, stop) next ∧ method.head = start.head

end RegionRecord

/-- All records with what they are. -/
def partsFrom (content : ByteArray) (ends : List Nat) :
    (records : List RegionRecord) → List (RegionRecord × Part)
  | [] => []
  | record :: rest =>
    (record, record.part ends) :: partsFrom content (record.endsBehind content ends) rest

/-- The records that are of one part. -/
def recordsOf (part : Part) (parts : List (RegionRecord × Part)) : List RegionRecord :=
  (parts.filter (·.2 = part)).map Prod.fst

/-- How many records are of one part. -/
def countOf (part : Part) (parts : List (RegionRecord × Part)) : Nat := parts.countP (·.2 = part)

theorem partsFrom_append (ends : List Nat) (left right : List RegionRecord) :
    partsFrom content ends (left ++ right)
      = partsFrom content ends left
        ++ partsFrom content (left.foldl (RegionRecord.endsBehind content) ends) right := by
  induction left generalizing ends with
  | nil => rfl
  | cons record rest ih => rw [List.cons_append, partsFrom, partsFrom, ih]; rfl

@[simp] theorem countOf_nil (part : Part) : countOf part [] = 0 := rfl

theorem countOf_cons (part : Part) (record : RegionRecord) (other : Part)
    (rest : List (RegionRecord × Part)) :
    countOf part ((record, other) :: rest)
      = (if other = part then 1 else 0) + countOf part rest := by
  simp [countOf, List.countP_cons, Nat.add_comm]

@[simp] theorem countOf_append (part : Part) (left right : List (RegionRecord × Part)) :
    countOf part (left ++ right) = countOf part left + countOf part right := List.countP_append

@[simp] theorem recordsOf_append (part : Part) (left right : List (RegionRecord × Part)) :
    recordsOf part (left ++ right) = recordsOf part left ++ recordsOf part right := by
  simp [recordsOf]

theorem length_recordsOf (part : Part) (parts : List (RegionRecord × Part)) :
    (recordsOf part parts).length = countOf part parts := by
  simp [recordsOf, countOf, List.countP_eq_length_filter]

/-! ### Steps -/

namespace OpenMethod

variable {body : OpenMethod}

/-- The announced ends of the open scopes, the innermost first. -/
def ends (body : OpenMethod) : List Nat := body.innermost.stop :: body.enclosing.map OpenScope.stop

/-- The number of scopes so far, open and closed. -/
def scopeCount (body : OpenMethod) : Nat :=
  (body.innermost :: body.enclosing).foldr
    (fun scope count => 1 + Scope.countOfAll scope.scopes.toList + count) 0

theorem head_metadata (metadata : Metadata) (method : Method) :
    (metadata.apply method).head = method.head := by
  have hitem : ∀ (method : Method) (item : MetadataItem),
      (item.apply method).head = method.head := by
    intro method item
    cases item <;> rfl
  cases metadata with
  | items list =>
    show (list.foldl MetadataItem.apply method).head = method.head
    induction list generalizing method with
    | nil => rfl
    | cons item rest ih => rw [List.foldl_cons, ih, hitem]
  | asynchronous info => rfl
  | unknown name => rfl

/-- The announced ends of the scopes that a step leaves open. -/
def endsOf : OpenMethod ⊕ Method → List Nat := Sum.elim ends fun _ => []

/-- The number of scopes behind a step. -/
def scopeCountOf : OpenMethod ⊕ Method → Nat := Sum.elim scopeCount (·.scope.count)

/-- What stands in the record of the method behind a step. -/
def headOf : OpenMethod ⊕ Method → UInt32 × Site × UInt32 × UInt8 × Option String :=
  Sum.elim (·.method.head) Method.head

theorem closeInnermost_eq (body : OpenMethod) :
    endsOf body.closeInnermost = body.ends.tail ∧
      scopeCountOf body.closeInnermost = body.scopeCount ∧
      headOf body.closeInnermost = body.method.head := by
  unfold closeInnermost
  split
  case h_1 henclosing =>
    refine ⟨?_, ?_, rfl⟩
    · simp [endsOf, ends, henclosing]
    · simp [scopeCountOf, scopeCount, henclosing, Scope.count_eq, OpenScope.close]
  case h_2 outer enclosing henclosing =>
    refine ⟨?_, ?_, rfl⟩
    · simp [endsOf, ends, henclosing]
    · simp [scopeCountOf, scopeCount, henclosing, Scope.countOfAll_append, Scope.countOfAll,
        Scope.count_eq, OpenScope.close]
      omega

theorem readBlock_eq_done {inside : Nat} {scope : OpenScope}
    (h : body.readBlock position content (position + 4) = .done scope inside)
    (header : RecordHeader) :
    scope.stop = RegionRecord.announced content ⟨position, header⟩ ∧ scope.scopes = #[] := by
  unfold readBlock at h
  by_cases hdepth : maxOpenScopes ≤ body.depth
  · rw [if_pos hdepth] at h
    cases h
  rw [if_neg hdepth] at h
  obtain ⟨_parent, _, hparent, h⟩ := Reader.bind_eq_done_iff.mp h
  obtain ⟨stop, _, hstop, h⟩ := Reader.bind_eq_done_iff.mp h
  obtain ⟨length, _, -, h⟩ := Reader.bind_eq_done_iff.mp h
  obtain ⟨address, _, -, h⟩ := Reader.bind_eq_done_iff.mp h
  obtain ⟨_segment, _, -, h⟩ := Reader.bind_eq_done_iff.mp h
  obtain ⟨-, -, rfl⟩ := Reader.uint32_eq_done hparent
  obtain ⟨-, rfl, -⟩ := Reader.uint32_eq_done hstop
  by_cases haddress : address < body.method.address
  · rw [if_pos haddress] at h
    cases h
  · rw [if_neg haddress] at h
    cases h
    exact ⟨rfl, rfl⟩

/-- Only a block record gives a block. -/
theorem readEntry_eq_done {header : RecordHeader} {inside : Nat} {entry : Entry}
    (h : body.readEntry position header content (position + 4) = .done entry inside) :
    (header.kind = .block ∧ ∃ scope, entry = .block scope ∧
        scope.stop = RegionRecord.announced content ⟨position, header⟩ ∧ scope.scopes = #[]) ∨
      header.kind ≠ .block ∧ ∀ scope, entry ≠ .block scope := by
  unfold readEntry at h
  cases hkind : header.kind
  case block =>
    rw [hkind] at h
    obtain ⟨scope, _, hscope, h⟩ := Reader.bind_eq_done_iff.mp h
    cases h
    exact .inl ⟨rfl, scope, rfl, readBlock_eq_done hscope header⟩
  case slot | constant | importing =>
    rw [hkind] at h
    obtain ⟨_, _, -, h⟩ := Reader.bind_eq_done_iff.mp h
    cases h
    exact .inr ⟨nofun, nofun⟩
  case vendor =>
    rw [hkind] at h
    by_cases hdepth : body.depth = 1
    · simp only [if_pos hdepth] at h
      obtain ⟨_, _, -, h⟩ := Reader.bind_eq_done_iff.mp h
      cases h
      exact .inr ⟨nofun, nofun⟩
    · simp only [if_neg hdepth] at h
      cases h
      exact .inr ⟨nofun, nofun⟩
  all_goals
    rw [hkind] at h
    cases h
    exact .inr ⟨nofun, nofun⟩

/-- An entry leaves the open scopes as they are, unless it is a block. -/
theorem add_eq (body : OpenMethod) {entry : Entry} (not_block : ∀ scope, entry ≠ .block scope) :
    (body.add entry).ends = body.ends ∧ (body.add entry).scopeCount = body.scopeCount ∧
      (body.add entry).method.head = body.method.head := by
  cases entry with
  | block scope => exact absurd rfl (not_block scope)
  | slot | constant | importing | skipped => exact ⟨rfl, rfl, rfl⟩
  | metadata metadata => exact ⟨rfl, rfl, head_metadata ..⟩

/-- What a step has to do with a record, where it leads to `found`: the open scopes change as the
part of the record says, and at an announced end stands an end record. -/
structure Follows (content : ByteArray) (body : OpenMethod) (record : RegionRecord)
    (found : OpenMethod ⊕ Method) : Prop where
  ending : record.part body.ends = .ending → record.header.kind = .scopeEnd
  ends : endsOf found = record.endsBehind content body.ends
  scopeCount : scopeCountOf found
    = body.scopeCount + (if record.part body.ends = .block then 1 else 0)
  head : headOf found = body.method.head

theorem follows_entry {header : RecordHeader} {entry : Entry} {inside : Nat}
    (before : position < body.innermost.stop)
    (h : body.readEntry position header content (position + 4) = .done entry inside) :
    body.Follows content ⟨position, header⟩ (.inl (body.add entry)) := by
  have hpart : RegionRecord.part body.ends ⟨position, header⟩ =
      match header.kind with
      | .block => .block
      | .scopeEnd | .globalMethod | .localMethod => .swallowed
      | _ => .entry := if_pos before
  rcases readEntry_eq_done h with ⟨hkind, scope, rfl, hstop, hscopes⟩ | ⟨hkind, not_block⟩
  · rw [hkind] at hpart
    refine ⟨by simp [hpart], ?_, ?_, rfl⟩
    · simp only [RegionRecord.endsBehind, hpart, ← hstop]
      rfl
    · simp only [hpart, if_true]
      simp [scopeCountOf, scopeCount, add, hscopes, Scope.countOfAll]
      omega
  · obtain ⟨hends, hcount, hhead⟩ := add_eq body not_block
    have hinside : RegionRecord.part body.ends ⟨position, header⟩ = .swallowed ∨
        RegionRecord.part body.ends ⟨position, header⟩ = .entry := by
      rw [hpart]
      cases hcases : header.kind <;> simp_all
    refine ⟨?_, ?_, ?_, hhead⟩
    · rcases hinside with hpart | hpart <;> simp [hpart]
    · rcases hinside with hpart | hpart <;> simp only [RegionRecord.endsBehind, hpart]
      all_goals exact hends
    · rcases hinside with hpart | hpart <;> simp only [hpart, reduceCtorEq, if_false]
      all_goals exact hcount

theorem follows_end {header : RecordHeader} (at_end : position = body.innermost.stop)
    (hkind : header.kind = .scopeEnd) :
    body.Follows content ⟨position, header⟩ body.closeInnermost := by
  have hpart : RegionRecord.part body.ends ⟨position, header⟩ = .ending := if_neg (by simp [at_end])
  obtain ⟨hends, hcount, hhead⟩ := closeInnermost_eq body
  refine ⟨fun _ => hkind, ?_, ?_, hhead⟩
  · simpa only [RegionRecord.endsBehind, hpart] using hends
  · simpa [hpart] using hcount

/-- A step reads one record and goes to its end. -/
theorem step_eq_done {found : OpenMethod ⊕ Method}
    (h : step limit body content position = .done found next) :
    ∃ header inside, RecordHeader.read limit content position = .done header inside ∧
      next = header.stop ∧ header.stop ≤ content.size ∧
      body.Follows content ⟨position, header⟩ found := by
  unfold step at h
  rw [Reader.bind_apply, Reader.position_apply] at h
  simp only [] at h
  by_cases hbefore : position < body.innermost.stop
  · rw [if_pos hbefore] at h
    obtain ⟨header, inside, hheader, h⟩ := Reader.bind_eq_done_iff.mp h
    obtain ⟨rfl, -⟩ := Descent.header_eq_done hheader
    obtain ⟨entry, _, hentry, h⟩ := Reader.bind_eq_done_iff.mp h
    obtain ⟨_, stop, hseek, h⟩ := Reader.bind_eq_done_iff.mp h
    obtain ⟨hle, rfl⟩ := Reader.seek_eq_done_iff.mp hseek
    cases h
    exact ⟨header, _, hheader, rfl, hle, follows_entry hbefore hentry⟩
  rw [if_neg hbefore] at h
  by_cases hend : position = body.innermost.stop
  · rw [if_pos hend] at h
    obtain ⟨header, inside, hheader, h⟩ := Reader.bind_eq_done_iff.mp h
    by_cases hkind : header.kind = .scopeEnd
    · rw [if_neg (by simpa using hkind)] at h
      obtain ⟨_, stop, hseek, h⟩ := Reader.bind_eq_done_iff.mp h
      obtain ⟨hle, rfl⟩ := Reader.seek_eq_done_iff.mp hseek
      cases h
      exact ⟨header, inside, hheader, rfl, hle, follows_end hend hkind⟩
    · rw [if_pos hkind] at h
      cases h
  · rw [if_neg hend] at h
    cases h

end OpenMethod

/-! ### Runs -/

/-- What is so of the records inside a method, whose open scopes have the announced ends `ends` in
front of them. -/
structure InsideMethod (content : ByteArray) (ends : List Nat) (records : List RegionRecord) :
    Prop where
  inside : ∀ each ∈ partsFrom content ends records, each.2 ≠ .apart ∧ each.2 ≠ .method
  ending : ∀ each ∈ partsFrom content ends records, each.2 = .ending →
    each.1.header.kind = .scopeEnd
  closed : records.foldl (RegionRecord.endsBehind content) ends = []

theorem RegionRecord.part_cons (record : RegionRecord) (stop : Nat) (outer : List Nat) :
    record.part (stop :: outer) ≠ .apart ∧ record.part (stop :: outer) ≠ .method := by
  unfold part
  constructor <;> grind

/-- To run the decoder until the method ends is to go over records of the region. -/
theorem OpenMethod.records_of_iterate {body : OpenMethod} {method : Method}
    (h : Reader.iterate (step limit) body content position = .done method next) :
    ∃ records, recordsFrom limit content position = records ++ recordsFrom limit content next ∧
      InsideMethod content body.ends records ∧
      method.scope.count
        = body.scopeCount + countOf .block (partsFrom content body.ends records) ∧
      method.head = body.method.head := by
  -- on the bytes that are left, since every step goes behind its record
  induction hlength : content.size - position using Nat.strongRecOn generalizing position body with
  | ind _ ih =>
    subst hlength
    rw [Reader.iterate] at h
    cases hstep : step limit body content position with
    | failed error stopped =>
      rw [hstep] at h
      cases h
    | done found behind =>
      obtain ⟨header, inside, hheader, rfl, hsize, follows⟩ := step_eq_done hstep
      obtain ⟨-, -, hstop, -⟩ := Descent.header_eq_done hheader
      have hrecords := recordsFrom_of_header hheader hsize
      have hpart : RegionRecord.part body.ends ⟨position, header⟩ ≠ .apart ∧
          RegionRecord.part body.ends ⟨position, header⟩ ≠ .method :=
        RegionRecord.part_cons ..
      rw [hstep] at h
      cases found with
      | inr method =>
        cases h
        refine ⟨[⟨position, header⟩], hrecords, ⟨?_, ?_, follows.ends.symm⟩, ?_, follows.head⟩
        · simpa [partsFrom] using hpart
        · simpa [partsFrom] using follows.ending
        · rw [partsFrom, countOf_cons]
          exact follows.scopeCount
      | inl body' =>
        simp only [] at h
        rw [if_pos ⟨by omega, hsize⟩] at h
        obtain ⟨records, hrest, hinside, hscopes, hhead⟩ := ih _ (by omega) h rfl
        have hends : body'.ends = RegionRecord.endsBehind content body.ends ⟨position, header⟩ :=
          follows.ends
        rw [hends] at hinside hscopes
        refine ⟨⟨position, header⟩ :: records, ?_, ⟨?_, ?_, hinside.closed⟩, ?_, ?_⟩
        · rw [hrecords, hrest, List.cons_append]
        · rw [partsFrom, List.forall_mem_cons]
          exact ⟨hpart, hinside.inside⟩
        · rw [partsFrom, List.forall_mem_cons]
          exact ⟨follows.ending, hinside.ending⟩
        · have hfirst : body'.scopeCount = _ := follows.scopeCount
          rw [partsFrom, countOf_cons, hscopes, hfirst, Nat.add_assoc]
        · rw [hhead]
          exact follows.head

/-! ### Regions -/

/-- What the records of a region are to the decoder, which finds the methods in it: an end record
stands at each announced end, no scope is left open, each method was started by one method record,
and there is one opening record for each scope. -/
structure Bracketed (keepNames : Bool) (content : ByteArray) (records : List RegionRecord)
    (methods : List Method) : Prop where
  ending : ∀ each ∈ partsFrom content [] records, each.2 = .ending →
    each.1.header.kind = .scopeEnd
  closed : records.foldl (RegionRecord.endsBehind content) [] = []
  starts : List.Forall₂ (RegionRecord.Starts keepNames content)
    (recordsOf .method (partsFrom content [] records)) methods
  scopes : Scope.countOfAll (methods.map Method.scope)
    = countOf .method (partsFrom content [] records) + countOf .block (partsFrom content [] records)

namespace Bracketed

theorem nil : Bracketed keepNames content [] [] := ⟨nofun, rfl, .nil, rfl⟩

theorem append {left right : List RegionRecord} {first second : List Method}
    (hleft : Bracketed keepNames content left first)
    (hright : Bracketed keepNames content right second) :
    Bracketed keepNames content (left ++ right) (first ++ second) := by
  have hparts : partsFrom content [] (left ++ right)
      = partsFrom content [] left ++ partsFrom content [] right := by
    rw [partsFrom_append, hleft.closed]
  refine ⟨?_, ?_, ?_, ?_⟩
  · rw [hparts, List.forall_mem_append]
    exact ⟨hleft.ending, hright.ending⟩
  · rw [List.foldl_append, hleft.closed, hright.closed]
  · rw [hparts, recordsOf_append]
    exact List.rel_append hleft.starts hright.starts
  · rw [hparts, List.map_append, Scope.countOfAll_append, hleft.scopes, hright.scopes,
      countOf_append, countOf_append]
    omega

/-- A record outside of methods, which starts none. -/
theorem apart {record : RegionRecord} (h : record.part [] = .apart) :
    Bracketed keepNames content [record] [] := by
  have hparts : partsFrom content [] [record] = [(record, .apart)] := by
    rw [partsFrom, h, partsFrom]
  refine ⟨?_, ?_, ?_, ?_⟩
  · rw [hparts]
    simp
  · simp [RegionRecord.endsBehind, h]
  · rw [hparts]
    exact .nil
  · rw [hparts]
    rfl

/-- A method record and the records inside its method. -/
theorem method {record : RegionRecord} {inner : List RegionRecord} {method : Method}
    (hpart : record.part [] = .method) (hstarts : record.Starts keepNames content method)
    (hinner : InsideMethod content [record.announced content] inner)
    (hscopes : method.scope.count
      = 1 + countOf .block (partsFrom content [record.announced content] inner)) :
    Bracketed keepNames content (record :: inner) [method] := by
  have hbehind : record.endsBehind content [] = [record.announced content] := by
    rw [RegionRecord.endsBehind, hpart]
  have hparts : partsFrom content [] (record :: inner)
      = (record, .method) :: partsFrom content [record.announced content] inner := by
    rw [partsFrom, hpart, hbehind]
  have hnone : recordsOf .method (partsFrom content [record.announced content] inner) = [] := by
    have hother := fun each heach => (hinner.inside each heach).2
    simpa [recordsOf] using hother
  refine ⟨?_, ?_, ?_, ?_⟩
  · rw [hparts, List.forall_mem_cons]
    exact ⟨nofun, hinner.ending⟩
  · rw [List.foldl_cons, hbehind, hinner.closed]
  · have hfirst : recordsOf .method (partsFrom content [] (record :: inner))
        = record :: recordsOf .method (partsFrom content [record.announced content] inner) := by
      rw [hparts]
      rfl
    rw [hfirst, hnone]
    exact .cons hstarts .nil
  · have hmethods : countOf .method (partsFrom content [record.announced content] inner) = 0 := by
      rw [← length_recordsOf, hnone]
      rfl
    rw [hparts, countOf_cons, countOf_cons, hmethods]
    simpa [Scope.countOfAll] using hscopes

end Bracketed

/-- The method record announces where the body of its method ends. -/
theorem Method.announced_of_readStart {stop : Nat} {start : Method} {bodyStop : Nat}
    (h : Method.readStart stop keepNames content (position + 4) = .done (start, bodyStop) next)
    (header : RecordHeader) :
    bodyStop = RegionRecord.announced content ⟨position, header⟩ := by
  unfold Method.readStart at h
  obtain ⟨_, _, hparent, h⟩ := Reader.bind_eq_done_iff.mp h
  obtain ⟨-, -, rfl⟩ := Reader.uint32_eq_done hparent
  obtain ⟨_, _, hstop, h⟩ := Reader.bind_eq_done_iff.mp h
  obtain ⟨-, rfl, -⟩ := Reader.uint32_eq_done hstop
  iterate 11 obtain ⟨_, _, -, h⟩ := Reader.bind_eq_done_iff.mp h
  cases h
  rfl

/-- One turn of the loop over a region reads the header of a record, and then the method that starts
there or nothing more. -/
theorem readMethodOrSkip_eq_done {found found' : Array Method}
    (h : readMethodOrSkip limit keepNames found content position = .done found' next) :
    ∃ header inside, RecordHeader.read limit content position = .done header inside ∧
      (header.kind.startsMethod = true ∧ (∃ method, found' = found.push method ∧
          Method.read header.stop limit keepNames content inside = .done method next) ∨
        header.kind.startsMethod = false ∧ found' = found ∧ next = header.stop ∧
          header.stop ≤ content.size) := by
  unfold readMethodOrSkip at h
  obtain ⟨header, inside, hheader, h⟩ := Reader.bind_eq_done_iff.mp h
  refine ⟨header, inside, hheader, ?_⟩
  cases hkind : header.kind
  case globalMethod | localMethod =>
    rw [hkind] at h
    obtain ⟨method, _, hmethod, h⟩ := Reader.bind_eq_done_iff.mp h
    cases h
    exact .inl ⟨rfl, method, rfl, hmethod⟩
  all_goals
    rw [hkind] at h
    exact .inr ⟨rfl, Reader.seek_return_eq_done h⟩

/-- One turn of the loop over a region goes over some of its records. -/
theorem bracketed_of_readMethodOrSkip {found found' : Array Method}
    (h : readMethodOrSkip limit keepNames found content position = .done found' next) :
    ∃ records methods,
      recordsFrom limit content position = records ++ recordsFrom limit content next ∧
      found'.toList = found.toList ++ methods ∧ Bracketed keepNames content records methods := by
  obtain ⟨header, inside, hheader, ⟨hkind, method, rfl, hmethod⟩ | ⟨hkind, rfl, rfl, hsize⟩⟩ :=
    readMethodOrSkip_eq_done h
  · obtain ⟨rfl, -⟩ := Descent.header_eq_done hheader
    obtain ⟨⟨start, bodyStop⟩, _, hstart, hbody⟩ := Reader.bind_eq_done_iff.mp hmethod
    obtain ⟨rfl, hsize⟩ := Descent.readStart_eq_done hstart
    obtain rfl := Method.announced_of_readStart hstart header
    obtain ⟨inner, hinner, hinside, hscopes, hhead⟩ := OpenMethod.records_of_iterate hbody
    refine ⟨⟨position, header⟩ :: inner, [method], ?_, by simp, ?_⟩
    · rw [recordsFrom_of_header hheader hsize, hinner, List.cons_append]
    · refine .method ?_ ⟨start, _, _, hstart, hhead⟩ hinside hscopes
      simp [RegionRecord.part, hkind]
  · refine ⟨[⟨position, header⟩], [], recordsFrom_of_header hheader hsize, by simp, .apart ?_⟩
    simp [RegionRecord.part, hkind]

theorem bracketed_of_whileBelow {found found' : Array Method}
    (h : Reader.whileBelow limit (readMethodOrSkip limit keepNames) found content position
      = .done found' next) :
    ∃ methods, found'.toList = found.toList ++ methods ∧
      Bracketed keepNames content (recordsFrom limit content position) methods := by
  induction hlength : content.size - position using Nat.strongRecOn generalizing position found with
  | ind _ ih =>
    subst hlength
    rcases Reader.whileBelow_eq_done h with
      ⟨hlimit, rfl, rfl⟩ | ⟨found₁, behind, hturn, hlt, hle, h⟩
    · rw [recordsFrom_of_le hlimit]
      exact ⟨[], by simp, .nil⟩
    · obtain ⟨records, methods, hrecords, hfound, hbracketed⟩ := bracketed_of_readMethodOrSkip hturn
      obtain ⟨rest, hrest, hbehind⟩ := ih _ (by omega) h rfl
      refine ⟨methods ++ rest, ?_, ?_⟩
      · rw [hrest, hfound, List.append_assoc]
      · rw [hrecords]
        exact hbracketed.append hbehind

/-! ### Counting brackets -/

/-- Whether the record stands inside a method and is an end record. -/
def closesByKind (each : RegionRecord × Part) : Bool :=
  each.2 ≠ .apart && each.1.header.kind = .scopeEnd

/-- The depth behind a record when the kinds alone count: zero is outside of methods, where only a
method record opens a scope, and inside no method may start. -/
def depthAfter (depth : Nat) (kind : RecordKind) : Option Nat :=
  match depth with
  | 0 => some (if kind.startsMethod then 1 else 0)
  | depth + 1 =>
    match kind with
    | .block => some (depth + 2)
    | .scopeEnd => some depth
    | .globalMethod | .localMethod => none
    | _ => some (depth + 1)

/-- Method starts, blocks and ends form a balanced sequence of brackets. -/
def Balanced (kinds : List RecordKind) : Prop := kinds.foldlM depthAfter 0 = some 0

namespace RegionRecord

/-- What a record does to the number of open scopes. -/
theorem length_endsBehind (content : ByteArray) (ends : List Nat) (record : RegionRecord) :
    (record.endsBehind content ends).length + (if record.part ends = .ending then 1 else 0)
      = ends.length + (if record.part ends = .method then 1 else 0)
        + (if record.part ends = .block then 1 else 0) := by
  cases ends with
  | nil =>
    cases hkind : record.header.kind.startsMethod <;> simp [endsBehind, part, hkind]
  | cons stop outer =>
    by_cases hbefore : record.start < stop
    · cases hkind : record.header.kind <;> simp [endsBehind, part, hbefore, hkind]
    · simp [endsBehind, part, hbefore]

/-- A method record that is not swallowed starts a method. -/
theorem startsMethod_iff {ends : List Nat} {record : RegionRecord}
    (ending : record.part ends = .ending → record.header.kind = .scopeEnd)
    (kept : record.part ends ≠ .swallowed) :
    record.header.kind.startsMethod ↔ record.part ends = .method := by
  cases ends with
  | nil => cases hkind : record.header.kind.startsMethod <;> simp [part, hkind]
  | cons stop outer =>
    by_cases hbefore : record.start < stop
    · cases hkind : record.header.kind <;>
        simp [part, hbefore, hkind, RecordKind.startsMethod] at kept ⊢
    · have hpart : record.part (stop :: outer) = .ending := if_neg hbefore
      simp [ending hpart, hpart, RecordKind.startsMethod]

/-- An end record inside a method that is not swallowed closes a scope. -/
theorem closesByKind_iff {ends : List Nat} {record : RegionRecord}
    (ending : record.part ends = .ending → record.header.kind = .scopeEnd)
    (kept : record.part ends ≠ .swallowed) :
    closesByKind (record, record.part ends) ↔ record.part ends = .ending := by
  unfold closesByKind
  cases ends with
  | nil => cases hkind : record.header.kind <;> simp [part, hkind, RecordKind.startsMethod]
  | cons stop outer =>
    by_cases hbefore : record.start < stop
    · cases hkind : record.header.kind <;> simp [part, hbefore, hkind] at kept ⊢
    · have hpart : record.part (stop :: outer) = .ending := if_neg hbefore
      simp [ending hpart, hpart]

/-- Where no record is swallowed, the kinds alone count the open scopes. -/
theorem depthAfter_eq (content : ByteArray) {ends : List Nat} {record : RegionRecord}
    (ending : record.part ends = .ending → record.header.kind = .scopeEnd)
    (kept : record.part ends ≠ .swallowed) :
    depthAfter ends.length record.header.kind
      = some (record.endsBehind content ends).length := by
  cases ends with
  | nil =>
    cases hkind : record.header.kind.startsMethod <;> simp [depthAfter, endsBehind, part, hkind]
  | cons stop outer =>
    by_cases hbefore : record.start < stop
    · cases hkind : record.header.kind <;>
        simp [part, hbefore, hkind, depthAfter, endsBehind] at kept ⊢
    · have hpart : record.part (stop :: outer) = .ending := if_neg hbefore
      simp [ending hpart, hpart, depthAfter, endsBehind]

end RegionRecord

/-- As many scopes are closed as are opened, apart from those that stay open. -/
theorem countOf_ending_add (content : ByteArray) (ends : List Nat) (records : List RegionRecord) :
    countOf .ending (partsFrom content ends records)
        + (records.foldl (RegionRecord.endsBehind content) ends).length
      = ends.length + countOf .method (partsFrom content ends records)
        + countOf .block (partsFrom content ends records) := by
  induction records generalizing ends with
  | nil => simp [partsFrom]
  | cons record rest ih =>
    have hfirst := record.length_endsBehind content ends
    have hrest := ih (record.endsBehind content ends)
    rw [partsFrom, List.foldl_cons, countOf_cons, countOf_cons, countOf_cons]
    omega

theorem exists_of_mem_partsFrom {ends : List Nat} {records : List RegionRecord}
    {each : RegionRecord × Part} (h : each ∈ partsFrom content ends records) :
    ∃ open_ends, each = (each.1, each.1.part open_ends) := by
  induction records generalizing ends with
  | nil => cases h
  | cons record rest ih =>
    rw [partsFrom, List.mem_cons] at h
    rcases h with rfl | h
    · exact ⟨ends, rfl⟩
    · exact ih h

theorem map_fst_partsFrom (content : ByteArray) (ends : List Nat) (records : List RegionRecord) :
    (partsFrom content ends records).map Prod.fst = records := by
  induction records generalizing ends with
  | nil => rfl
  | cons record rest ih => rw [partsFrom, List.map_cons, ih]

/-- A property that is a part's, swallowed records apart, is counted by the part and among the
swallowed records. -/
theorem countP_eq_countOf_add {parts : List (RegionRecord × Part)}
    {property : RegionRecord × Part → Bool} {part : Part} (part_ne : part ≠ .swallowed)
    (h : ∀ each ∈ parts, each.2 ≠ .swallowed → (property each ↔ each.2 = part)) :
    parts.countP property
      = countOf part parts + (parts.filter (·.2 = .swallowed)).countP property := by
  have hkept : (parts.filter fun each => !decide (each.2 = .swallowed)).countP property
      = countOf part parts := by
    rw [List.countP_filter, countOf]
    refine List.countP_congr fun each hmem => ?_
    by_cases hswallowed : each.2 = .swallowed
    · simp [hswallowed, part_ne.symm]
    · simp [hswallowed, h each hmem hswallowed]
  rw [List.countP_eq_countP_filter_add parts property (·.2 = .swallowed), hkept, Nat.add_comm]

/-- From the depth of the open scopes on, the kinds of records of which none is swallowed are
balanced down to the depth of the scopes that stay open. -/
theorem foldlM_depthAfter {ends : List Nat} {records : List RegionRecord}
    (ending : ∀ each ∈ partsFrom content ends records, each.2 = .ending →
      each.1.header.kind = .scopeEnd)
    (kept : ∀ each ∈ partsFrom content ends records, each.2 ≠ .swallowed) :
    (records.map (·.header.kind)).foldlM depthAfter ends.length
      = some (records.foldl (RegionRecord.endsBehind content) ends).length := by
  induction records generalizing ends with
  | nil => rfl
  | cons record rest ih =>
    rw [partsFrom, List.forall_mem_cons] at ending kept
    rw [List.map_cons, List.foldlM_cons, RegionRecord.depthAfter_eq content ending.1 kept.1]
    exact ih ending.2 kept.2

namespace Bracketed

variable {records : List RegionRecord} {methods : List Method}

theorem countOf_method (h : Bracketed keepNames content records methods) :
    countOf .method (partsFrom content [] records) = methods.length := by
  rw [← length_recordsOf]
  exact h.starts.length_eq

theorem countOf_ending (h : Bracketed keepNames content records methods) :
    countOf .ending (partsFrom content [] records)
      = Scope.countOfAll (methods.map Method.scope) := by
  have hcount := countOf_ending_add content [] records
  rw [h.closed] at hcount
  rw [h.scopes]
  simpa using hcount

/-- A method record has its method, or it is swallowed. -/
theorem countP_startsMethod (h : Bracketed keepNames content records methods) :
    records.countP (·.header.kind.startsMethod)
      = methods.length + (recordsOf .swallowed (partsFrom content [] records)).countP
          (·.header.kind.startsMethod) := by
  have hparts : (partsFrom content [] records).countP (·.1.header.kind.startsMethod) = _ :=
    countP_eq_countOf_add (by simp : Part.method ≠ .swallowed) fun each hmem hkept => by
      obtain ⟨ends, heach⟩ := exists_of_mem_partsFrom hmem
      rw [heach] at hmem hkept ⊢
      exact RegionRecord.startsMethod_iff (h.ending _ hmem) hkept
  have hrecords : records.countP (·.header.kind.startsMethod)
      = (partsFrom content [] records).countP (·.1.header.kind.startsMethod) := by
    conv_lhs => rw [← map_fst_partsFrom content [] records]
    exact List.countP_map
  rw [hrecords, hparts, h.countOf_method, recordsOf, List.countP_map]
  rfl

/-- An end record inside a method has its scope, or it is swallowed. -/
theorem countP_closesByKind (h : Bracketed keepNames content records methods) :
    (partsFrom content [] records).countP closesByKind
      = Scope.countOfAll (methods.map Method.scope)
        + (recordsOf .swallowed (partsFrom content [] records)).countP
            (·.header.kind = .scopeEnd) := by
  have hparts : (partsFrom content [] records).countP closesByKind = _ :=
    countP_eq_countOf_add (by simp : Part.ending ≠ .swallowed) fun each hmem hkept => by
      obtain ⟨ends, heach⟩ := exists_of_mem_partsFrom hmem
      rw [heach] at hmem hkept ⊢
      exact RegionRecord.closesByKind_iff (h.ending _ hmem) hkept
  rw [hparts, h.countOf_ending, recordsOf, List.countP_map]
  congr 1
  refine List.countP_congr fun each hmem => ?_
  have hswallowed : each.2 = .swallowed := by simpa using (List.mem_filter.mp hmem).2
  simp [closesByKind, hswallowed]

/-- Where nothing is swallowed, the kinds of the records are balanced. -/
theorem balanced (h : Bracketed keepNames content records methods)
    (kept : recordsOf .swallowed (partsFrom content [] records) = []) :
    Balanced (records.map (·.header.kind)) := by
  have hkept : ∀ each ∈ partsFrom content [] records, each.2 ≠ .swallowed := by
    simpa [recordsOf] using kept
  have hbalanced := foldlM_depthAfter h.ending hkept
  rwa [h.closed] at hbalanced

end Bracketed

/-- What becomes of the brackets in an accepted region.  Each method has its method record and each
scope its end record at the announced end.  The method records and the end records that are left
over stand inside methods and are swallowed; if there are none, the kinds of the records are
balanced. -/
theorem readMethods_brackets {methods : List Method}
    (h : readMethods limit keepNames content position = .done methods next) :
    Framed limit content 4 ∧
      ∃ records, records = recordsFrom limit content 4 ∧
        Bracketed keepNames content records methods ∧
        countOf .ending (partsFrom content [] records)
          = Scope.countOfAll (methods.map Method.scope) ∧
        records.countP (·.header.kind.startsMethod)
          = methods.length + (recordsOf .swallowed (partsFrom content [] records)).countP
              (·.header.kind.startsMethod) ∧
        (partsFrom content [] records).countP closesByKind
          = Scope.countOfAll (methods.map Method.scope)
            + (recordsOf .swallowed (partsFrom content [] records)).countP
                (·.header.kind = .scopeEnd) ∧
        (recordsOf .swallowed (partsFrom content [] records) = [] →
          Balanced (records.map (·.header.kind))) := by
  obtain ⟨_, start, hsignature, h⟩ := Reader.bind_eq_done_iff.mp h
  obtain ⟨found, _, hloop, h⟩ := Reader.bind_eq_done_iff.mp h
  cases h
  obtain rfl := readSymbolSignature_eq_done hsignature
  obtain ⟨methods, hfound, hbracketed⟩ := bracketed_of_whileBelow hloop
  obtain rfl : methods = found.toList := by simpa using hfound.symm
  have hframed : Framed limit content 4 :=
    Reader.whileBelow_backward (fun _ => framed_of_readMethodOrSkip) .done hloop
  exact ⟨hframed, _, rfl, hbracketed, hbracketed.countOf_ending, hbracketed.countP_startsMethod,
    hbracketed.countP_closesByKind, hbracketed.balanced⟩

/-- A method with one block in it is balanced. -/
theorem readMethods_brackets_nested :
    ∃ methods next, readMethods 80 true nestedRegion 0 = .done methods next ∧
      methods.length = 1 ∧ Scope.countOfAll (methods.map Method.scope) = 2 ∧
      Balanced ((recordsFrom 80 nestedRegion 4).map (·.header.kind)) := by
  have hkinds : (recordsFrom 80 nestedRegion 4).map (·.header.kind)
      = [.globalMethod, .block, .scopeEnd, .scopeEnd] := by decide +kernel
  have hparts : (partsFrom nestedRegion [] (recordsFrom 80 nestedRegion 4)).map Prod.snd
      = [.method, .block, .ending, .ending] := by decide +kernel
  have hkept : recordsOf .swallowed
      (partsFrom nestedRegion [] (recordsFrom 80 nestedRegion 4)) = [] := by decide +kernel
  have haccepted : ((readMethods 80 true).run nestedRegion).isOk := by decide +kernel
  cases hrun : (readMethods 80 true).run nestedRegion with
  | error error =>
    rw [hrun] at haccepted
    cases haccepted
  | ok methods =>
    obtain ⟨next, hdone⟩ := Reader.run_eq_ok_iff.mp hrun
    obtain ⟨-, _, rfl, -, hends, hstarts, -, hbalanced⟩ := readMethods_brackets hdone
    refine ⟨methods, next, hdone, ?_, ?_, hbalanced hkept⟩
    · rw [hkept, ← Function.comp_def RecordKind.startsMethod, ← List.countP_map, hkinds] at hstarts
      exact hstarts.symm
    · rw [← hends, countOf, ← Function.comp_def (fun part => decide (part = Part.ending)),
        ← List.countP_map, hparts]
      rfl

/-- A method record and an end record in front of the announced end of the method before them. -/
def hiddenMethodRegion : ByteArray := ⟨#[
  4, 0, 0, 0, 42, 0, 42, 17, 0, 0, 0, 0, 96, 0, 0, 0, 0, 0, 0, 0, 32, 0, 0, 0, 0, 0, 0, 0, 32,
  0, 0, 0, 1, 0, 0, 6, 0, 1, 0, 0, 1, 0, 0, 0, 0, 65, 0, 0, 2, 0, 6, 0, 42, 0, 42, 17, 0, 0,
  0, 0, 96, 0, 0, 0, 0, 0, 0, 0, 32, 0, 0, 0, 0, 0, 0, 0, 32, 0, 0, 0, 2, 0, 0, 6, 0, 1, 0, 0,
  1, 0, 0, 0, 0, 66, 0, 0, 2, 0, 6, 0]⟩

/-- Of two method records the decoder finds one method: the second record is swallowed, and with it
the end record in front of it. -/
theorem readMethods_hidden_method :
    ((readMethods 100 true).run hiddenMethodRegion).toOption.map (·.map Method.token)
      = some [0x06000001] ∧
    (recordsFrom 100 hiddenMethodRegion 4).map (·.header.kind)
      = [.globalMethod, .scopeEnd, .globalMethod, .scopeEnd] ∧
    (partsFrom hiddenMethodRegion [] (recordsFrom 100 hiddenMethodRegion 4)).map Prod.snd
      = [.method, .swallowed, .swallowed, .ending] := by
  exact ⟨by decide +kernel, by decide +kernel, by decide +kernel⟩

end ManagedPdb
