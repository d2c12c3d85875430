import ManagedPdb.Proofs.Line.SiteSearch
import ManagedPdb.Proofs.Reader
import Mathlib

/-!
# Which method gets which lines

The walk over taken and free methods comes down to a plain rule: the first lines subsection of a
place goes to the first method of that place, the second to the second, and so on; subsections
without a method left are dropped (`readLinesBy_correlates`).

What carries the proof is the invariant `Attachment.Follows`.  After some subsections, exactly those
methods are taken that have fewer methods of their place in front of them than there were
subsections of that place.  The taken methods of a place are thus its first ones, and a walk from
any of its methods ends at the first free one.
-/

namespace ManagedPdb

/-- What a lines subsection says: its place if the header can be read, and its tables if the blocks
can be read as well. -/
structure SiteLines where
  site? : Option Site
  tables? : Option (List LineTable)

/-- A subsection read on its own. -/
def SiteLines.ofSubsection (checksums : ChecksumTable) (content : ByteArray)
    (subsection : Subsection) : SiteLines :=
  match LinesHeader.read content subsection.start with
  | .failed _ _ => ⟨none, none⟩
  | .done header blocks =>
    ⟨some ⟨header.segment, header.address⟩,
      match LineTable.readBlocks checksums header.hasColumns subsection.stop content blocks with
      | .failed _ _ => none
      | .done tables _ => some tables⟩

/-- The number of methods of a place in front of an index. -/
def ordinal (methods : List Method) (site : Site) (index : Nat) : Nat :=
  (methods.take index).countP (·.site = site)

/-- The subsections that carry a place, in their order. -/
def carrying (sections : List SiteLines) (site : Site) : List SiteLines :=
  sections.filter (·.site? = some site)

/-- The plain rule: each subsection carries a place, and the methods of a place and the subsections
that carry it are paired in order.  A method that is left over is not changed. -/
def Correlated (methods : List Method) (sections : List SiteLines) (result : List Method) : Prop :=
  result.length = methods.length ∧ (∀ lines ∈ sections, lines.site?.isSome) ∧
    ∀ index method, methods[index]? = some method →
      match (carrying sections method.site)[ordinal methods method.site index]? with
      | none => result[index]? = some method
      | some lines =>
        ∃ tables, lines.tables? = some tables ∧
          result[index]? = some { method with lines := tables }

variable {methods : List Method} {site : Site} {sections : List SiteLines}

/-! ### Ordinals -/

theorem ordinal_succ_of_at {index : Nat} (at_site : methods[index]?.map Method.site = some site) :
    ordinal methods site (index + 1) = ordinal methods site index + 1 := by
  obtain ⟨method, hmethod, rfl⟩ := Option.map_eq_some_iff.mp at_site
  rw [ordinal, List.take_add_one, hmethod, List.countP_append]
  simp [ordinal]

theorem ordinal_mono {low high : Nat} (le : low ≤ high) :
    ordinal methods site low ≤ ordinal methods site high :=
  List.Sublist.countP_le (List.take_sublist_take_left le)

/-- Two methods of a place have different ordinals. -/
theorem ordinal_lt_of_at {low high : Nat} (at_low : methods[low]?.map Method.site = some site)
    (lt : low < high) : ordinal methods site low < ordinal methods site high :=
  calc ordinal methods site low
      < ordinal methods site (low + 1) := by rw [ordinal_succ_of_at at_low]; omega
    _ ≤ ordinal methods site high := ordinal_mono lt

theorem ordinal_inj {left right : Nat} (at_left : methods[left]?.map Method.site = some site)
    (at_right : methods[right]?.map Method.site = some site)
    (same : ordinal methods site left = ordinal methods site right) : left = right := by
  rcases Nat.lt_trichotomy left right with h | h | h
  · have := ordinal_lt_of_at at_left h
    omega
  · exact h
  · have := ordinal_lt_of_at at_right h
    omega

theorem ordinal_eq_zero {index : Nat}
    (none_before : ∀ earlier < index, methods[earlier]?.map Method.site ≠ some site) :
    ordinal methods site index = 0 := by
  rw [ordinal, List.countP_eq_zero]
  intro method member
  obtain ⟨earlier, hearlier, rfl⟩ := List.mem_iff_getElem.mp member
  rw [List.length_take] at hearlier
  have hnot := none_before earlier (by omega)
  rw [List.getElem_take]
  rw [List.getElem?_eq_getElem (by omega), Option.map_some] at hnot
  simpa using hnot

/-- In sorted methods, the first of a place has none of that place in front of it. -/
theorem SortedBySite.ordinal_eq_zero_of_first (sorted : SortedBySite methods) {index : Nat}
    (at_site : methods[index + 1]?.map Method.site = some site)
    (not_before : methods[index]?.map Method.site ≠ some site) :
    ordinal methods site (index + 1) = 0 := by
  apply ordinal_eq_zero
  intro earlier hlt hearlier
  rcases Nat.lt_or_eq_of_le (Nat.le_of_lt_succ hlt) with h | rfl
  · exact not_before (sorted.site_eq_of_between hearlier at_site h (by omega))
  · exact not_before hearlier

/-! ### Subsections of a place -/

theorem carrying_append (sections more : List SiteLines) (site : Site) :
    carrying (sections ++ more) site = carrying sections site ++ carrying more site :=
  List.filter_append ..

theorem carrying_singleton_of_eq {lines : SiteLines} (h : lines.site? = some site) :
    carrying [lines] site = [lines] := by
  simp [carrying, h]

theorem carrying_singleton_of_ne {lines : SiteLines} (h : lines.site? ≠ some site) :
    carrying [lines] site = [] := by
  simp [carrying, h]

/-- One more subsection matters only to the method that is next. -/
theorem getElem?_concat_of_ne {own : List SiteLines} {lines : SiteLines} {index : Nat}
    (ne : index ≠ own.length) : (own ++ [lines])[index]? = own[index]? := by
  rcases Nat.lt_or_gt_of_ne ne with h | h
  · exact List.getElem?_append_left h
  · rw [List.getElem?_eq_none (by simp; omega), List.getElem?_eq_none (by omega)]

namespace Attachment

/-- The invariant: an attachment after some subsections.  A method is taken if there were enough
subsections of its place, and then it has the tables of its own; the other methods are as before. -/
structure Follows (methods : List Method) (sections : List SiteLines) (attachment : Attachment) :
    Prop where
  size_methods : attachment.methods.size = methods.length
  size_taken : attachment.taken.size = methods.length
  all_carry : ∀ lines ∈ sections, lines.site?.isSome
  at_index : ∀ index method, methods[index]? = some method →
    match (carrying sections method.site)[ordinal methods method.site index]? with
    | none => attachment.methods[index]? = some method ∧ attachment.isTaken index = false
    | some lines =>
      ∃ tables, lines.tables? = some tables ∧
        attachment.methods[index]? = some { method with lines := tables } ∧
        attachment.isTaken index = true

variable {attachment : Attachment} {search : SiteSearch}

/-! ### Giving lines to a method -/

theorem getElem?_attach_self {target : Nat} {tables : List LineTable} {method : Method}
    (h : attachment.methods[target]? = some method) :
    (attachment.attach target tables).methods[target]? = some { method with lines := tables } := by
  rw [Attachment.attach, Array.getElem?_modify, if_pos rfl, h]
  rfl

theorem getElem?_attach_of_ne {target index : Nat} {tables : List LineTable} (ne : target ≠ index) :
    (attachment.attach target tables).methods[index]? = attachment.methods[index]? := by
  rw [Attachment.attach, Array.getElem?_modify, if_neg ne]

theorem isTaken_attach_self {target : Nat} {tables : List LineTable} :
    (attachment.attach target tables).isTaken target = true := by
  rw [isTaken, Attachment.attach, Array.getElem?_setIfInBounds]
  split
  · split <;> rfl
  · contradiction

theorem isTaken_attach_of_ne {target index : Nat} {tables : List LineTable} (ne : target ≠ index) :
    (attachment.attach target tables).isTaken index = attachment.isTaken index := by
  rw [isTaken, isTaken, Attachment.attach, Array.getElem?_setIfInBounds, if_neg ne]

/-- At first no method is taken. -/
theorem follows_ofMethods (methods : List Method) : (ofMethods methods).Follows methods [] where
  size_methods := by simp [ofMethods]
  size_taken := by simp [ofMethods]
  all_carry := by simp
  at_index := by
    intro index method hmethod
    have hindex := (List.getElem?_eq_some_iff.mp hmethod).1
    refine ⟨?_, ?_⟩
    · rw [ofMethods, List.getElem?_toArray, hmethod]
    · simp [ofMethods, isTaken, hindex]

namespace Follows

/-- Giving lines to methods does not move them. -/
theorem site_at (follows : attachment.Follows methods sections) (index : Nat) :
    attachment.methods[index]?.map Method.site = methods[index]?.map Method.site := by
  cases hmethod : methods[index]? with
  | none =>
    rw [List.getElem?_eq_none_iff, ← follows.size_methods] at hmethod
    rw [Array.getElem?_eq_none hmethod]
  | some method =>
    have hindex := follows.at_index index method hmethod
    split at hindex
    · rw [hindex.1]
    · obtain ⟨tables, -, hat, -⟩ := hindex
      rw [hat]
      rfl

theorem isAt_iff (follows : attachment.Follows methods sections) (index : Nat) :
    attachment.isAt site index = true ↔ methods[index]?.map Method.site = some site := by
  rw [isAt, follows.site_at, beq_iff_eq]

theorem sorted (follows : attachment.Follows methods sections) (sorted : SortedBySite methods) :
    SortedBySite attachment.methods.toList := by
  apply sorted.of_map_site_eq
  apply List.ext_getElem?
  intro index
  rw [List.getElem?_map, List.getElem?_map, Array.getElem?_toList, follows.site_at]

/-- Which methods of a place are taken is a matter of their ordinals. -/
theorem isTaken_iff (follows : attachment.Follows methods sections) {index : Nat}
    (at_site : methods[index]?.map Method.site = some site) :
    attachment.isTaken index = true ↔
      ordinal methods site index < (carrying sections site).length := by
  obtain ⟨method, hmethod, rfl⟩ := Option.map_eq_some_iff.mp at_site
  have hindex := follows.at_index index method hmethod
  split at hindex
  · next hnone =>
    rw [List.getElem?_eq_none_iff] at hnone
    rw [hindex.2]
    simpa using hnone
  · next lines hsome =>
    obtain ⟨-, -, -, htaken⟩ := hindex
    simpa [htaken] using (List.getElem?_eq_some_iff.mp hsome).1

/-! ### The walk -/

/-- The walk back from a free method ends at the method whose ordinal is the number of subsections
so far. -/
theorem backToFirstFree_spec (follows : attachment.Follows methods sections)
    (sorted : SortedBySite methods) {index : Nat}
    (at_site : methods[index]?.map Method.site = some site)
    (free : (carrying sections site).length ≤ ordinal methods site index) :
    methods[attachment.backToFirstFree site index]?.map Method.site = some site ∧
      ordinal methods site (attachment.backToFirstFree site index)
        = (carrying sections site).length := by
  induction index with
  | zero =>
    have hzero : ordinal methods site 0 = 0 := by simp [ordinal]
    rw [backToFirstFree]
    exact ⟨at_site, by omega⟩
  | succ index ih =>
    rw [backToFirstFree]
    split
    · next hback =>
      rw [Bool.and_eq_true, Bool.not_eq_true', follows.isAt_iff] at hback
      obtain ⟨hfree, hat⟩ := hback
      refine ih hat ?_
      rw [← Nat.not_lt, ← follows.isTaken_iff hat, hfree]
      simp
    · next hstay =>
      refine ⟨at_site, ?_⟩
      by_cases hat : methods[index]?.map Method.site = some site
      · -- the one in front is of the same place, so it stopped the walk because it is taken
        have htaken : attachment.isTaken index = true := by
          simpa [follows.isAt_iff, hat] using hstay
        rw [follows.isTaken_iff hat] at htaken
        rw [ordinal_succ_of_at hat] at free ⊢
        omega
      · rw [sorted.ordinal_eq_zero_of_first at_site hat] at free ⊢
        omega

/-- The walk forward ends at the method whose ordinal is the number of subsections so far, or, if
all methods of the place are taken, at the last of them. -/
theorem forwardToFree_spec (follows : attachment.Follows methods sections)
    (sorted : SortedBySite methods) {index : Nat}
    (at_site : methods[index]?.map Method.site = some site)
    (not_beyond : ordinal methods site index ≤ (carrying sections site).length) :
    methods[attachment.forwardToFree site index]?.map Method.site = some site ∧
      (attachment.isTaken (attachment.forwardToFree site index) = false →
        ordinal methods site (attachment.forwardToFree site index)
          = (carrying sections site).length) ∧
      (attachment.isTaken (attachment.forwardToFree site index) = true →
        ∀ later, attachment.forwardToFree site index < later →
          methods[later]?.map Method.site ≠ some site) := by
  fun_induction attachment.forwardToFree site index with
  | case1 index hgo ih =>
    simp only [Bool.and_eq_true, decide_eq_true_eq, follows.isAt_iff] at hgo
    obtain ⟨⟨htaken, -⟩, hnext⟩ := hgo
    rw [follows.isTaken_iff at_site] at htaken
    exact ih hnext (by rw [ordinal_succ_of_at at_site]; omega)
  | case2 index hstay =>
    refine ⟨at_site, fun hfree => ?_, fun htaken later hlater hat => hstay ?_⟩
    · have hnot := mt (follows.isTaken_iff at_site).mpr (by simp [hfree])
      omega
    · have hnext : methods[index + 1]?.map Method.site = some site := by
        rcases Nat.lt_or_eq_of_le hlater with h | rfl
        · exact sorted.site_eq_of_between at_site hat (by omega) h
        · exact hat
      obtain ⟨method, hmethod, -⟩ := Option.map_eq_some_iff.mp hnext
      have hsize := (List.getElem?_eq_some_iff.mp hmethod).1
      rw [htaken, (follows.isAt_iff (index + 1)).mpr hnext, follows.size_methods]
      simp [hsize]

/-- From any method of a place the walk leads to the one whose ordinal is the number of subsections
so far, if there is one. -/
theorem freeFrom_eq_some_iff (follows : attachment.Follows methods sections)
    (sorted : SortedBySite methods) {index target : Nat}
    (at_site : methods[index]?.map Method.site = some site) :
    attachment.freeFrom site index = some target ↔
      methods[target]?.map Method.site = some site ∧
        ordinal methods site target = (carrying sections site).length := by
  -- a method with that ordinal is the only one and is free
  have hunique : ∀ found, methods[found]?.map Method.site = some site →
      ordinal methods site found = (carrying sections site).length →
      attachment.isTaken found = false ∧ (some found = some target ↔
        methods[target]?.map Method.site = some site ∧
          ordinal methods site target = (carrying sections site).length) := by
    intro found hat hordinal
    refine ⟨?_, ?_⟩
    · rw [← Bool.not_eq_true, follows.isTaken_iff hat]
      omega
    · constructor
      · intro h
        cases h
        exact ⟨hat, hordinal⟩
      · rintro ⟨hat_target, hordinal_target⟩
        rw [ordinal_inj hat hat_target (by omega)]
  rw [freeFrom]
  cases htaken : attachment.isTaken index with
  | false =>
    have hfree : ¬ _ < _ := mt (follows.isTaken_iff at_site).mpr (by simp [htaken])
    obtain ⟨hat, hordinal⟩ := follows.backToFirstFree_spec sorted at_site (Nat.le_of_not_lt hfree)
    obtain ⟨hfound, heq⟩ := hunique _ hat hordinal
    simp only [Bool.false_eq_true, ↓reduceIte, hfound]
    exact heq
  | true =>
    have hnot_beyond := Nat.le_of_lt ((follows.isTaken_iff at_site).mp htaken)
    obtain ⟨hat, hfree, hlast⟩ := follows.forwardToFree_spec sorted at_site hnot_beyond
    simp only [↓reduceIte]
    cases hfound : attachment.isTaken (attachment.forwardToFree site index) with
    | false =>
      simp only [Bool.false_eq_true, ↓reduceIte]
      exact (hunique _ hat (hfree hfound)).2
    | true =>
      -- all methods of the place are taken, the last of them too
      simp only [↓reduceIte, reduceCtorEq, false_iff]
      rintro ⟨hat_target, hordinal⟩
      have hle : target ≤ attachment.forwardToFree site index := by
        apply Nat.le_of_not_lt
        exact fun h => hlast hfound _ h hat_target
      have hlt := (follows.isTaken_iff hat).mp hfound
      have hmono := @ordinal_mono methods site _ _ hle
      omega

/-- Wherever the search lands, the next subsection of a place goes to the method whose ordinal is
the number of subsections of the place so far. -/
theorem free?_eq_some_iff (follows : attachment.Follows methods sections)
    (sorted : SortedBySite methods) (finds : search.Finds) {target : Nat} :
    attachment.free? search site = some target ↔
      methods[target]?.map Method.site = some site ∧
        ordinal methods site target = (carrying sections site).length := by
  obtain ⟨hsome, hnone⟩ := finds attachment.methods (follows.sorted sorted) site
  rw [free?]
  cases hsearch : search attachment.methods site with
  | none =>
    simp only [Option.bind_none, reduceCtorEq, false_iff]
    rintro ⟨hat, -⟩
    rw [← follows.site_at] at hat
    obtain ⟨method, hmethod, hsite⟩ := Option.map_eq_some_iff.mp hat
    exact hnone hsearch method (Array.mem_of_getElem? hmethod) hsite
  | some index =>
    have hat := hsome index hsearch
    rw [follows.site_at] at hat
    exact follows.freeFrom_eq_some_iff sorted hat

/-! ### One subsection -/

theorem all_carry_append (follows : attachment.Follows methods sections) {lines : SiteLines}
    (carries : lines.site? = some site) : ∀ each ∈ sections ++ [lines], each.site?.isSome := by
  intro each member
  rcases List.mem_append.mp member with h | h
  · exact follows.all_carry each h
  · rw [List.mem_singleton.mp h, carries]
    rfl

/-- A subsection for which no method is left changes nothing. -/
theorem drop (follows : attachment.Follows methods sections) {lines : SiteLines}
    (carries : lines.site? = some site)
    (no_method : ∀ target, methods[target]?.map Method.site = some site →
      ordinal methods site target ≠ (carrying sections site).length) :
    attachment.Follows methods (sections ++ [lines]) where
  size_methods := follows.size_methods
  size_taken := follows.size_taken
  all_carry := follows.all_carry_append carries
  at_index := by
    intro index method hmethod
    have hindex := follows.at_index index method hmethod
    rw [carrying_append]
    by_cases hsite : method.site = site
    · subst hsite
      have hne := no_method index (by rw [hmethod, Option.map_some])
      rw [carrying_singleton_of_eq carries, getElem?_concat_of_ne hne]
      exact hindex
    · rw [carrying_singleton_of_ne (by rw [carries]; simpa using Ne.symm hsite), List.append_nil]
      exact hindex

/-- A subsection goes to the method whose ordinal is the number of subsections so far. -/
theorem attach (follows : attachment.Follows methods sections) {lines : SiteLines}
    {tables : List LineTable} (carries : lines.site? = some site)
    (well_formed : lines.tables? = some tables) {target : Nat}
    (at_target : methods[target]?.map Method.site = some site)
    (next : ordinal methods site target = (carrying sections site).length) :
    (attachment.attach target tables).Follows methods (sections ++ [lines]) where
  size_methods := by simp [Attachment.attach, follows.size_methods]
  size_taken := by simp [Attachment.attach, follows.size_taken]
  all_carry := follows.all_carry_append carries
  at_index := by
    intro index method hmethod
    have hindex := follows.at_index index method hmethod
    rw [carrying_append]
    by_cases htarget : target = index
    · subst htarget
      obtain rfl : method.site = site := by simpa [hmethod] using at_target
      rw [next, List.getElem?_eq_none (Nat.le_refl _)] at hindex
      rw [carrying_singleton_of_eq carries, next, List.getElem?_concat_length]
      exact ⟨tables, well_formed, getElem?_attach_self hindex.1, isTaken_attach_self⟩
    · rw [getElem?_attach_of_ne htarget, isTaken_attach_of_ne htarget]
      by_cases hsite : method.site = site
      · subst hsite
        have hne : ordinal methods method.site index ≠ (carrying sections method.site).length := by
          intro heq
          have hat : methods[index]?.map Method.site = some method.site := by
            rw [hmethod, Option.map_some]
          exact htarget (ordinal_inj at_target hat (by omega))
        rw [carrying_singleton_of_eq carries, getElem?_concat_of_ne hne]
        exact hindex
      · rw [carrying_singleton_of_ne (by rw [carries]; simpa using Ne.symm hsite), List.append_nil]
        exact hindex

/-- Reading a subsection keeps the invariant. -/
theorem readSubsection (follows : attachment.Follows methods sections)
    (sorted : SortedBySite methods) (finds : search.Finds) {checksums : ChecksumTable}
    {subsection : Subsection} {content : ByteArray} {position stop : Nat} {after : Attachment}
    (h : attachment.readSubsection search checksums subsection content position
      = .done after stop) :
    after.Follows methods (sections ++ [SiteLines.ofSubsection checksums content subsection]) := by
  rw [Attachment.readSubsection, Reader.bind_eq_done_iff] at h
  obtain ⟨⟨⟩, start, hseek, h⟩ := h
  obtain ⟨-, rfl⟩ := Reader.seek_eq_done_iff.mp hseek
  obtain ⟨header, blocks, hheader, h⟩ := Reader.bind_eq_done_iff.mp h
  have hcarries : (SiteLines.ofSubsection checksums content subsection).site?
      = some ⟨header.segment, header.address⟩ := by
    simp only [SiteLines.ofSubsection, hheader]
  cases hfree : attachment.free? search ⟨header.segment, header.address⟩ with
  | none =>
    rw [hfree] at h
    cases h
    refine follows.drop hcarries fun target hat hordinal => ?_
    rw [(follows.free?_eq_some_iff sorted finds).mpr ⟨hat, hordinal⟩] at hfree
    cases hfree
  | some target =>
    rw [hfree] at h
    obtain ⟨tables, behind, htables, h⟩ := Reader.bind_eq_done_iff.mp h
    cases h
    obtain ⟨hat, hordinal⟩ := (follows.free?_eq_some_iff sorted finds).mp hfree
    refine follows.attach hcarries ?_ hat hordinal
    simp only [SiteLines.ofSubsection, hheader, htables]

/-- Reading subsections one after the other keeps the invariant. -/
theorem readSubsections (follows : attachment.Follows methods sections)
    (sorted : SortedBySite methods) (finds : search.Finds) {checksums : ChecksumTable}
    {subsections : List Subsection} {content : ByteArray} {position stop : Nat} {after : Attachment}
    (h : attachment.readSubsections search checksums subsections content position
      = .done after stop) :
    after.Follows methods
      (sections ++ subsections.map (SiteLines.ofSubsection checksums content)) := by
  induction subsections generalizing attachment sections position with
  | nil =>
    cases h
    rw [List.map_nil, List.append_nil]
    exact follows
  | cons subsection rest ih =>
    obtain ⟨between, middle, hfirst, hrest⟩ := Reader.bind_eq_done_iff.mp h
    have hfollows := ih (follows.readSubsection sorted finds hfirst) hrest
    rw [List.append_assoc] at hfollows
    exact hfollows

/-- The invariant at the end is the plain rule. -/
theorem correlated (follows : attachment.Follows methods sections) :
    Correlated methods sections attachment.methods.toList := by
  refine ⟨by rw [Array.length_toList, follows.size_methods], follows.all_carry,
    fun index method hmethod => ?_⟩
  have hindex := follows.at_index index method hmethod
  cases hlines : (carrying sections method.site)[ordinal methods method.site index]? with
  | none =>
    rw [hlines] at hindex
    show attachment.methods.toList[index]? = some method
    rw [Array.getElem?_toList, hindex.1]
  | some lines =>
    rw [hlines] at hindex
    obtain ⟨tables, htables, hat, -⟩ := hindex
    exact ⟨tables, htables, by rw [Array.getElem?_toList, hat]⟩

end Follows

end Attachment

/-! ### A line region -/

/-- Subsections that are all read are paired with the methods by the plain rule. -/
theorem Correlated.of_readSubsections {search : SiteSearch} (finds : search.Finds)
    (sorted : SortedBySite methods) {checksums : ChecksumTable} {subsections : List Subsection}
    {content : ByteArray} {position next : Nat} {attachment : Attachment}
    (h : (Attachment.ofMethods methods).readSubsections search checksums subsections content
      position = .done attachment next) :
    Correlated methods (subsections.map (SiteLines.ofSubsection checksums content))
      attachment.methods.toList :=
  ((Attachment.follows_ofMethods methods).readSubsections sorted finds h).correlated

/-- If a line region is accepted, methods and lines subsections are paired by the plain rule.  The
search may land on any method of a place. -/
theorem readLinesBy_correlates {search : SiteSearch} (finds : search.Finds)
    (sorted : SortedBySite methods) {checksums : ChecksumTable} {start stop : Nat}
    {content : ByteArray} {position next : Nat} {result : List Method}
    (accepted : readLinesBy search checksums start stop methods content position
      = .done result next) :
    ∃ subsections behind,
      Subsection.readKind Subsection.linesKind start stop content position
        = .done subsections behind ∧
      Correlated methods (subsections.map (SiteLines.ofSubsection checksums content)) result := by
  obtain ⟨subsections, behind, hsubsections, h⟩ := Reader.bind_eq_done_iff.mp accepted
  obtain ⟨attachment, last, hattachment, h⟩ := Reader.bind_eq_done_iff.mp h
  cases h
  have hfollows := (Attachment.follows_ofMethods methods).readSubsections sorted finds hattachment
  exact ⟨subsections, behind, hsubsections, hfollows.correlated⟩

/-- Two of three subsections of a place go to its two methods, and the third is dropped. -/
theorem readLinesBy_correlates_shared_place :
    let method : UInt32 → UInt32 → List LineTable → Method := fun token address lines =>
      ⟨token, 1, address, 0, 0, none, default, [], none, none, none, [], none, lines⟩
    let methods := [method 1 0x80 [], method 2 0x100 [], method 3 0x100 []]
    let content : ByteArray := ⟨#[
      0xf2, 0, 0, 0, 24, 0, 0, 0, 0, 1, 0, 0, 1, 0, 0, 0, 0, 0, 0, 0, 7, 0, 0, 0,
      0, 0, 0, 0, 12, 0, 0, 0,
      0xf2, 0, 0, 0, 24, 0, 0, 0, 0, 1, 0, 0, 1, 0, 0, 0, 0, 0, 0, 0, 8, 0, 0, 0,
      0, 0, 0, 0, 12, 0, 0, 0,
      0xf2, 0, 0, 0, 12, 0, 0, 0, 0, 1, 0, 0, 1, 0, 0, 0, 0, 0, 0, 0]⟩
    let result := [method 1 0x80 [], method 2 0x100 [⟨7, none, []⟩],
      method 3 0x100 [⟨8, none, []⟩]]
    SiteSearch.binary.Finds ∧ SortedBySite methods ∧
      readLinesBy .binary ∅ 0 84 methods content 0 = .done result 84 ∧
      ∃ subsections behind,
        Subsection.readKind Subsection.linesKind 0 84 content 0 = .done subsections behind ∧
        Correlated methods (subsections.map (SiteLines.ofSubsection ∅ content)) result := by
  intro method methods content result
  have hsorted : SortedBySite methods := by
    simp [SortedBySite, methods, method, Method.site, Site.before]
  have haccepted : readLinesBy .binary ∅ 0 84 methods content 0 = .done result 84 := by cbv
  exact ⟨SiteSearch.finds_binary, hsorted, haccepted,
    readLinesBy_correlates SiteSearch.finds_binary hsorted haccepted⟩

end ManagedPdb
