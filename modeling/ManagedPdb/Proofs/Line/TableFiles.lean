import ManagedPdb.DebugInfo.Decode
import ManagedPdb.Proofs.Ensures
import ManagedPdb.Proofs.Line.Correlation
import ManagedPdb.Proofs.Symbol.Carried

/-!
# The files of line tables

A method that has just been read has no lines.  All its line tables come from the lines subsection
that it gets, and each of them names the file of its file number (`filesOf_readLines`).
-/

namespace ManagedPdb

open Reader (Ensures)

/-! ### Methods without lines -/

namespace Method

theorem lines_of_readStart (stop : Nat) (keepNames : Bool) :
    Ensures (fun started : Method × Nat => started.1.lines = []) (readStart stop keepNames) := by
  unfold readStart
  iterate 12 refine .bind fun _ => ?_
  exact .bind fun _ => .pure rfl

theorem lines_apply_item (method : Method) (item : MetadataItem) :
    (item.apply method).lines = method.lines := by
  cases item <;> rfl

theorem lines_apply_metadata (method : Method) (metadata : Metadata) :
    (metadata.apply method).lines = method.lines := by
  cases metadata with
  | items items =>
    show (items.foldl MetadataItem.apply method).lines = method.lines
    induction items generalizing method with
    | nil => rfl
    | cons item items ih => rw [List.foldl_cons, ih, lines_apply_item]
  | asynchronous info => rfl
  | unknown name => rfl

end Method

namespace OpenMethod

theorem lines_add (body : OpenMethod) (entry : Entry) :
    (body.add entry).method.lines = body.method.lines := by
  cases entry with
  | metadata metadata => exact Method.lines_apply_metadata body.method metadata
  | _ => rfl

/-- No record in a body gives lines. -/
theorem lines_of_step (limit : Nat) {body : OpenMethod} (h : body.method.lines = []) :
    Ensures (Sum.elim (fun body => body.method.lines = []) fun method => method.lines = [])
      (step limit body) := by
  apply ensures_step
  case entry =>
    intro position header content start entry stop hdone
    exact (lines_add body entry).trans h
  case close =>
    unfold closeInnermost
    split
    · exact h
    · exact h

end OpenMethod

theorem lines_of_readMethods (limit : Nat) (keepNames : Bool) :
    Ensures (fun methods => ∀ method ∈ methods, method.lines = [])
      (readMethods limit keepNames) :=
  ensures_readMethods (B := fun body => body.method.lines = [])
    (fun stop => Method.lines_of_readStart stop keepNames)
    (fun _ => OpenMethod.lines_of_step limit)

/-! ### Line tables -/

/-- The tables name the files of their file numbers. -/
def FilesOf (checksums : ChecksumTable) (tables : List LineTable) : Prop :=
  ∀ table ∈ tables, table.file = checksums.file? table.fileId

theorem LineTable.filesOf_readBlocks (checksums : ChecksumTable) (hasColumns : Bool) (stop : Nat) :
    Ensures (FilesOf checksums) (readBlocks checksums hasColumns stop) := by
  have hblock : Ensures (fun table => table.file = checksums.file? table.fileId)
      (readBlock checksums hasColumns stop) := by
    unfold readBlock
    iterate 5 refine .bind fun _ => ?_
    refine .ite .fail_bind (.bind fun _ => ?_)
    split
    all_goals exact .bind fun _ => .bind fun _ => .pure rfl
  have hnext : ∀ tables : Array LineTable, FilesOf checksums tables.toList →
      Ensures (fun tables => FilesOf checksums tables.toList)
        (do return tables.push (← readBlock checksums hasColumns stop)) := by
    intro tables htables
    refine hblock.bind_of fun table htable => .pure fun other member => ?_
    rw [Array.toList_push] at member
    rcases List.mem_append.mp member with member | member
    · exact htables other member
    · rwa [List.mem_singleton.mp member]
  exact (Ensures.whileBelow stop hnext (List.forall_mem_nil _)).bind_of fun _ h => .pure h

theorem SiteLines.filesOf_ofSubsection {checksums : ChecksumTable} {content : ByteArray}
    {subsection : Subsection} {tables : List LineTable}
    (h : (ofSubsection checksums content subsection).tables? = some tables) :
    FilesOf checksums tables := by
  unfold ofSubsection at h
  split at h
  · cases h
  · dsimp only at h
    split at h
    · cases h
    · next hblocks =>
      cases h
      exact LineTable.filesOf_readBlocks _ _ _ _ _ _ _ hblocks

/-- Methods that had no lines still have none, or they have those of a subsection of their place. -/
theorem lines_of_readLines {checksums : ChecksumTable} {start stop position next : Nat}
    {content : ByteArray} {methods lined : List Method} (sorted : SortedBySite methods)
    (none : ∀ method ∈ methods, method.lines = [])
    (h : readLines checksums start stop methods content position = .done lined next) :
    ∃ subsections behind, Subsection.readKind Subsection.linesKind start stop content position
        = .done subsections behind ∧
      ∀ method ∈ lined, method.lines = [] ∨ ∃ subsection ∈ subsections,
        (SiteLines.ofSubsection checksums content subsection).site? = some method.site ∧
        (SiteLines.ofSubsection checksums content subsection).tables? = some method.lines := by
  obtain ⟨subsections, behind, hsubsections, h⟩ := Reader.bind_eq_done_iff.mp h
  obtain ⟨attachment, _, hattachment, h⟩ := Reader.bind_eq_done_iff.mp h
  cases h
  obtain ⟨hlength, -, hmethods⟩ :=
    Correlated.of_readSubsections SiteSearch.finds_binary sorted hattachment
  refine ⟨subsections, behind, hsubsections, fun method member => ?_⟩
  obtain ⟨index, hindex, rfl⟩ := List.mem_iff_getElem.mp member
  have hat := hmethods index methods[index] (List.getElem?_eq_getElem (hlength ▸ hindex))
  have hlined := List.getElem?_eq_getElem hindex
  split at hat
  · rw [hlined] at hat
    rw [Option.some.inj hat]
    exact .inl (none _ (List.getElem_mem _))
  · next lines hlines =>
    obtain ⟨tables, htables, hat⟩ := hat
    rw [hlined] at hat
    rw [Option.some.inj hat]
    obtain ⟨hsection, hsite⟩ := List.mem_filter.mp (List.mem_of_getElem? hlines)
    obtain ⟨subsection, hsubsection, rfl⟩ := List.mem_map.mp hsection
    exact .inr ⟨subsection, hsubsection, of_decide_eq_true hsite, htables⟩

/-- Methods that had no lines have tables that name the files of their file numbers. -/
theorem filesOf_readLines {checksums : ChecksumTable} {start stop position next : Nat}
    {content : ByteArray} {methods lined : List Method} (sorted : SortedBySite methods)
    (none : ∀ method ∈ methods, method.lines = [])
    (h : readLines checksums start stop methods content position = .done lined next) :
    ∀ method ∈ lined, FilesOf checksums method.lines := by
  obtain ⟨_, _, -, hlines⟩ := lines_of_readLines sorted none h
  intro method member
  rcases hlines method member with hnone | ⟨subsection, -, -, htables⟩
  · rw [hnone]
    exact nofun
  · exact SiteLines.filesOf_ofSubsection htables

/-! ### Token lines -/

theorem TokenLines.toList_ofToken_foldl (entries : List (UInt32 × TokenLine)) (lines : TokenLines)
    (token : UInt32) :
    ((entries.foldl TokenLines.add lines).ofToken token).toList
      = (lines.ofToken token).toList ++ (entries.filter (·.1 = token)).map Prod.snd := by
  induction entries generalizing lines with
  | nil => simp
  | cons entry entries ih =>
    rw [List.foldl_cons, ih]
    unfold add ofToken
    rw [Std.TreeMap.getElem?_insert]
    by_cases htoken : entry.1 = token
    · simp [htoken]
    · simp [htoken]

end ManagedPdb
