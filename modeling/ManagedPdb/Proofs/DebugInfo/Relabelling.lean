import ManagedPdb.DebugInfo.Decode
import ManagedPdb.Proofs.Simulation

/-!
# Relabelled methods

The name of a method and the files of its lines are labels: neither the search for the method that
gets a lines subsection, nor the order of methods, nor the change of tokens looks at them.  So
labels may be changed before these steps or after them (`readLines_relabel`, `Method.sort_relabel`,
`TokenRemap.mapM_relabel`).
-/

namespace ManagedPdb

/-- The method with another name and other lines. -/
def Method.relabel (onName : Option String → Option String)
    (onLines : List LineTable → List LineTable) (method : Method) : Method :=
  { method with name := onName method.name, lines := onLines method.lines }

variable {onName : Option String → Option String} {onLines : List LineTable → List LineTable}

/-! ### Attaching lines -/

namespace Attachment

/-- The same attachment of relabelled methods. -/
def relabel (onName : Option String → Option String) (onLines : List LineTable → List LineTable)
    (attachment : Attachment) : Attachment :=
  { attachment with methods := attachment.methods.map (Method.relabel onName onLines) }

variable (attachment : Attachment) (site : Site)

theorem isAt_relabel (index : Nat) :
    (attachment.relabel onName onLines).isAt site index = attachment.isAt site index := by
  have hsite : Method.site ∘ Method.relabel onName onLines = Method.site := rfl
  simp only [isAt, relabel, Array.getElem?_map, Option.map_map, hsite]

theorem backToFirstFree_relabel (index : Nat) :
    (attachment.relabel onName onLines).backToFirstFree site index
      = attachment.backToFirstFree site index := by
  induction index with
  | zero => rfl
  | succ index ih =>
    rw [backToFirstFree, backToFirstFree, isAt_relabel, ih]
    rfl

theorem forwardToFree_relabel (index : Nat) :
    (attachment.relabel onName onLines).forwardToFree site index
      = attachment.forwardToFree site index := by
  have hsize : (attachment.relabel onName onLines).methods.size = attachment.methods.size := by
    simp [relabel]
  fun_induction forwardToFree attachment site index with
  | case1 index h ih =>
    rw [forwardToFree, dif_pos, ih]
    rw [hsize, isAt_relabel]
    exact h
  | case2 index h =>
    rw [forwardToFree, dif_neg]
    rw [hsize, isAt_relabel]
    exact h

theorem probe_relabel (methods : Array Method) (low high : Nat) :
    SiteSearch.probe (methods.map (Method.relabel onName onLines)) site low high
      = SiteSearch.probe methods site low high := by
  have hmiddle : ∀ index : Nat, (methods.map (Method.relabel onName onLines))[index]?
      = methods[index]?.map (Method.relabel onName onLines) := by simp
  have hsite : ∀ method : Method, (method.relabel onName onLines).site = method.site :=
    fun _ => rfl
  fun_induction SiteSearch.probe methods site low high with
  | case1 low high hlt middle hnone =>
    rw [SiteSearch.probe, dif_pos hlt]
    dsimp only
    rw [hmiddle, hnone, Option.map_none]
  | case2 low high hlt middle method hmethod hfound =>
    rw [SiteSearch.probe, dif_pos hlt]
    dsimp only
    rw [hmiddle, hmethod, Option.map_some]
    simp only [hsite, if_pos hfound]
    rfl
  | case3 low high hlt middle method hmethod hne hbefore ih =>
    rw [SiteSearch.probe, dif_pos hlt]
    dsimp only
    rw [hmiddle, hmethod, Option.map_some]
    simp only [hsite, if_neg hne, if_pos hbefore]
    exact ih
  | case4 low high hlt middle method hmethod hne hbefore ih =>
    rw [SiteSearch.probe, dif_pos hlt]
    dsimp only
    rw [hmiddle, hmethod, Option.map_some]
    simp only [hsite, if_neg hne, if_neg hbefore]
    exact ih
  | case5 low high hnot => rw [SiteSearch.probe, dif_neg hnot]

theorem free?_relabel :
    (attachment.relabel onName onLines).free? .binary site = attachment.free? .binary site := by
  have hsearch : SiteSearch.binary (attachment.relabel onName onLines).methods site
      = SiteSearch.binary attachment.methods site := by
    rw [SiteSearch.binary, SiteSearch.binary, relabel, probe_relabel, Array.size_map]
  have hfree : (attachment.relabel onName onLines).freeFrom site = attachment.freeFrom site := by
    funext index
    rw [freeFrom, freeFrom, forwardToFree_relabel, backToFirstFree_relabel]
    rfl
  rw [free?, free?, hsearch, hfree]

theorem attach_relabel (index : Nat) (lines : List LineTable) :
    (attachment.relabel onName onLines).attach index (onLines lines)
      = (attachment.attach index lines).relabel onName onLines := by
  have hmethods : (attachment.methods.map (Method.relabel onName onLines)).modify index
        ({ · with lines := onLines lines })
      = (attachment.methods.modify index ({ · with lines })).map
        (Method.relabel onName onLines) := by
    ext place hleft hright
    · simp
    · simp only [Array.getElem_modify, Array.getElem_map]
      split <;> rfl
  rw [attach, attach, relabel, relabel, hmethods]

end Attachment

variable {checksums checksums' : ChecksumTable}

/-- Where blocks are read with other files, the methods get the other lines. -/
theorem readLines_relabel
    (hblocks : ∀ hasColumns stop, ReaderSim NoExcuse (fun lines lines' => lines' = onLines lines)
      (LineTable.readBlocks checksums hasColumns stop)
      (LineTable.readBlocks checksums' hasColumns stop))
    (onName : Option String → Option String) (start stop : Nat) (methods : List Method) :
    ReaderSim NoExcuse (fun lined lined' => lined' = lined.map (Method.relabel onName onLines))
      (readLines checksums start stop methods)
      (readLines checksums' start stop (methods.map (Method.relabel onName onLines))) := by
  let Relabelled (attachment attachment' : Attachment) : Prop :=
    attachment' = attachment.relabel onName onLines
  have hsubsection : ∀ (attachment : Attachment) (subsection : Subsection),
      ReaderSim NoExcuse Relabelled (attachment.readSubsection .binary checksums subsection)
        ((attachment.relabel onName onLines).readSubsection .binary checksums' subsection) := by
    intro attachment subsection
    refine .bind_same fun _ => .bind_same fun header => ?_
    rw [Attachment.free?_relabel]
    cases attachment.free? .binary ⟨header.segment, header.address⟩ with
    | none => exact .pure rfl
    | some index =>
      refine (hblocks header.hasColumns subsection.stop).bind ?_
      rintro lines _ rfl
      exact .pure (attachment.attach_relabel index lines)
  have hall : ∀ (subsections : List Subsection) (attachment : Attachment),
      ReaderSim NoExcuse Relabelled (attachment.readSubsections .binary checksums subsections)
        ((attachment.relabel onName onLines).readSubsections .binary checksums' subsections) := by
    intro subsections
    induction subsections with
    | nil => exact fun attachment => .pure rfl
    | cons subsection rest ih =>
      intro attachment
      refine (hsubsection attachment subsection).bind ?_
      rintro attachment _ rfl
      exact ih attachment
  have hstart : Attachment.ofMethods (methods.map (Method.relabel onName onLines))
      = (Attachment.ofMethods methods).relabel onName onLines := by
    simp [Attachment.ofMethods, Attachment.relabel]
  refine .bind_same fun subsections => ?_
  rw [hstart]
  refine (hall subsections _).bind ?_
  rintro attachment _ rfl
  exact .pure (Array.toList_map ..)

/-! ### Order and tokens -/

theorem Method.sort_relabel (methods : List Method) :
    Method.sort (methods.map (relabel onName onLines))
      = (Method.sort methods).map (relabel onName onLines) :=
  (List.map_mergeSort (f := relabel onName onLines) fun _ _ _ _ => rfl).symm

namespace TokenRemap

theorem apply_relabel (remap : TokenRemap) (method : Method) :
    remap.apply (method.relabel onName onLines)
      = Method.relabel onName onLines <$> remap.apply method := by
  obtain ⟨token, segment, address, length, flags, name, scope, usingCounts, forwardToken,
    forwardModuleToken, iteratorClass, iteratorScopes, asyncInfo, lines⟩ := method
  cases asyncInfo <;> simp only [apply, Method.relabel, map_bind, map_pure, pure_bind]

theorem mapM_relabel (remap : TokenRemap) (methods : List Method) :
    (methods.map (Method.relabel onName onLines)).mapM remap.apply
      = List.map (Method.relabel onName onLines) <$> methods.mapM remap.apply := by
  rw [List.mapM_map]
  induction methods with
  | nil => rfl
  | cons method methods ih =>
    rw [List.mapM_cons, List.mapM_cons, ih, Function.comp_apply, apply_relabel]
    simp only [map_eq_pure_bind, bind_assoc, pure_bind, List.map_cons]

end TokenRemap

theorem DebugInfo.indexTokens_relabel (methods : List Method) :
    indexTokens (methods.map (Method.relabel onName onLines)).toArray
      = indexTokens methods.toArray := by
  unfold indexTokens
  rw [List.zipIdx_map, List.foldl_map]
  rfl

end ManagedPdb
