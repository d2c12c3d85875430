import ManagedPdb.Proofs.DebugInfo.Sink
import ManagedPdb.Proofs.Report.CheckedSums

/-!
# Reports on one method

The report on a chosen method is the whole report without the blocks of the other methods.  The
method is found by any spelling of its token (`Report.parseToken_text`), and of several methods with
that token it is the last one (`DebugInfo.method?_eq_getLast?`), wherever the order of methods puts
the others.  A report is made of three texts: `Report.headerText` is what stands in front of the
blocks, `Report.blockText` is a block, and `Report.trailerText` is what stands behind them.
-/

namespace ManagedPdb

namespace Report

/-- The three lines that every report starts with. -/
def headerText (info : DebugInfo) (idText : Guid → UInt32 → String) : String :=
  "Debug ID: " ++ idText info.guid info.executableAge ++ "\n"
    ++ "Modules: " ++ toString info.modules.length ++ "\n"
    ++ "Methods: " ++ toString info.methods.size ++ "\n"

/-- The block of a method, with a line end behind each of its lines. -/
def blockText (info : DebugInfo) (method : Method) : String :=
  String.join ((methodLines info method).map (· ++ "\n"))

/-- The number of tokens with lines and the source server script, if there are any. -/
def trailerText (info : DebugInfo) : String :=
  (if info.tokenLines.isEmpty then ""
    else "Token source lines: " ++ toString info.tokenLines.size ++ "\n")
  ++ if info.sourceServer = "" then "" else "Source server data:\n" ++ info.sourceServer ++ "\n"

theorem text_eq_join (lines : List String) : text lines = String.join (lines.map (· ++ "\n")) := by
  induction lines using List.reverseRecOn with
  | nil => rfl
  | append_singleton lines line ih =>
    rw [text, List.foldl_append, ← text, ih, List.map_append, String.join_append]
    simp [String.append_assoc]

theorem text_append (lines others : List String) :
    text (lines ++ others) = text lines ++ text others := by
  rw [text_eq_join, text_eq_join, text_eq_join, List.map_append, String.join_append]

theorem text_headerLines (info : DebugInfo) (idText : Guid → UInt32 → String) :
    text (headerLines info idText) = headerText info idText := by
  simp only [text_eq_join, headerLines, headerText, DebugInfo.debugId, List.map_cons, List.map_nil,
    String.join_cons, String.join_nil, String.append_assoc, String.append_empty]

theorem text_methodLines (info : DebugInfo) (method : Method) :
    text (methodLines info method) = blockText info method := text_eq_join _

theorem text_trailerLines (info : DebugInfo) : text (trailerLines info) = trailerText info := by
  rw [trailerLines, trailerText, text_append]
  congr 1
  · split
    · rfl
    · simp [text_eq_join]
  · split
    · rfl
    · simp [text_eq_join, String.append_assoc]

theorem text_flatMap_methodLines (info : DebugInfo) (methods : List Method) :
    text (methods.flatMap (methodLines info)) = String.join (methods.map (blockText info)) := by
  induction methods with
  | nil => rfl
  | cons method methods ih =>
    rw [List.flatMap_cons, text_append, text_methodLines, ih, List.map_cons, String.join_cons]

/-- A block starts with the token, the place and the name of its method. -/
theorem head?_methodLines (info : DebugInfo) (method : Method) :
    (methodLines info method).head? = some ((Spelling.printed method.token).text ++ " "
      ++ digits 4 method.segment.toNat ++ ":" ++ digits 8 method.address.toNat ++ " "
      ++ method.name.getD "<unnamed>") := by
  rw [Spelling.text_printed]
  rfl

variable {info : DebugInfo} {token : UInt32} {method : Method} {idText : Guid → UInt32 → String}

theorem ofInfo_none : ofInfo info none idText
    = ⟨headerText info idText ++ String.join (info.methods.toList.map (blockText info))
        ++ trailerText info, none⟩ := by
  simp only [ofInfo, chosenLines, text_append, text_headerLines, text_flatMap_methodLines,
    text_trailerLines]

theorem ofInfo_of_method? (h : info.method? token = some method) (spelling : Spelling token) :
    ofInfo info (some spelling.text) idText
      = ⟨headerText info idText ++ blockText info method ++ trailerText info, none⟩ := by
  simp only [ofInfo, chosenLines, parseToken_text, h, text_append, text_headerLines,
    text_methodLines, text_trailerLines]

theorem ofInfo_of_method?_none (h : info.method? token = none) (spelling : Spelling token) :
    ofInfo info (some spelling.text) idText
      = ⟨headerText info idText, some ("Method " ++ Report.token token ++ " not found")⟩ := by
  simp only [ofInfo, chosenLines, parseToken_text, h, text_headerLines]

end Report

namespace Command

open Report

/-- The report on a file has three lines, then a block for each method, then what there is beyond
methods.  With the token of a method, in the spelling that its block starts with or in any other,
there is only the block of the last method with that token; with a token of no method, the report
breaks off behind the three lines.  A report that checks its sums is the same if the ends of all
scopes that it has lines on fit, and else it faults. -/
theorem report_chosen (command : Command) (idText : Guid → UInt32 → String) {image : ByteArray}
    {info : DebugInfo}
    (h : DebugInfo.decodeWith { applyTokenRemap := !command.rawTokens } image = .ok info) :
    (∀ before method after, info.methods.toList = before ++ method :: after →
      (∀ later ∈ after, later.token ≠ method.token) →
      let whole : Report.Outcome := ⟨headerText info idText
        ++ (String.join (before.map (blockText info)) ++ blockText info method
          ++ String.join (after.map (blockText info)))
        ++ trailerText info, none⟩
      let chosen : Report.Outcome := ⟨headerText info idText ++ blockText info method
        ++ trailerText info, none⟩
      (methodLines info method).head? = some ((Spelling.printed method.token).text ++ " "
          ++ digits 4 method.segment.toNat ++ ":" ++ digits 8 method.address.toNat ++ " "
          ++ method.name.getD "<unnamed>") ∧
        report { command with token := none } image idText = whole ∧
        report? { command with token := none } image idText
          = (if ∀ other ∈ info.methods.toList, ∀ scope ∈ other.scope.walk, scope.Fits then
              some whole
            else none) ∧
        ∀ spelling : Spelling method.token,
          report { command with token := some spelling.text } image idText = chosen ∧
          report? { command with token := some spelling.text } image idText
            = if ∀ scope ∈ method.scope.walk, scope.Fits then some chosen else none) ∧
    ∀ token, (∀ method ∈ info.methods.toList, method.token ≠ token) →
      ∀ spelling : Spelling token,
        let missing : Report.Outcome :=
          ⟨headerText info idText, some ("Method " ++ Report.token token ++ " not found")⟩
        report { command with token := some spelling.text } image idText = missing ∧
          report? { command with token := some spelling.text } image idText = some missing := by
  have indexed := DebugInfo.indexed_of_decodeWith h
  have hreport : ∀ choice,
      report { command with token := choice } image idText = ofInfo info choice idText := by
    intro choice
    rw [report, h]
  have hchecked : report? { command with token := none } image idText = dump? info idText := by
    rw [report?, h]
  have hcheckedOf : ∀ choice, report? { command with token := some choice } image idText
      = dumpOf? info choice idText := by
    intro choice
    rw [report?, h]
  refine ⟨?known, ?unknown⟩
  case known =>
    intro before method after hmethods hlater whole chosen
    have hlast : info.method? method.token = some method := by
      rw [DebugInfo.method?_eq_getLast? indexed, getLast?_filter_eq_some_iff]
      exact ⟨before, after, hmethods, rfl, hlater⟩
    have hwhole : ofInfo info none idText = whole := by
      rw [ofInfo_none, hmethods, List.map_append, List.map_cons, String.join_append,
        String.join_cons]
      simp only [whole, String.append_assoc]
    refine ⟨head?_methodLines info method, ?_, ?_, fun spelling => ⟨?_, ?_⟩⟩
    · rw [hreport, hwhole]
    · rw [hchecked, dump?_eq, hwhole]
    · rw [hreport, ofInfo_of_method? hlast]
    · rw [hcheckedOf, dumpOf?_eq_of_method? (parseToken_text spelling) hlast,
        ofInfo_of_method? hlast]
  case unknown =>
    intro token absent spelling missing
    have hnone : info.method? token = none := by
      rw [DebugInfo.method?_eq_getLast? indexed, getLast?_filter_eq_none_iff]
      exact absent
    constructor
    · rw [hreport, ofInfo_of_method?_none hnone]
    · rw [hcheckedOf, dumpOf?_eq_of_method?_none (parseToken_text spelling) hnone,
        ofInfo_of_method?_none hnone]

/-- A method with imports of its own has no line on them. -/
theorem importLines_of_forwardToken {info : DebugInfo} {method last : Method}
    (hlast : info.method? method.token = some last) (hown : last.forwardToken = none)
    (htoken : last.token = method.token) : importLines info method = [] := by
  have himports : info.usingInfo? method.token
      = some ⟨last.token, last.usingCounts, last.scope⟩ := by
    rw [DebugInfo.usingInfo?, hlast, Option.bind_some, DebugInfo.followForwards, hown]
  rw [importLines, himports]
  exact if_pos htoken

/-- Two of three methods share a token.  The first one has a block whose end does not fit. -/
def sharedDraft : ImageDraft where
  modules := [{
    ModuleDraft.ofName "a.obj" with
    symbols := some (SymbolRegion.ofCommands [
      .method 0x06000abc 1 16 32 "a", .block 32 0xfffffff8, .close 6, .close 6,
      .method 0x06000abc 2 16 33 "b", .close 6,
      .method 0x06000001 3 16 34 "c", .close 6]).bytes }]

def sharedHeader : String :=
  "Debug ID: 2c1cb8f7-8f0e-4b5e-9b07-3e6f3c9a8d11-1\nModules: 1\nMethods: 3\n"

/-- A block in front of and behind the line on imports, and what decides about that line. -/
structure BlockParts where
  token : UInt32
  forwardToken : Option UInt32
  fits : Bool
  before : List String
  behind : List String
  deriving DecidableEq

def BlockParts.ofMethod (info : DebugInfo) (method : Method) : BlockParts where
  token := method.token
  forwardToken := method.forwardToken
  fits := (method.scope.outline 0).all (·.2.Fits)
  before := methodHeading method ::
    (method.scope.outline 0).flatMap fun (depth, scope) => scopeLines depth scope
  behind := stateMachineLines method ++ method.lines.flatMap (tableLines info)

theorem exists_parts_sharedDraft :
    ∃ info, DebugInfo.decode sharedDraft.image = .ok info ∧
      (headerText info debugIdText, trailerText info,
          info.methods.toList.map (BlockParts.ofMethod info))
        = (sharedHeader, "", [
          ⟨0x06000abc, none, false, ["0x06000abc 0001:00000010 a", "    scope +0x0..+0x20",
            "      scope +0x10..+0x8"], []⟩,
          ⟨0x06000abc, none, true, ["0x06000abc 0002:00000010 b", "    scope +0x0..+0x21"], []⟩,
          ⟨0x06000001, none, true, ["0x06000001 0003:00000010 c", "    scope +0x0..+0x22"],
            []⟩]) := by
  have writable : sharedDraft.Writable [] :=
    .of_modules rfl rfl rfl rfl nofun (by decide +kernel) (by decide +kernel) (by decide +kernel)
      (by decide +kernel) (by decide +kernel)
  apply DebugInfo.exists_decode_image writable
  unfold ImageDraft.decoded ImageDraft.readModules ModuleDraft.readWith
    ModuleDescriptor.readStream ModuleDescriptor.readMethodsWithLines DebugInfo.remapMethods
  simp only [Method.sort_eq_insertSort]
  decide +kernel

theorem blockText_of_ofMethod {info : DebugInfo} {method last : Method} {parts : BlockParts}
    (hparts : BlockParts.ofMethod info method = parts)
    (hlast : info.method? method.token = some last) (hown : last.forwardToken = none)
    (htoken : last.token = method.token) :
    blockText info method = String.join ((parts.before ++ parts.behind).map (· ++ "\n")) := by
  have himports := importLines_of_forwardToken hlast hown htoken
  rw [← hparts, blockText, methodLines, himports, BlockParts.ofMethod]
  simp only [List.append_nil, List.append_assoc, List.cons_append]

theorem fits_ofMethod {info : DebugInfo} {method : Method} :
    (BlockParts.ofMethod info method).fits = true ↔ ∀ scope ∈ method.scope.walk, scope.Fits := by
  rw [Scope.walk_eq_outline, List.forall_mem_map, BlockParts.ofMethod]
  simp only [List.all_eq_true, decide_eq_true_eq]

def firstBlock : String :=
  "0x06000abc 0001:00000010 a\n    scope +0x0..+0x20\n      scope +0x10..+0x8\n"

def secondBlock : String := "0x06000abc 0002:00000010 b\n    scope +0x0..+0x21\n"

def thirdBlock : String := "0x06000001 0003:00000010 c\n    scope +0x0..+0x22\n"

theorem exists_blocks_sharedDraft :
    ∃ info first second third, DebugInfo.decode sharedDraft.image = .ok info ∧
      info.methods.toList = [first, second, third] ∧
      [first, second, third].map Method.token = [0x06000abc, 0x06000abc, 0x06000001] ∧
      headerText info debugIdText = sharedHeader ∧ trailerText info = "" ∧
      [first, second, third].map (blockText info) = [firstBlock, secondBlock, thirdBlock] ∧
      (¬ ∀ scope ∈ first.scope.walk, scope.Fits) ∧ ∀ scope ∈ second.scope.walk, scope.Fits := by
  obtain ⟨info, hinfo, hsaid⟩ := exists_parts_sharedDraft
  obtain ⟨hheader, htrailer, hparts⟩ := by simpa only [Prod.mk.injEq] using hsaid
  have hlength : info.methods.toList.length = 3 := by
    rw [← List.length_map (BlockParts.ofMethod info), hparts]
    rfl
  obtain ⟨first, second, third, hthree⟩ := List.length_eq_three.mp hlength
  rw [hthree] at hparts
  obtain ⟨hfirst, hsecond, hthird, -⟩ := by
    simpa only [List.map_cons, List.map_nil, List.cons.injEq] using hparts
  have hfirstToken : first.token = 0x06000abc := congrArg BlockParts.token hfirst
  have hsecondToken : second.token = 0x06000abc := congrArg BlockParts.token hsecond
  have hthirdToken : third.token = 0x06000001 := congrArg BlockParts.token hthird
  have hsecondOwn : second.forwardToken = none := congrArg BlockParts.forwardToken hsecond
  have hthirdOwn : third.forwardToken = none := congrArg BlockParts.forwardToken hthird
  have hlookup : ∀ token, info.method? token
      = ([first, second, third].filter (·.token = token)).getLast? := fun token => by
    rw [DebugInfo.method?_eq_getLast? (DebugInfo.indexed_of_decodeWith hinfo), hthree]
  have hshared : info.method? 0x06000abc = some second := by
    simp [hlookup, hfirstToken, hsecondToken, hthirdToken]
  have hother : info.method? 0x06000001 = some third := by
    simp [hlookup, hfirstToken, hsecondToken, hthirdToken]
  refine ⟨info, first, second, third, hinfo, hthree, ?_, hheader, htrailer, ?_, fun hall => ?_,
    fits_ofMethod.mp (congrArg BlockParts.fits hsecond)⟩
  · rw [List.map_cons, List.map_cons, List.map_cons, List.map_nil, hfirstToken, hsecondToken,
      hthirdToken]
  · have hfirstText := blockText_of_ofMethod hfirst (hfirstToken ▸ hshared) hsecondOwn
      (hsecondToken.trans hfirstToken.symm)
    have hsecondText := blockText_of_ofMethod hsecond (hsecondToken ▸ hshared) hsecondOwn rfl
    have hthirdText := blockText_of_ofMethod hthird (hthirdToken ▸ hother) hthirdOwn rfl
    rw [List.map_cons, List.map_cons, List.map_cons, List.map_nil, hfirstText, hsecondText,
      hthirdText]
    decide +kernel
  · have hfits := congrArg BlockParts.fits hfirst
    rw [fits_ofMethod.mpr hall] at hfits
    cases hfits

/-- A token in upper case, without its leading zero, behind two marks and a plus sign. -/
def markedSpelling : Spelling 0x06000abc where
  marks := 2
  signed := true
  zeros := 1
  digits := ['6', '0', '0', '0', 'A', 'B', 'C']
  digits_ne_nil := by decide
  digits_eq := by simp [Hex.padded, Hex.digits, Hex.digit]

/-- The second of the methods that share the token is reported.  The whole report, which has the
block of the first one, shows an end that is too low or faults. -/
theorem report_chosen_sharedDraft :
    report {} sharedDraft.image
        = ⟨sharedHeader ++ (firstBlock ++ secondBlock ++ thirdBlock), none⟩ ∧
      report? {} sharedDraft.image debugIdText = none ∧
      report { token := some "0x0x+6000ABC" } sharedDraft.image
        = ⟨sharedHeader ++ secondBlock, none⟩ ∧
      report? { token := some "0x0x+6000ABC" } sharedDraft.image debugIdText
        = some ⟨sharedHeader ++ secondBlock, none⟩ ∧
      report { token := some "0x06000002" } sharedDraft.image
        = ⟨sharedHeader, some "Method 0x06000002 not found"⟩ := by
  obtain ⟨info, first, second, third, hinfo, hthree, htokens, hheader, htrailer, hblocks, hfirst,
    hsecond⟩ := exists_blocks_sharedDraft
  obtain ⟨hfirstToken, hsecondToken, hthirdToken, -⟩ := by
    simpa only [List.map_cons, List.map_nil, List.cons.injEq] using htokens
  obtain ⟨hfirstText, hsecondText, hthirdText, -⟩ := by
    simpa only [List.map_cons, List.map_nil, List.cons.injEq] using hblocks
  obtain ⟨hknown, hunknown⟩ := report_chosen {} debugIdText hinfo
  obtain ⟨-, hwhole, hwhole?, hchosen⟩ := hknown [first] second [third] hthree
    (by simp [hsecondToken, hthirdToken])
  rw [hsecondToken] at hchosen
  obtain ⟨hreport, hreport?⟩ := hchosen markedSpelling
  have hspelled : markedSpelling.text = "0x0x+6000ABC" := by decide
  have hmissing : Report.token 0x06000002 = "0x06000002" := by decide +kernel
  obtain ⟨habsent, -⟩ := hunknown 0x06000002
    (by simp [hthree, hfirstToken, hsecondToken, hthirdToken]) (.printed _)
  rw [Spelling.text_printed, hmissing, hheader] at habsent
  rw [hspelled, hheader, htrailer, hsecondText, String.append_empty] at hreport
  rw [hspelled, if_pos hsecond, hheader, htrailer, hsecondText, String.append_empty] at hreport?
  refine ⟨?_, hwhole?.trans (if_neg fun hall => ?_), hreport, hreport?, habsent⟩
  · rw [hwhole, hheader, htrailer, hsecondText, String.append_empty]
    simp only [List.map_cons, List.map_nil, String.join_cons, String.join_nil, String.append_empty,
      hfirstText, hthirdText]
  · exact hfirst (hall first (by simp [hthree]))

end Command

end ManagedPdb
