import LatexCore.Reviews.Composer
import Mathlib.Algebra.Order.Ring.Rat
import Mathlib.Data.List.GetD
import Mathlib.Tactic.IntervalCases

/-! # Annotations that the server accepts

Whatever happens on the page, what is pending comes from one scenario: a source
selection and the last answer to its forward request, a dragged rectangle and the answer
to its inverse request, a thread in focus, or nothing. From the scenario alone one reads
off whether the server accepts what the composer sends.
-/
namespace LatexCore.Reviews
open Core Foundation Workspace

section Scenarios
variable {K : Type} [Field K] [LinearOrder K]

/-- Where the pending anchor comes from. -/
inductive Scenario (K : Type) [Field K] [LinearOrder K]
  | nothing
  | source (selection : SourceSelection) (answer : Option (ForwardAnswer K))
  | region (region : Region K)
  | thread (answer : ForwardAnswer K)

/-- The answer places a box on a page of the loaded document. -/
def ForwardAnswer.Projects (answer : ForwardAnswer K) : Prop :=
  answer.view.isSome ∧ (∃ page, answer.reply.page = some page ∧ page ≠ 0) ∧ answer.reply.x.isSome

def FitsI32 (page : ℕ) (line column : Option ℕ) : Prop :=
  page ≤ i32Max ∧ (∀ n ∈ line, n ≤ i32Max) ∧ ∀ n ∈ column, n ≤ i32Max

variable (r : Rounding K) (sha256 : List Char → Fin 32 → UInt8) (encodePosition : ℕ → Bytes)

def Scenario.parts : Scenario K → Option SourceAnchor × Option (PdfAnchorDraft K)
  | .nothing => (none,none)
  | .source selection answer =>
    (some (selection.anchor sha256 encodePosition),answer.bind r.pdfAnchorFromMapping)
  | .region dragged => (dragged.mappedLine sha256 encodePosition,some (dragged.anchor r))
  | .thread answer => (none,r.pdfAnchorFromMapping answer)

/-- The scenario is made of inputs of the run. -/
def Scenario.Within (events : List (PageEvent K)) : Scenario K → Prop
  | .nothing => True
  | .source selection answer => PageEvent.sourceSelected selection ∈ events ∧
      ∀ a ∈ answer, ∃ n, PageEvent.forwardAnswered n a ∈ events
  | .region dragged => PageEvent.regionDragged dragged ∈ events ∧ dragged.tooSmall r = false
  | .thread answer => PageEvent.threadFocused answer ∈ events ∧ answer.Projects

/-- No forward answer has placed a box for the selection; the inverse answer names no source file;
a projected box is on the page. -/
def Scenario.Acceptable : Scenario K → Prop
  | .nothing => False
  | .source _ answer => ∀ a ∈ answer, ¬a.Projects
  | .region dragged => (∀ id ∈ dragged.reply.mappedFileId, id ∉ dragged.files) ∧
      FitsI32 dragged.page (dragged.reply.mappedLine.filter (· ≠ 0)) dragged.reply.mappedColumn
  | .thread answer => ∀ draft ∈ r.pdfAnchorFromMapping answer,
      validRectangles r draft.normalizedRectangles = true ∧
        FitsI32 draft.page answer.reply.mappedLine answer.reply.mappedColumn

variable {r sha256 encodePosition}

theorem projects_iff {answer : ForwardAnswer K} : (r.pdfAnchorFromMapping answer).isSome ↔ answer.Projects := by
  obtain ⟨view,fileId,reply⟩ := answer
  obtain ⟨status,page,x,y,width,height,mappedFileId,mappedLine,mappedColumn⟩ := reply
  cases view with
  | none => simp [Rounding.pdfAnchorFromMapping,ForwardAnswer.Projects]
  | some view =>
    cases page with
    | none => simp [Rounding.pdfAnchorFromMapping,ForwardAnswer.Projects]
    | some page =>
      cases x with
      | none => simp [Rounding.pdfAnchorFromMapping,ForwardAnswer.Projects]
      | some x =>
        by_cases hpage : page = 0
        · simp [Rounding.pdfAnchorFromMapping,ForwardAnswer.Projects,hpage,Option.filter]
        · simp [Rounding.pdfAnchorFromMapping,ForwardAnswer.Projects,hpage,Option.filter]

theorem projects_of_some {answer : ForwardAnswer K} {draft : PdfAnchorDraft K}
    (h : r.pdfAnchorFromMapping answer = some draft) : answer.Projects :=
  projects_iff.mp (Option.isSome_iff_exists.mpr ⟨draft,h⟩)

theorem Scenario.Within.mono {events more : List (PageEvent K)} {scenario : Scenario K}
    (h : scenario.Within r events) (hsub : events ⊆ more) : scenario.Within r more := by
  cases scenario with
  | nothing => trivial
  | source selection answer =>
    refine ⟨hsub h.1,fun a ha => ?_⟩
    obtain ⟨n,hn⟩ := h.2 a ha
    exact ⟨n,hsub hn⟩
  | region region => exact ⟨hsub h.1,h.2⟩
  | thread answer => exact ⟨hsub h.1,h.2⟩

structure Explains (r : Rounding K) (sha256 : List Char → Fin 32 → UInt8) (encodePosition : ℕ → Bytes)
    (events : List (PageEvent K)) (page : ReviewPage K) (scenario : Scenario K) : Prop where
  within : scenario.Within r events
  parts : (page.pendingAnchor.bind Pending.sourceAnchor,page.pendingAnchor.bind Pending.pdfAnchor) =
    scenario.parts r sha256 encodePosition
  selected : ∀ pending ∈ page.pendingAnchor, pending.selection.isSome →
    ∃ selection answer, scenario = .source selection answer

theorem explains_nothing {events : List (PageEvent K)} {page : ReviewPage K} (h : page.pendingAnchor = none) :
    Explains r sha256 encodePosition events page .nothing :=
  ⟨trivial,by simp [h,Scenario.parts],by simp [h]⟩

theorem Explains.mono {events more : List (PageEvent K)} {page : ReviewPage K} {scenario : Scenario K}
    (h : Explains r sha256 encodePosition events page scenario) (hsub : events ⊆ more) :
    Explains r sha256 encodePosition more page scenario :=
  ⟨h.within.mono hsub,h.parts,h.selected⟩

theorem Explains.step {events : List (PageEvent K)} {page : ReviewPage K} {scenario : Scenario K}
    (h : Explains r sha256 encodePosition events page scenario) (event : PageEvent K) :
    ∃ next, Explains r sha256 encodePosition (events ++ [event])
      (page.step r sha256 encodePosition event) next := by
  have hold := h.mono (List.subset_append_left events [event])
  have hmem : event ∈ events ++ [event] := by simp
  cases event with
  | sourceSelected selection =>
    exact ⟨.source selection none,⟨hmem,by simp⟩,rfl,fun _ _ _ => ⟨_,_,rfl⟩⟩
  | forwardAnswered selected answer =>
    cases hpending : page.pendingAnchor with
    | none =>
      refine ⟨.nothing,explains_nothing ?_⟩
      simp [ReviewPage.step,hpending]
    | some pending =>
      by_cases hselected : pending.selection = some selected
      · obtain ⟨selection,earlier,rfl⟩ := h.selected pending hpending (by simp [hselected])
        have hparts := h.parts
        rw [hpending] at hparts
        refine ⟨.source selection (some answer),⟨hold.within.1,?_⟩,?_,fun _ _ _ => ⟨_,_,rfl⟩⟩
        · intro a ha
          obtain rfl := Option.some.inj ha
          exact ⟨selected,hmem⟩
        · simp only [ReviewPage.step,hpending,Option.map_some,Option.bind_some,hselected,if_true,
            Scenario.parts,Prod.mk.injEq] at hparts ⊢
          exact ⟨hparts.1,trivial⟩
      · have hsame : page.step r sha256 encodePosition (.forwardAnswered selected answer) = page := by
          obtain ⟨open_,pendingAnchor,selections⟩ := page
          obtain rfl := hpending
          simp [ReviewPage.step,hselected]
        rw [hsame]
        exact ⟨scenario,hold⟩
  | regionDragged region =>
    cases hsmall : region.tooSmall r with
    | true =>
      simp only [ReviewPage.step,hsmall,if_true]
      exact ⟨scenario,hold⟩
    | false =>
      simp only [ReviewPage.step,hsmall,Bool.false_eq_true,if_false]
      exact ⟨.region region,⟨hmem,hsmall⟩,rfl,by simp⟩
  | threadFocused answer =>
    cases hprojection : r.pdfAnchorFromMapping answer with
    | none =>
      simp only [ReviewPage.step,hprojection]
      exact ⟨scenario,hold⟩
    | some projection =>
      simp only [ReviewPage.step,hprojection]
      exact ⟨.thread answer,⟨hmem,projects_of_some hprojection⟩,by simp [Scenario.parts,hprojection],by simp⟩
  | paperOpened => exact ⟨.nothing,explains_nothing rfl⟩
  | composerHidden => exact ⟨.nothing,explains_nothing rfl⟩
  | roundsRefreshed reviewOpen =>
    cases reviewOpen with
    | true =>
      simp only [ReviewPage.step,if_true]
      exact ⟨scenario,hold.within,hold.parts,hold.selected⟩
    | false =>
      simp only [ReviewPage.step,Bool.false_eq_true,if_false]
      exact ⟨.nothing,explains_nothing rfl⟩

theorem page_explained (r : Rounding K) (sha256 : List Char → Fin 32 → UInt8) (encodePosition : ℕ → Bytes)
    (events : List (PageEvent K)) :
    ∃ scenario, Explains r sha256 encodePosition events (ReviewPage.after r sha256 encodePosition events)
      scenario := by
  induction events using List.reverseRecOn with
  | nil => exact ⟨.nothing,explains_nothing rfl⟩
  | append_singleton events event ih =>
    obtain ⟨scenario,h⟩ := ih
    rw [ReviewPage.after,List.foldl_append]
    exact h.step event

/-! ## Acceptance -/

def Accepted (r : Rounding K) (request : ThreadRequest K) : Prop :=
  request.decodes = true ∧ validateThread r request = .ok ()

omit [Field K] [LinearOrder K] in
theorem createAnnotation_ok {page : ReviewPage K} {type : AnnotationType} {typed : List Char}
    {request : ThreadRequest K} (h : createAnnotation page type typed = .ok request) :
    jsTrim typed ≠ [] ∧ ¬(type = .suggestion ∧ request.sourceAnchor = none) ∧
      request.threadType = type.text ∧ request.message = jsTrim typed ∧ request.severity = "NOTE" ∧
      request.category = "WRITING" ∧ request.assignedWriterUserId = none ∧ request.dueAt = none ∧
      request.suggestedReplacement = (if type = .suggestion then some (jsTrim typed) else none) ∧
      (request.sourceAnchor,request.pdfAnchor) =
        (page.pendingAnchor.bind Pending.sourceAnchor,page.pendingAnchor.bind Pending.pdfAnchor) := by
  simp only [ createAnnotation,bind_ok,ensure_ok,pure_ok,decide_eq_true_eq,Option.isNone_iff_eq_none] at h
  obtain ⟨-,-,-,hmessage,-,hsource,rfl⟩ := h
  exact ⟨hmessage,hsource,rfl,rfl,rfl,rfl,rfl,rfl,rfl,rfl⟩

omit [Field K] [LinearOrder K] in
theorem decodes_iff {request : ThreadRequest K} :
    request.decodes = true ↔ ∀ draft ∈ request.pdfAnchor, FitsI32 draft.page draft.mappedLine draft.mappedColumn := by
  cases hpdf : request.pdfAnchor with
  | none => simp [ThreadRequest.decodes,hpdf]
  | some draft =>
    obtain ⟨page,rectangles,status,fileId,line,column⟩ := draft
    cases line <;> cases column <;> simp [ThreadRequest.decodes,hpdf,FitsI32,and_assoc]

theorem accepted_iff {page : ReviewPage K} {type : AnnotationType} {typed : List Char}
    {request : ThreadRequest K} (h : createAnnotation page type typed = .ok request) :
    Accepted r request ↔ badText (jsTrim typed) = false ∧
      ((∃ anchor, request.sourceAnchor = some anchor ∧ request.pdfAnchor = none ∧
          validSourceAnchor anchor = true) ∨
        ∃ draft, request.sourceAnchor = none ∧ request.pdfAnchor = some draft ∧
          validPdfAnchor r draft = true ∧ FitsI32 draft.page draft.mappedLine draft.mappedColumn) := by
  obtain ⟨-,hsuggestion,htype,hmessage,hseverity,hcategory,hassigned,hdue,hreplacement,-⟩ :=
    createAnnotation_ok h
  rw [Accepted,decodes_iff]
  obtain ⟨threadType,message,severity,category,assigned,dueAt,source,pdf,replacement,label⟩ := request
  dsimp only at htype hmessage hseverity hcategory hassigned hdue hreplacement hsuggestion
  subst htype hmessage hseverity hcategory hassigned hdue hreplacement
  cases hsource : source with
  | none =>
    cases hpdf : pdf with
    | none => simp [validateThread,bind_ok]
    | some draft =>
      cases type with
      | suggestion => exact absurd ⟨rfl,hsource⟩ hsuggestion
      | comment =>
        have hchecks : validateThread r (⟨AnnotationType.comment.text,jsTrim typed,"NOTE","WRITING",none,none,none,
            some draft,none,label⟩ : ThreadRequest K) = .ok () ↔
            badText (jsTrim typed) = false ∧ validPdfAnchor r draft = true := by
          simp [validateThread,bind_ok,threadTypes,AnnotationType.text]
        simp only [reduceCtorEq,if_false,hchecks,Option.mem_some_iff,forall_eq',false_and,exists_false,
          true_and,Option.some.injEq,exists_eq_left',false_or]
        exact ⟨fun h => ⟨h.2.1,h.2.2,h.1⟩,fun h => ⟨h.2.2,h.1,h.2.1⟩⟩
  | some anchor =>
    cases hpdf : pdf with
    | none => cases type <;> simp [validateThread,bind_ok,threadTypes,AnnotationType.text]
    | some draft => simp [validateThread,bind_ok]

theorem hexDigit_valid (n : ℕ) : ('0' ≤ hexDigit n ∧ hexDigit n ≤ '9') ∨ ('a' ≤ hexDigit n ∧ hexDigit n ≤ 'f') := by
  by_cases hn : n < 16
  · interval_cases n <;> decide
  · have hdefault : hexDigit n = '0' := by
      have hlength : "0123456789abcdef".toList.length ≤ n := by
        have hsixteen : "0123456789abcdef".toList.length = 16 := by decide
        omega
      exact List.getD_eq_default _ _ hlength
    rw [hdefault]
    decide

theorem isDigestText_hexDigest (sha256 : List Char → Fin 32 → UInt8) (text : List Char) :
    isDigestText (hexDigest sha256 text) = true := by
  have hlength : ((List.ofFn (sha256 text)).flatMap (fun byte => hexDigits 2 byte.toNat)).length = 64 := by
    simp [hexDigits]
  have hdigits : ∀ c ∈ (List.ofFn (sha256 text)).flatMap (fun byte => hexDigits 2 byte.toNat),
      ('0' ≤ c ∧ c ≤ '9') ∨ ('a' ≤ c ∧ c ≤ 'f') := by
    intro c hc
    obtain ⟨byte,-,hc⟩ := List.mem_flatMap.mp hc
    simp only [hexDigits,List.nil_append,List.cons_append,List.mem_cons,List.not_mem_nil,or_false] at hc
    rcases hc with rfl | rfl
    · exact hexDigit_valid _
    · exact hexDigit_valid _
  rw [isDigestText,hexDigest,String.toList_ofList,Bool.and_eq_true]
  refine ⟨by rw [hlength]; rfl,List.all_eq_true.mpr fun c hc => ?_⟩
  simpa using hdigits c hc

theorem selection_anchor_valid (selection : SourceSelection) (sha256 : List Char → Fin 32 → UInt8)
    (encodePosition : ℕ → Bytes) : validSourceAnchor (selection.anchor sha256 encodePosition) = true := by
  have hquoted : sliceDoc selection.doc selection.start selection.stop ≠ [] := by
    have hnonempty := selection.nonempty
    have hinside := selection.inside
    intro hempty
    have hlength := congrArg List.length hempty
    simp only [sliceDoc,List.length_drop,List.length_take,List.length_nil] at hlength
    omega
  simp [validSourceAnchor,SourceSelection.anchor,isDigestText_hexDigest,hquoted]

theorem badText_iff {typed : List Char} (hlength : typed.length ≤ 20000) :
    badText (jsTrim typed) = false ↔ ∃ c ∈ jsTrim typed, isWhitespace c = false := by
  have htrim : (jsTrim typed).length ≤ typed.length := by
    rw [jsTrim,List.length_reverse]
    refine (List.length_dropWhile_le _ _).trans ?_
    rw [List.length_reverse]
    exact List.length_dropWhile_le _ _
  have hshort : ¬20000 < (jsTrim typed).length := by omega
  simp [badText,hshort]

theorem mappedLine_eq_none_iff {region : Region K} : region.mappedLine sha256 encodePosition = none ↔
    ∀ id ∈ region.reply.mappedFileId, id ∉ region.files := by
  cases hmapped : region.reply.mappedFileId with
  | none => simp [Region.mappedLine,hmapped]
  | some id =>
    cases hfind : region.files.find? (· = id) with
    | none =>
      have hnot := List.find?_eq_none.mp hfind
      have hid : id ∉ region.files := fun hmem => hnot id hmem (by simp)
      simp [Region.mappedLine,hmapped,hfind,hid]
    | some target =>
      have htarget : target = id := by simpa using List.find?_some hfind
      have hid : id ∈ region.files := htarget ▸ List.mem_of_find?_eq_some hfind
      simp [Region.mappedLine,hmapped,hfind,hid]

theorem mem_mappingStates (status : ReplyStatus) : mappingStates.contains status.text = true := by
  cases status <;> decide

/-- The request is accepted, has one anchor, and its rectangles lie on the page and are not empty. -/
structure Composed (r : Rounding K) (request : ThreadRequest K) : Prop where
  accepted : Accepted r request
  oneAnchor : request.sourceAnchor.isSome ≠ request.pdfAnchor.isSome
  onPage : ∀ draft ∈ request.pdfAnchor, ∀ rectangle ∈ draft.normalizedRectangles,
    validRectangle r rectangle = true

theorem composed_iff {page : ReviewPage K} {type : AnnotationType} {typed : List Char}
    {request : ThreadRequest K} (h : createAnnotation page type typed = .ok request) :
    Composed r request ↔ Accepted r request := by
  refine ⟨Composed.accepted,fun haccepted => ?_⟩
  obtain ⟨-,⟨anchor,hsource,hpdf,-⟩ | ⟨draft,hsource,hpdf,hvalid,-⟩⟩ := (accepted_iff h).mp haccepted
  · exact ⟨haccepted,by simp [hsource,hpdf],by simp [hpdf]⟩
  · refine ⟨haccepted,by simp [hsource,hpdf],?_⟩
    simp only [validPdfAnchor,validRectangles,Bool.and_eq_true] at hvalid
    intro other hother
    obtain rfl := Option.some.inj (hpdf.symm.trans hother)
    exact List.all_eq_true.mp hvalid.2.2

theorem projection_shape {answer : ForwardAnswer K} {draft : PdfAnchorDraft K}
    (h : r.pdfAnchorFromMapping answer = some draft) :
    1 ≤ draft.page ∧ mappingStates.contains draft.mappingStatus = true ∧
      draft.mappedLine = answer.reply.mappedLine ∧ draft.mappedColumn = answer.reply.mappedColumn := by
  simp only [Rounding.pdfAnchorFromMapping,Option.bind_eq_bind,Option.bind_eq_some_iff,Option.pure_def,
    Option.filter_eq_some_iff,decide_eq_true_eq] at h
  obtain ⟨view,-,page,⟨-,hpage⟩,x,-,hdraft⟩ := h
  obtain rfl := Option.some.inj hdraft
  exact ⟨Nat.one_le_iff_ne_zero.mpr hpage,mem_mappingStates _,rfl,rfl⟩

variable [IsStrictOrderedRing K]

theorem parts_accepted_iff {events : List (PageEvent K)} {scenario : Scenario K}
    (h : scenario.Within r events) :
    ((∃ anchor, scenario.parts r sha256 encodePosition = (some anchor,none) ∧ validSourceAnchor anchor = true) ∨
      ∃ draft, scenario.parts r sha256 encodePosition = (none,some draft) ∧ validPdfAnchor r draft = true ∧
        FitsI32 draft.page draft.mappedLine draft.mappedColumn) ↔ scenario.Acceptable r := by
  cases scenario with
  | nothing => simp [Scenario.parts,Scenario.Acceptable]
  | source selection answer =>
    have hnone : ∀ a, r.pdfAnchorFromMapping a = none ↔ ¬a.Projects := by
      intro a
      rw [← Option.not_isSome_iff_eq_none,projects_iff]
    simp [Scenario.parts,Scenario.Acceptable,selection_anchor_valid,hnone]
  | region region =>
    have hvalid : validPdfAnchor r (region.anchor r) = true := by
      simp only [validPdfAnchor,mem_mappingStates,Region.anchor,region.rectangle_valid r h.2]
      simp [region.shown]
    have hline : region.mappedLine sha256 encodePosition = none ↔
        ∀ id ∈ region.reply.mappedFileId, id ∉ region.files := mappedLine_eq_none_iff
    simp only [Scenario.parts,Scenario.Acceptable,← hline,Prod.mk.injEq,reduceCtorEq,and_false,false_and,
      exists_false,false_or,Option.some.injEq]
    constructor
    · rintro ⟨draft,⟨hnone,rfl⟩,-,hfits⟩
      exact ⟨hnone,hfits⟩
    · rintro ⟨hnone,hfits⟩
      exact ⟨region.anchor r,⟨hnone,rfl⟩,hvalid,hfits⟩
  | thread answer =>
    have hsome : (r.pdfAnchorFromMapping answer).isSome := projects_iff.mpr h.2
    obtain ⟨draft,hdraft⟩ := Option.isSome_iff_exists.mp hsome
    obtain ⟨hpage,hstatus,hline,hcolumn⟩ := projection_shape hdraft
    have hvalid : validPdfAnchor r draft = validRectangles r draft.normalizedRectangles := by
      rw [validPdfAnchor,hstatus]
      simp [hpage]
    simp [Scenario.parts,Scenario.Acceptable,hdraft,hvalid,hline,hcolumn]

/-- What the composer sends is accepted exactly when no answer has added the other half of the
anchor, a projected box lies on the page, and the text has a character that is not white space. -/
theorem annotation_accepted_iff (r : Rounding K) (sha256 : List Char → Fin 32 → UInt8) (encodePosition : ℕ → Bytes)
    (events : List (PageEvent K)) {type : AnnotationType} {typed : List Char} (hlength : typed.length ≤ 20000)
    {request : ThreadRequest K}
    (h : createAnnotation (ReviewPage.after r sha256 encodePosition events) type typed = .ok request) :
    ∃ scenario, Explains r sha256 encodePosition events (ReviewPage.after r sha256 encodePosition events)
        scenario ∧
      (Composed r request ↔ scenario.Acceptable r ∧ ∃ c ∈ jsTrim typed, isWhitespace c = false) := by
  obtain ⟨scenario,hscenario⟩ := page_explained r sha256 encodePosition events
  obtain ⟨-,-,-,-,-,-,-,-,-,hparts⟩ := createAnnotation_ok h
  rw [hscenario.parts] at hparts
  refine ⟨scenario,hscenario,?_⟩
  rw [composed_iff h,accepted_iff h,badText_iff hlength,and_comm,← parts_accepted_iff hscenario.within,← hparts]
  simp only [Prod.mk.injEq,and_assoc]

end Scenarios

/-! ## A comment on selected text -/

def exactNumbers : Rounding ℚ := ⟨id,fun x => by simpa using div_nonneg (abs_nonneg x) (by norm_num)⟩

def samplePage : PdfView ℚ := ⟨612,792,1,by norm_num,by norm_num,by norm_num⟩

def draftSelection : SourceSelection :=
  ⟨10,"Draft text".toList,0,5,by decide,by decide,1,none,1⟩

/-- The endpoint places the selected line on the first page. -/
def draftReply : MappingReply ℚ := ⟨.exact,some 1,some 100,200,40,10,some 10,some 1,some 0⟩

def selectedEvents : List (PageEvent ℚ) := [.roundsRefreshed true,.sourceSelected draftSelection]

def answeredEvents : List (PageEvent ℚ) := selectedEvents ++ [.forwardAnswered 0 ⟨some samplePage,10,draftReply⟩]

def samplePageAfter (events : List (PageEvent ℚ)) : ReviewPage ℚ :=
  ReviewPage.after exactNumbers (fun _ _ => 0) (fun n => [UInt8.ofNat n]) events

/-- Before the answer arrives the comment is accepted. -/
theorem annotation_accepted_unanswered : ∃ request,
    createAnnotation (samplePageAfter selectedEvents) .comment "Fix".toList = .ok request ∧
      Composed exactNumbers request := by
  obtain ⟨request,hrequest⟩ : ∃ request,
      createAnnotation (samplePageAfter selectedEvents) .comment "Fix".toList = .ok request := ⟨_,rfl⟩
  obtain ⟨scenario,hscenario,hiff⟩ := annotation_accepted_iff exactNumbers (fun _ _ => 0)
    (fun n => [UInt8.ofNat n]) selectedEvents (by decide) hrequest
  refine ⟨request,hrequest,hiff.mpr ⟨?_,'F',by decide,by decide⟩⟩
  exact (parts_accepted_iff hscenario.within).mp
    (.inl ⟨_,hscenario.parts.symm,selection_anchor_valid draftSelection _ _⟩)

/-- Once the answer has placed the selection on the page, the same comment carries both anchors. -/
theorem answered_comment_refused : ¬∀ (events : List (PageEvent ℚ)) (type : AnnotationType) (typed : List Char)
    (request : ThreadRequest ℚ), typed.length ≤ 20000 →
    createAnnotation (samplePageAfter events) type typed = .ok request → Composed exactNumbers request := by
  intro h
  obtain ⟨request,hrequest,hboth⟩ : ∃ request,
      createAnnotation (samplePageAfter answeredEvents) .comment "Fix".toList = .ok request ∧
        request.sourceAnchor.isSome = request.pdfAnchor.isSome := ⟨_,rfl,rfl⟩
  exact (h answeredEvents .comment "Fix".toList request (by decide) hrequest).oneAnchor hboth

end LatexCore.Reviews
