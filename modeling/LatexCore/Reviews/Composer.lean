import LatexCore.Core.Scan
import LatexCore.Reviews.Tables
import Mathlib.Algebra.Order.AbsoluteValue.Basic
import Mathlib.Algebra.Order.Field.Basic
import Mathlib.Tactic.Linarith
import Mathlib.Tactic.Ring

/-! # The composer of the review page

A mentor selects source text or drags a rectangle on the page, and the answer of the
SyncTeX endpoint adds the other half of the anchor to what is pending. The composer
sends whatever is pending when it is submitted. The server wants exactly one anchor, so
it accepts the request exactly when no answer has added the other half.
-/
namespace LatexCore.Reviews
open Core Foundation Workspace

/-- Numbers whose operations round to a relative error of at most one in `2 ^ 53`. -/
structure Rounding (K : Type) [Field K] [LinearOrder K] where
  round : K → K
  near : ∀ x, |round x - x| ≤ |x| / 2 ^ 53

structure Rectangle (K : Type) where
  x : K
  y : K
  width : K
  height : K
deriving DecidableEq

structure PdfView (K : Type) [Field K] [LinearOrder K] where
  width : K
  height : K
  scale : K
  widthPos : 0 < width
  heightPos : 0 < height
  scalePos : 0 < scale

/-- The states that the endpoint reports. -/
inductive ReplyStatus
  | exact | approximate | pdfOnly
deriving DecidableEq

def ReplyStatus.text : ReplyStatus → String
  | exact => "EXACT"
  | approximate => "APPROXIMATE"
  | pdfOnly => "PDF_ONLY"

/-- An answer of the mapping endpoint; a fallback has no page, place, file or line. -/
structure MappingReply (K : Type) where
  mappingStatus : ReplyStatus
  page : Option ℕ
  x : Option K
  y : K
  width : K
  height : K
  mappedFileId : Option Uuid
  mappedLine : Option ℕ
  mappedColumn : Option ℕ

structure PdfAnchorDraft (K : Type) where
  page : ℕ
  normalizedRectangles : List (Rectangle K)
  mappingStatus : String
  mappedFileId : Option Uuid
  mappedLine : Option ℕ
  mappedColumn : Option ℕ

/-- What `model.pendingAnchor` refers to: the selection that made the object, and its two parts. -/
structure Pending (K : Type) where
  selection : Option ℕ
  sourceAnchor : Option SourceAnchor
  pdfAnchor : Option (PdfAnchorDraft K)

/-- A selection of source text that is not empty, and what the anchor quotes of its surroundings. -/
structure SourceSelection where
  fileId : Uuid
  doc : List Char
  start : ℕ
  stop : ℕ
  nonempty : start < stop
  inside : stop ≤ doc.length
  sourceSequence : ℕ
  sourceVersionId : Option Uuid
  documentEpoch : ℕ

/-- An answer to a forward request, with the page that is shown when it is used. -/
structure ForwardAnswer (K : Type) [Field K] [LinearOrder K] where
  view : Option (PdfView K)
  fileId : Uuid
  reply : MappingReply K

/-- A rectangle dragged on a page, the answer to the inverse request, and the source files. -/
structure Region (K : Type) [Field K] [LinearOrder K] where
  view : PdfView K
  page : ℕ
  shown : 1 ≤ page
  x1 : K
  y1 : K
  x2 : K
  y2 : K
  reply : MappingReply K
  files : List Uuid
  documents : Uuid → List (List Char)
  sourceSequence : ℕ
  sourceVersionId : Option Uuid
  documentEpoch : ℕ

inductive AnnotationType
  | comment | suggestion
deriving DecidableEq

def AnnotationType.text : AnnotationType → String
  | comment => "COMMENT"
  | suggestion => "SUGGESTION"

structure ThreadRequest (K : Type) where
  threadType : String
  message : List Char
  severity : String
  category : String
  assignedWriterUserId : Option UserId
  dueAt : Option String
  sourceAnchor : Option SourceAnchor
  pdfAnchor : Option (PdfAnchorDraft K)
  suggestedReplacement : Option (List Char)
  sectionLabel : Option String

structure ReviewPage (K : Type) where
  reviewOpen : Bool
  pendingAnchor : Option (Pending K)
  selections : ℕ

inductive PageEvent (K : Type) [Field K] [LinearOrder K]
  | sourceSelected (selection : SourceSelection)
  | forwardAnswered (selection : ℕ) (answer : ForwardAnswer K)
  | regionDragged (region : Region K)
  | threadFocused (answer : ForwardAnswer K)
  | paperOpened
  | composerHidden
  | roundsRefreshed (reviewOpen : Bool)

/-! ## What the page builds -/

/-- `String.prototype.trim` strips these. -/
def isJsSpace (c : Char) : Bool :=
  let n := c.toNat
  (9 ≤ n && n ≤ 13) || n == 0x20 || n == 0xa0 || n == 0x1680 || (0x2000 ≤ n && n ≤ 0x200a) ||
    n == 0x2028 || n == 0x2029 || n == 0x202f || n == 0x205f || n == 0x3000 || n == 0xfeff

def jsTrim (text : List Char) : List Char :=
  ((text.dropWhile isJsSpace).reverse.dropWhile isJsSpace).reverse

def sliceDoc (doc : List Char) (start stop : ℕ) : List Char := (doc.take stop).drop start

section Anchors
variable (sha256 : List Char → Fin 32 → UInt8) (encodePosition : ℕ → Bytes)

def hexDigest (text : List Char) : String :=
  String.ofList ((List.ofFn (sha256 text)).flatMap (fun byte => hexDigits 2 byte.toNat))

def SourceSelection.anchor (selection : SourceSelection) : SourceAnchor where
  fileId := selection.fileId
  encodedRelativeStart := some (encodePosition selection.start)
  encodedRelativeEnd := some (encodePosition selection.stop)
  quotedText := String.ofList (sliceDoc selection.doc selection.start selection.stop)
  contextHash := hexDigest sha256
    (sliceDoc selection.doc (selection.start - 80) (min selection.doc.length (selection.stop + 80)))
  sourceSequence := selection.sourceSequence
  sourceVersionId := selection.sourceVersionId
  documentEpoch := selection.documentEpoch

variable {K : Type} [Field K] [LinearOrder K]

/-- `anchorMappedLine`: the mapped line from the mapped column on, in the text of its file. -/
def Region.mappedLine (region : Region K) : Option SourceAnchor := do
  let mapped ← region.reply.mappedFileId
  let target ← region.files.find? (· = mapped)
  let lines := region.documents target
  let doc := ['\n'].intercalate lines
  let number := min (max (region.reply.mappedLine.getD 0) 1) lines.length
  let start := ((lines.take (number - 1)).map (fun line => line.length + 1)).sum
  let stop := start + (lines.getD (number - 1) []).length
  let start := min stop (start + region.reply.mappedColumn.getD 0)
  pure {
    fileId := target
    encodedRelativeStart := some (encodePosition start)
    encodedRelativeEnd := some (encodePosition stop)
    quotedText := String.ofList (sliceDoc doc start stop)
    contextHash := hexDigest sha256 (sliceDoc doc (start - 80) (min doc.length (stop + 80)))
    sourceSequence := region.sourceSequence
    sourceVersionId := region.sourceVersionId
    documentEpoch := region.documentEpoch }

end Anchors

namespace Rounding
variable {K : Type} [Field K] [LinearOrder K] (r : Rounding K)

def add (a b : K) : K := r.round (a + b)
def sub (a b : K) : K := r.round (a - b)
def mul (a b : K) : K := r.round (a * b)
def div (a b : K) : K := r.round (a / b)

/-- `normalizeRectangle` of a page with positive dimensions. -/
def normalizeRectangle (view : PdfView K) (x1 y1 x2 y2 : K) : Rectangle K :=
  let left := max 0 (min (min x1 x2) view.width)
  let top := max 0 (min (min y1 y2) view.height)
  let right := max 0 (min (max x1 x2) view.width)
  let bottom := max 0 (min (max y1 y2) view.height)
  ⟨r.div left view.width,r.div top view.height,r.div (r.sub right left) view.width,
    r.div (r.sub bottom top) view.height⟩

def pdfAnchorFromMapping (answer : ForwardAnswer K) : Option (PdfAnchorDraft K) := do
  let view ← answer.view
  let page ← answer.reply.page.filter (· ≠ 0)
  let x ← answer.reply.x
  let baseWidth := r.div view.width view.scale
  let baseHeight := r.div view.height view.scale
  pure {
    page := page
    normalizedRectangles := [⟨r.div x baseWidth,
      r.div (max 0 (r.sub answer.reply.y answer.reply.height)) baseHeight,
      r.div (max answer.reply.width 8) baseWidth,r.div (max answer.reply.height 8) baseHeight⟩]
    mappingStatus := answer.reply.mappingStatus.text
    mappedFileId := some answer.fileId
    mappedLine := answer.reply.mappedLine
    mappedColumn := answer.reply.mappedColumn }

end Rounding

section Page
variable {K : Type} [Field K] [LinearOrder K] (r : Rounding K)
variable (sha256 : List Char → Fin 32 → UInt8) (encodePosition : ℕ → Bytes)

def Region.rectangle (region : Region K) : Rectangle K :=
  r.normalizeRectangle region.view region.x1 region.y1 region.x2 region.y2

def Region.tooSmall (region : Region K) : Bool :=
  (region.rectangle r).width < r.round (5 / 1000) || (region.rectangle r).height < r.round (5 / 1000)

def Region.anchor (region : Region K) : PdfAnchorDraft K where
  page := region.page
  normalizedRectangles := [region.rectangle r]
  mappingStatus := region.reply.mappingStatus.text
  mappedFileId := region.reply.mappedFileId
  mappedLine := region.reply.mappedLine.filter (· ≠ 0)
  mappedColumn := region.reply.mappedColumn

def hideComposer (page : ReviewPage K) : ReviewPage K := { page with pendingAnchor := none }

/-- What the handlers do to `model.pendingAnchor` once they have waited for their answers; that the
review was open when the selection was made binds nothing later. An answer counts only while the
object of its own selection is pending. -/
def ReviewPage.step (page : ReviewPage K) : PageEvent K → ReviewPage K
  | .sourceSelected selection => { page with
      pendingAnchor := some ⟨some page.selections,some (selection.anchor sha256 encodePosition),none⟩
      selections := page.selections + 1 }
  | .forwardAnswered selection answer => { page with
      pendingAnchor := page.pendingAnchor.map (fun pending =>
        if pending.selection = some selection then
          { pending with pdfAnchor := r.pdfAnchorFromMapping answer }
        else pending) }
  | .regionDragged region =>
    if region.tooSmall r then page
    else { page with
      pendingAnchor := some ⟨none,region.mappedLine sha256 encodePosition,some (region.anchor r)⟩ }
  | .threadFocused answer =>
    match r.pdfAnchorFromMapping answer with
    | none => page
    | some projection => { page with pendingAnchor := some ⟨none,none,some projection⟩ }
  | .paperOpened => { page with pendingAnchor := none }
  | .composerHidden => hideComposer page
  | .roundsRefreshed reviewOpen =>
    if reviewOpen then { page with reviewOpen } else hideComposer { page with reviewOpen }

def ReviewPage.initial : ReviewPage K := ⟨false,none,0⟩

def ReviewPage.after (events : List (PageEvent K)) : ReviewPage K :=
  events.foldl (ReviewPage.step r sha256 encodePosition) .initial

end Page

/-- `createAnnotation` up to the request. -/
def createAnnotation {K : Type} (page : ReviewPage K) (type : AnnotationType) (typed : List Char) :
    Except String (ThreadRequest K) := do
  ensure page.reviewOpen "This paper has not been sent for review."
  let message := jsTrim typed
  ensure (message ≠ [])
    (if type = .suggestion then "Suggestion text is required." else "Comment text is required.")
  let sourceAnchor := page.pendingAnchor.bind Pending.sourceAnchor
  ensure (¬(type = .suggestion ∧ sourceAnchor.isNone)) "Suggestions require a source selection."
  pure {
    threadType := type.text
    message := message
    severity := "NOTE"
    category := "WRITING"
    assignedWriterUserId := none
    dueAt := none
    sourceAnchor := sourceAnchor
    pdfAnchor := page.pendingAnchor.bind Pending.pdfAnchor
    suggestedReplacement := if type = .suggestion then some message else none
    sectionLabel := none }

/-! ## What the server checks -/

section Server
variable {K : Type} [Field K] [LinearOrder K] (r : Rounding K)

/-- The page, line and column of a PDF anchor are decoded as `i32`. -/
def ThreadRequest.decodes (input : ThreadRequest K) : Bool :=
  input.pdfAnchor.all (fun anchor => anchor.page ≤ i32Max && anchor.mappedLine.all (· ≤ i32Max) &&
    anchor.mappedColumn.all (· ≤ i32Max))

def threadTypes : List String := ["COMMENT","SUGGESTION"]

def mappingStates : List String := ["EXACT","APPROXIMATE","PDF_ONLY","SOURCE_CHANGED","SOURCE_DELETED"]

def validRectangle (rectangle : Rectangle K) : Bool :=
  0 ≤ rectangle.x && 0 ≤ rectangle.y && 0 < rectangle.width && 0 < rectangle.height &&
    r.add rectangle.x rectangle.width ≤ r.round (1000001 / 1000000) &&
    r.add rectangle.y rectangle.height ≤ r.round (1000001 / 1000000)

def validRectangles (rectangles : List (Rectangle K)) : Bool :=
  rectangles ≠ [] && rectangles.length ≤ 64 && rectangles.all (validRectangle r)

/-- `trim().is_empty() || chars().count() > 20_000` -/
def badText (text : List Char) : Bool := text.all isWhitespace || text.length > 20000

def validSourceAnchor (anchor : SourceAnchor) : Bool :=
  isDigestText anchor.contextHash && anchor.encodedRelativeStart.isSome &&
    anchor.encodedRelativeStart.isSome == anchor.encodedRelativeEnd.isSome && anchor.quotedText ≠ ""

def validPdfAnchor (anchor : PdfAnchorDraft K) : Bool :=
  1 ≤ anchor.page && mappingStates.contains anchor.mappingStatus &&
    validRectangles r anchor.normalizedRectangles

def validateThread (input : ThreadRequest K) : Except String Unit := do
  ensure (threadTypes.contains input.threadType && input.severity = "NOTE" && input.category = "WRITING")
    "new reviews use COMMENT or SUGGESTION with default metadata"
  ensure (!badText input.message) "message must contain between 1 and 20000 characters"
  ensure (¬(input.threadType = "SUGGESTION" ∧ (input.sourceAnchor.isNone ∨ input.pdfAnchor.isSome)))
    "suggestion requires one source anchor"
  ensure (¬(input.threadType = "SUGGESTION" ∧ input.suggestedReplacement.any badText))
    "suggestion text must contain between 1 and 20000 characters"
  ensure (¬(input.threadType = "COMMENT" ∧ input.suggestedReplacement.isSome))
    "suggestion text is valid only for a suggestion"
  ensure (¬(input.assignedWriterUserId.isSome ∨ input.dueAt.isSome))
    "new comments and suggestions do not accept assignment or due dates"
  ensure (input.sourceAnchor.isNone ≠ input.pdfAnchor.isNone)
    "review thread requires exactly one source or PDF anchor"
  ensure (input.sourceAnchor.all validSourceAnchor) "invalid source anchor"
  ensure (input.pdfAnchor.all (validPdfAnchor r)) "invalid PDF anchor"

end Server

/-! ## Rectangles -/

section Rectangles
variable {K : Type} [Field K] [LinearOrder K] [IsStrictOrderedRing K] (r : Rounding K)

theorem round_bounds {x : K} (hx : 0 ≤ x) :
    (1 - 1 / 2 ^ 53) * x ≤ r.round x ∧ r.round x ≤ (1 + 1 / 2 ^ 53) * x := by
  have hnear := r.near x
  rw [abs_of_nonneg hx,abs_le] at hnear
  constructor
  · linarith [hnear.1]
  · linarith [hnear.2]

theorem round_nonneg {x : K} (hx : 0 ≤ x) : 0 ≤ r.round x := by
  have hfactor : (0 : K) ≤ 1 - 1 / 2 ^ 53 := by norm_num
  exact (mul_nonneg hfactor hx).trans (round_bounds r hx).1

/-- A part of a side, in proportion to it, stays within the tolerance of the server. -/
theorem part_fits {low high side : K} (hside : 0 < side) (hlow : 0 ≤ low) (hle : low ≤ high)
    (hhigh : high ≤ side) : r.add (r.div low side) (r.div (r.sub high low) side) ≤ r.round (1000001 / 1000000) := by
  have hgrow : (1 : K) ≤ 1 + 1 / 2 ^ 53 := by norm_num
  have hlow' : 0 ≤ low / side := div_nonneg hlow hside.le
  have hlength' : 0 ≤ (high - low) / side := div_nonneg (sub_nonneg.mpr hle) hside.le
  have hround := round_nonneg r (sub_nonneg.mpr hle)
  have hround' : 0 ≤ r.round (high - low) / side := div_nonneg hround hside.le
  have hstart : r.div low side ≤ (1 + 1 / 2 ^ 53) * (1 + 1 / 2 ^ 53) * (low / side) := by
    calc r.div low side ≤ (1 + 1 / 2 ^ 53) * (low / side) := (round_bounds r hlow').2
      _ ≤ (1 + 1 / 2 ^ 53) * ((1 + 1 / 2 ^ 53) * (low / side)) :=
        mul_le_mul_of_nonneg_left (le_mul_of_one_le_left hlow' hgrow) (by linarith)
      _ = (1 + 1 / 2 ^ 53) * (1 + 1 / 2 ^ 53) * (low / side) := by ring
  have hlength : r.div (r.sub high low) side ≤ (1 + 1 / 2 ^ 53) * (1 + 1 / 2 ^ 53) * ((high - low) / side) := by
    calc r.div (r.sub high low) side ≤ (1 + 1 / 2 ^ 53) * (r.round (high - low) / side) :=
        (round_bounds r hround').2
      _ ≤ (1 + 1 / 2 ^ 53) * ((1 + 1 / 2 ^ 53) * (high - low) / side) :=
        mul_le_mul_of_nonneg_left
          ((div_le_div_iff_of_pos_right hside).mpr (round_bounds r (sub_nonneg.mpr hle)).2) (by linarith)
      _ = (1 + 1 / 2 ^ 53) * (1 + 1 / 2 ^ 53) * ((high - low) / side) := by ring
  have hsplit : low / side + (high - low) / side ≤ 1 := by
    rw [← add_div,add_sub_cancel,div_le_one hside]
    exact hhigh
  have hsum : r.div low side + r.div (r.sub high low) side ≤ (1 + 1 / 2 ^ 53) * (1 + 1 / 2 ^ 53) := by
    calc r.div low side + r.div (r.sub high low) side
        ≤ (1 + 1 / 2 ^ 53) * (1 + 1 / 2 ^ 53) * (low / side + (high - low) / side) := by
          rw [mul_add]
          exact add_le_add hstart hlength
      _ ≤ (1 + 1 / 2 ^ 53) * (1 + 1 / 2 ^ 53) * 1 :=
        mul_le_mul_of_nonneg_left hsplit (mul_nonneg (by linarith) (by linarith))
      _ = (1 + 1 / 2 ^ 53) * (1 + 1 / 2 ^ 53) := mul_one _
  have hnonneg : 0 ≤ r.div low side + r.div (r.sub high low) side :=
    add_nonneg (round_nonneg r hlow') (round_nonneg r hround')
  calc r.add (r.div low side) (r.div (r.sub high low) side)
      ≤ (1 + 1 / 2 ^ 53) * (r.div low side + r.div (r.sub high low) side) := (round_bounds r hnonneg).2
    _ ≤ (1 + 1 / 2 ^ 53) * ((1 + 1 / 2 ^ 53) * (1 + 1 / 2 ^ 53)) :=
      mul_le_mul_of_nonneg_left hsum (by linarith)
    _ ≤ (1 - 1 / 2 ^ 53) * (1000001 / 1000000) := by norm_num
    _ ≤ r.round (1000001 / 1000000) := (round_bounds r (by norm_num)).1

omit [IsStrictOrderedRing K] in
theorem side_clamped {a b side : K} (hside : 0 < side) :
    0 ≤ max 0 (min (min a b) side) ∧ max 0 (min (min a b) side) ≤ max 0 (min (max a b) side) ∧
      max 0 (min (max a b) side) ≤ side := by
  refine ⟨le_max_left _ _,?_,max_le hside.le (min_le_right _ _)⟩
  exact max_le_max le_rfl (min_le_min min_le_max le_rfl)

/-- A drag that is large enough gives a rectangle that the server takes. -/
theorem Region.rectangle_valid {region : Region K} (h : region.tooSmall r = false) :
    validRectangles r [region.rectangle r] = true := by
  have hfloor : (0 : K) < r.round (5 / 1000) := by
    have hbound := (round_bounds r (show (0 : K) ≤ 5 / 1000 by norm_num)).1
    have hpos : (0 : K) < (1 - 1 / 2 ^ 53) * (5 / 1000) := by norm_num
    exact hpos.trans_le hbound
  simp only [Region.tooSmall,Bool.or_eq_false_iff,decide_eq_false_iff_not,not_lt] at h
  obtain ⟨hx0,hx1,hx2⟩ := side_clamped (a := region.x1) (b := region.x2) region.view.widthPos
  obtain ⟨hy0,hy1,hy2⟩ := side_clamped (a := region.y1) (b := region.y2) region.view.heightPos
  have hvalid : validRectangle r (region.rectangle r) = true := by
    simp only [validRectangle,Bool.and_eq_true,decide_eq_true_eq]
    refine ⟨⟨⟨⟨⟨?_,?_⟩,hfloor.trans_le h.1⟩,hfloor.trans_le h.2⟩,?_⟩,?_⟩
    · exact round_nonneg r (div_nonneg hx0 region.view.widthPos.le)
    · exact round_nonneg r (div_nonneg hy0 region.view.heightPos.le)
    · exact part_fits r region.view.widthPos hx0 hx1 hx2
    · exact part_fits r region.view.heightPos hy0 hy1 hy2
  simp [validRectangles,hvalid]

end Rectangles

end LatexCore.Reviews
