import LatexCore.Foundation.TextOffsets
import LatexCore.Intelligence.Hidden
import LatexCore.Parser.Reports
import Mathlib.Data.List.GetD

/-! # From reported positions to selections

The parser counts rows at line feeds and columns in bytes, a search counts the bytes of
a folded line, and the editor of a Writer counts its own lines and UTF-16 units. The
client passes one party's numbers to the next as they are.
-/
namespace LatexCore.Intelligence
open Core Foundation Workspace Std
open LatexCore.Parser hiding Bytes

/-! ## The client -/

/-- What `openLocation` reads of an entry; an absent field is undefined. -/
structure Location where
  fileId : Option Uuid
  range : Option RangeJson
  line : Option ℕ
  column : Option ℕ

structure Selection where
  anchor : ℕ
  head : ℕ
deriving DecidableEq

structure DocLine where
  start : ℕ
  finish : ℕ

/-- `doc.line`, for a number of a line. -/
def docLine (lines : List (List Char)) (number : ℕ) : DocLine :=
  let start := lineUnits (lines.take (number - 1))
  ⟨start,start + utf16Units (lines.getD (number - 1) [])⟩

/-- An operand of `||` that is neither undefined nor zero. -/
def truthy (value : Option ℕ) : Option ℕ := value.filter (· ≠ 0)

/-- `openLocation`, with the document of the file that the location names. -/
def openLocation (files : List VisibleFile) (text : List Char) (location : Location) : Option Selection :=
  if files.any (fun file => some file.fileId == location.fileId) then
    let lines := editorLines text
    let lineNumber := min (max (((truthy (location.range.map (·.startLine))).or (truthy location.line)).getD 1) 1)
      lines.length
    let line := docLine lines lineNumber
    let start := min line.finish (line.start +
      ((truthy (location.range.map (·.startColumn))).or (truthy location.column)).getD 0)
    let finish := if location.range.map (·.endLine) = some lineNumber then
        min line.finish (line.start + (location.range.map (·.endColumn)).getD 0)
      else start
    some ⟨start,max start finish⟩
  else none

def rangeLocation (place : Place) (range : RangeJson) : Location := ⟨place.fileId,some range,none,none⟩

def IntelligenceResponse.ranges (response : IntelligenceResponse) : List (Place × RangeJson) :=
  response.outline.map (fun entry => (entry.place,entry.range)) ++
    response.labels.map (fun entry => (entry.place,entry.range)) ++
    response.diagnostics.filterMap (fun entry => entry.range.map (fun range => (entry.place,range)))

/-! ## What is expected -/

/-- The bytes of the range are those of a part of the text inside one line. -/
structure Between (text : List Char) (range : RangeJson) (before middle after : List Char) : Prop where
  whole : text = before ++ middle ++ after
  start : range.startByte = utf8Bytes before
  finish : range.endByte = utf8Bytes (before ++ middle)
  plain : ∀ c ∈ middle, c ≠ '\n' ∧ c ≠ '\r'
  clean : CleanCut before (middle ++ after)

/-- The selection of the text between two parts. -/
def selectionOf (before middle : List Char) : Selection := ⟨editorOffset before,editorOffset (before ++ middle)⟩

/-! ## When it is so -/

/-- Every line end before the range has a line feed, and before each of its ends the line is ASCII,
unless the line ends there. -/
structure RangeFits (before middle after : List Char) : Prop where
  fed : (splitLines before).Fed
  start : Ascii (splitLines before).last ∨ middle = [] ∧ (splitLines after).first = []
  finish : Ascii ((splitLines before).last ++ middle) ∨ (splitLines after).first = []

/-! ## Points of a text -/

theorem newline_not_mem {text : List Char} (h : '\n' ∉ text) : newline ∉ encodeUtf8 text := by
  intro hmem
  obtain ⟨c,hc,hbyte⟩ := List.mem_flatMap.mp hmem
  exact h (eq_of_mem_encodeChar (c := '\n') rfl hbyte ▸ hc)

theorem length_encodeUtf8 (text : List Char) : (encodeUtf8 text).length = utf8Bytes text := by
  simp [encodeUtf8,utf8Bytes,List.length_flatMap]

theorem encodeUtf8_cons (c : Char) (text : List Char) :
    encodeUtf8 (c :: text) = String.utf8EncodeChar c ++ encodeUtf8 text := rfl

theorem newline_not_mem_char {c : Char} (h : c ≠ '\n') : newline ∉ String.utf8EncodeChar c :=
  fun hmem => h (eq_of_mem_encodeChar (c := '\n') rfl hmem)

theorem count_newline (text : List Char) : (encodeUtf8 text).count newline = text.count '\n' := by
  induction text with
  | nil => rfl
  | cons c text ih =>
    rw [encodeUtf8_cons,List.count_append,ih]
    by_cases hc : c = '\n'
    · subst hc
      have hchar : (String.utf8EncodeChar '\n').count newline = 1 := rfl
      rw [hchar,List.count_cons_self,Nat.add_comm]
    · rw [List.count_eq_zero_of_not_mem (newline_not_mem_char hc),List.count_cons_of_ne hc,Nat.zero_add]

theorem pointAfter_encodeUtf8 (text : List Char) : (pointAfter (encodeUtf8 text)).row = (splitLines text).rows ∧
    ((splitLines text).Fed → (pointAfter (encodeUtf8 text)).column = utf8Bytes (splitLines text).last) := by
  refine ⟨(count_newline text).trans (rows_eq_count text).symm,?_⟩
  intro hfed
  obtain ⟨before,htext,hbefore⟩ := hfed.before_last
  have hlast : ∀ byte ∈ (encodeUtf8 (splitLines text).last).reverse, decide (byte ≠ newline) = true := by
    intro byte hbyte
    refine decide_eq_true ?_
    rintro rfl
    exact newline_not_mem (fun hmem => (plain_last text '\n' hmem).1 rfl) (List.mem_reverse.mp hbyte)
  have hbytes : encodeUtf8 text = encodeUtf8 before ++ encodeUtf8 (splitLines text).last := by
    rw [← encodeUtf8_append,← htext]
  rw [pointAfter,hbytes,List.reverse_append]
  dsimp only
  rw [List.takeWhile_append_of_pos hlast]
  rcases hbefore with rfl | ⟨more,rfl⟩
  · rw [show encodeUtf8 [] = [] from rfl,List.reverse_nil,List.takeWhile_nil,List.append_nil,List.length_reverse,
      length_encodeUtf8]
  · have hstop : (encodeUtf8 (more ++ ['\n'])).reverse = newline :: (encodeUtf8 more).reverse := by
      rw [encodeUtf8_append,List.reverse_append]
      rfl
    have hnot : ¬decide (newline ≠ newline) = true := by decide
    rw [hstop,List.takeWhile_cons,if_neg hnot,List.append_nil,List.length_reverse,length_encodeUtf8]

/-! ## The selection of a range -/

variable {parsers : Parsers} {paper : Paper} {lower : String → String} {query : SearchQuery}

structure PointedIn (bytes : Bytes) (range : RangeJson) : Prop where
  startLine : range.startLine = (pointAt bytes range.startByte).row + 1
  startColumn : range.startColumn = (pointAt bytes range.startByte).column
  endLine : range.endLine = (pointAt bytes range.endByte).row + 1
  endColumn : range.endColumn = (pointAt bytes range.endByte).column

theorem take_encodeUtf8 (text more : List Char) :
    (encodeUtf8 (text ++ more)).take (utf8Bytes text) = encodeUtf8 text := by
  rw [encodeUtf8_append,← length_encodeUtf8,List.take_left']
  rfl

theorem docLine_append {before after : List Char} (h : CleanCut before after) :
    docLine (editorLines (before ++ after)) ((splitLines before).ended.length + 1) =
      ⟨lineUnits ((splitLines before).ended.map Prod.fst),lineUnits ((splitLines before).ended.map Prod.fst) +
        (utf16Units (splitLines before).last + utf16Units (splitLines after).first)⟩ := by
  have htake : ((splitLines before).ended.map Prod.fst ++ ((splitLines before).last ++ (splitLines after).first) ::
      (splitLines after).rest).take (splitLines before).ended.length = (splitLines before).ended.map Prod.fst :=
    List.take_left' (by rw [List.length_map])
  have hget : ((splitLines before).ended.map Prod.fst ++ ((splitLines before).last ++ (splitLines after).first) ::
      (splitLines after).rest).getD (splitLines before).ended.length [] =
        (splitLines before).last ++ (splitLines after).first := by
    simp
  rw [docLine,editorLines_append h,Nat.add_sub_cancel,htake,hget,utf16Units_append]

theorem docLine_earlier {before after : List Char} (h : CleanCut before after) {i : ℕ}
    (hi : i < (splitLines before).ended.length) :
    (docLine (editorLines (before ++ after)) (i + 1)).finish < editorOffset before := by
  have hi' : i < ((splitLines before).ended.map Prod.fst).length := by rwa [List.length_map]
  have hlt := lineUnits_take_lt hi'
  rw [docLine,editorLines_append h,Nat.add_sub_cancel,List.take_append_of_le_length hi'.le,
    List.getD_append _ _ _ _ hi',List.getD_eq_getElem _ _ hi',editorOffset]
  exact Nat.lt_of_lt_of_le hlt (Nat.le_add_right _ _)

theorem length_editorLines {before after : List Char} (h : CleanCut before after) :
    (splitLines before).ended.length < (editorLines (before ++ after)).length := by
  rw [editorLines_append h,List.length_append,List.length_map,List.length_cons]
  omega

theorem truthy_getD (n : ℕ) : (truthy (some n)).getD 0 = n := by
  rw [truthy,Option.filter_some]
  split
  · rfl
  · next hzero =>
    have hn : n = 0 := by simpa using hzero
    exact hn.symm

theorem openLocation_range {text : List Char} {place : Place} {range : RangeJson} {row : ℕ}
    (hstart : range.startLine = row + 1) (hend : range.endLine = row + 1) (hrow : row < (editorLines text).length)
    (hfile : ∃ file ∈ visiblePaperFiles paper, some file.fileId = place.fileId) :
    openLocation (visiblePaperFiles paper) text (rangeLocation place range) =
      (let line := docLine (editorLines text) (row + 1)
       let start := min line.finish (line.start + range.startColumn)
       some ⟨start,max start (min line.finish (line.start + range.endColumn))⟩) := by
  obtain ⟨file,hmem,hid⟩ := hfile
  have hany : (visiblePaperFiles paper).any (fun file => some file.fileId == (rangeLocation place range).fileId) =
      true := List.any_eq_true.mpr ⟨file,hmem,beq_iff_eq.mpr hid⟩
  have hline : min (max (((truthy (some (row + 1))).or (truthy none)).getD 1) 1) (editorLines text).length =
      row + 1 := by
    simp only [truthy,Option.filter_some,Option.filter_none,Option.or_none]
    rw [if_pos (by simp),Option.getD_some]
    omega
  have hcolumn : ((truthy (some range.startColumn)).or (truthy none)).getD 0 = range.startColumn := by
    rw [show truthy none = none from rfl,Option.or_none,truthy_getD]
  rw [openLocation,if_pos hany]
  simp only [rangeLocation,Option.map_some,hstart,hend,hline,hcolumn,if_true,Option.getD_some]

theorem openLocation_none {text : List Char} {location : Location}
    (h : ¬∃ file ∈ visiblePaperFiles paper, some file.fileId = location.fileId) :
    openLocation (visiblePaperFiles paper) text location = none := by
  rw [openLocation,if_neg]
  intro hany
  obtain ⟨file,hmem,hid⟩ := List.any_eq_true.mp hany
  exact h ⟨file,hmem,beq_iff_eq.mp hid⟩

theorem Paper.shows_iff {place : Place} (h : place.fileId = paper.ids[place.path]?) :
    (∃ file ∈ visiblePaperFiles paper, some file.fileId = place.fileId) ↔ paper.Shows place.path := by
  constructor
  · rintro ⟨file,-,hid⟩
    exact ⟨_,(getElem?_fileIds _ _).1 file.fileId (h ▸ hid.symm),rfl⟩
  · intro hshows
    obtain ⟨id,hid,hmem⟩ := (Paper.names_iff h).mpr hshows
    exact ⟨_,hmem,hid.symm⟩

theorem PointedIn.of_between {text before middle after : List Char} {range : RangeJson}
    (h : Between text range before middle after) (hpoints : PointedIn (encodeUtf8 text) range) :
    range.startLine = (splitLines before).rows + 1 ∧ range.endLine = (splitLines before).rows + 1 ∧
      ((splitLines before).Fed → range.startColumn = utf8Bytes (splitLines before).last ∧
        range.endColumn = utf8Bytes ((splitLines before).last ++ middle)) := by
  have hmiddle := splitLines_append_plain h.clean.of_append h.plain
  have hstart : pointAt (encodeUtf8 text) range.startByte = pointAfter (encodeUtf8 before) := by
    rw [pointAt_eq,h.start,h.whole,List.append_assoc,take_encodeUtf8]
  have hend : pointAt (encodeUtf8 text) range.endByte = pointAfter (encodeUtf8 (before ++ middle)) := by
    rw [pointAt_eq,h.finish,h.whole,take_encodeUtf8]
  obtain ⟨hrow,hcolumn⟩ := pointAfter_encodeUtf8 before
  obtain ⟨hrow',hcolumn'⟩ := pointAfter_encodeUtf8 (before ++ middle)
  rw [hmiddle] at hrow' hcolumn'
  refine ⟨by rw [hpoints.startLine,hstart,hrow],by rw [hpoints.endLine,hend,hrow']; rfl,?_⟩
  intro hfed
  exact ⟨by rw [hpoints.startColumn,hstart,hcolumn hfed],by rw [hpoints.endColumn,hend,hcolumn' hfed]⟩

theorem rangeFits_iff {before middle after : List Char} : RangeFits before middle after ↔
    (splitLines before).Fed ∧
      (utf8Bytes (splitLines before).last = utf16Units (splitLines before).last ∨
        utf16Units middle = 0 ∧ utf16Units (splitLines after).first = 0) ∧
      (utf8Bytes (splitLines before).last + utf8Bytes middle =
          utf16Units (splitLines before).last + utf16Units middle ∨
        utf16Units (splitLines after).first = 0) := by
  simp only [utf16Units_eq_zero,← utf8Bytes_append,← utf16Units_append,utf16Units_eq_iff]
  exact ⟨fun ⟨hfed,hstart,hfinish⟩ => ⟨hfed,hstart,hfinish⟩,fun ⟨hfed,hstart,hfinish⟩ => ⟨hfed,hstart,hfinish⟩⟩

theorem select_range_iff {text before middle after : List Char} {place : Place} {range : RangeJson}
    (h : Between text range before middle after) (hpoints : PointedIn (encodeUtf8 text) range)
    (hplace : place.fileId = paper.ids[place.path]?) :
    openLocation (visiblePaperFiles paper) text (rangeLocation place range) = some (selectionOf before middle) ↔
      paper.Shows place.path ∧ RangeFits before middle after := by
  by_cases hshows : paper.Shows place.path
  · obtain ⟨hstart,hend,hcolumns⟩ := hpoints.of_between h
    have htext : text = before ++ (middle ++ after) := by rw [h.whole,List.append_assoc]
    have hrow : (splitLines before).rows < (editorLines text).length := by
      rw [htext]
      exact (Split.rows_le _).trans_lt (length_editorLines h.clean)
    rw [openLocation_range hstart hend hrow ((Paper.shows_iff hplace).mpr hshows),htext]
    by_cases hfed : (splitLines before).Fed
    · obtain ⟨hcolumn,hcolumn'⟩ := hcolumns hfed
      have hmiddle := splitLines_append_plain h.clean.of_append h.plain
      have hfirst : (splitLines (middle ++ after)).first = middle ++ (splitLines after).first := by
        rw [first_takeWhile,first_takeWhile,List.takeWhile_append_of_pos]
        intro c hc
        simpa using h.plain c hc
      have hle := utf16Units_le (splitLines before).last
      have hle' := utf16Units_le middle
      rw [(Split.rows_eq_iff _).mpr hfed,docLine_append h.clean,hcolumn,hcolumn',hfirst,selectionOf,editorOffset,
        editorOffset,hmiddle,rangeFits_iff]
      simp only [Option.some.injEq,Selection.mk.injEq,utf16Units_append,utf8Bytes_append,hshows,hfed,true_and]
      omega
    · have hlt : (splitLines before).rows < (splitLines before).ended.length :=
        Nat.lt_of_le_of_ne (Split.rows_le _) (mt (Split.rows_eq_iff _).mp hfed)
      have hearlier := docLine_earlier h.clean hlt
      constructor
      · intro hselection
        have hanchor := congrArg Selection.anchor (Option.some.inj hselection)
        dsimp only [selectionOf] at hanchor
        omega
      · rintro ⟨-,hfits⟩
        exact absurd hfits.fed hfed
  · rw [openLocation_none (mt (Paper.shows_iff hplace).mp hshows)]
    exact ⟨fun hnone => (by cases hnone),fun hfits => absurd hfits.1 hshows⟩

/-! ## The ranges of a response -/

theorem sourceRangeJson_pointed {bytes : Bytes} {nodeRange : NodeRange} {range : SourceRange}
    (h : SourceRange.fromTreeSitter nodeRange = .ok range) (hpointed : Parser.Pointed bytes nodeRange) :
    PointedIn bytes (sourceRangeJson range) := by
  obtain ⟨hstart,hend⟩ := hpointed
  rw [fromTreeSitter_ok h]
  exact ⟨by rw [sourceRangeJson,hstart],by rw [sourceRangeJson,hstart],by rw [sourceRangeJson,hend],
    by rw [sourceRangeJson,hend]⟩

theorem treeRanges_pointedIn {source : ProjectSource} (hlatex : parsers.latex.Ranges Parser.Pointed)
    (hbibtex : parsers.bibtex.Ranges Parser.Pointed) {path : LogicalPath} {bytes : Bytes}
    (hbytes : source.files[path]? = some bytes) {range : SourceRange}
    (h : RangeOf (treeRanges parsers source path) range) : PointedIn bytes (sourceRangeJson range) := by
  obtain ⟨nodeRange,hmem,hrange⟩ := h
  refine sourceRangeJson_pointed hrange ?_
  unfold treeRanges at hmem
  have hts : (if path = source.mainFile ∨ isLatex path = true then parsers.latex else parsers.bibtex).Ranges
      Parser.Pointed := by split <;> assumption
  generalize (if path = source.mainFile ∨ isLatex path = true then parsers.latex else parsers.bibtex) = ts at hts hmem
  dsimp only at hmem
  rw [hbytes,Option.bind_some] at hmem
  cases htree : ts.parse bytes none with
  | none => simp [htree] at hmem
  | some tree =>
    rw [htree] at hmem
    exact hts bytes tree htree nodeRange hmem

theorem paperAnalysis_ok {analysis : ProjectAnalysis} (h : paperAnalysis parsers paper = .ok analysis) :
    ∃ source parsed, source.files = paper.contents ∧ ParsedFrom parsers .default source parsed ∧
      analysis = assemble source parsed := by
  simp only [paperAnalysis,bind_ok,require_ok,mapError_ok] at h
  obtain ⟨mainFile,-,source,hsource,h⟩ := h
  obtain ⟨parsed,hparsed,rfl⟩ := analyze_ok h
  refine ⟨source,parsed,?_,hparsed,rfl⟩
  unfold ProjectSource.new at hsource
  split at hsource
  · cases hsource
  · split at hsource
    · obtain rfl := Except.ok.inj hsource
      rfl
    · cases hsource

theorem mem_visibleAnalyses {ids : PathMap Uuid} {files : PathMap FileAnalysis} {file : Place × FileAnalysis}
    (h : file ∈ visibleAnalyses ids files) :
    file.1.fileId = ids[file.1.path]? ∧ files[file.1.path]? = some file.2 := by
  obtain ⟨found,hfound,hmap⟩ := List.mem_filterMap.mp h
  obtain ⟨id,hid,rfl⟩ := Option.map_eq_some_iff.mp hmap
  exact ⟨hid.symm,ExtTreeMap.mem_toList_iff_getElem?_eq_some.mp hfound⟩

theorem ranges_pointed (hlatex : parsers.latex.Ranges Parser.Pointed) (hbibtex : parsers.bibtex.Ranges Parser.Pointed)
    {response : IntelligenceResponse} (h : v2PaperIntelligence parsers paper = .ok response)
    {entry : Place × RangeJson} (hentry : entry ∈ response.ranges) :
    entry.1.fileId = paper.ids[entry.1.path]? ∧ ∀ bytes, paper.contents[entry.1.path]? = some bytes →
      PointedIn bytes entry.2 := by
  simp only [v2PaperIntelligence,bind_ok,pure_ok] at h
  obtain ⟨analysis,hanalysis,rfl⟩ := h
  obtain ⟨source,parsed,hfiles,hparsed,rfl⟩ := paperAnalysis_ok hanalysis
  have hpointed : ∀ (path : LogicalPath) (range : SourceRange), RangeOf (treeRanges parsers source path) range →
      ∀ bytes, paper.contents[path]? = some bytes → PointedIn bytes (sourceRangeJson range) := by
    intro path range hrange bytes hbytes
    exact treeRanges_pointedIn hlatex hbibtex (by rw [hfiles]; exact hbytes) hrange
  rcases List.mem_append.mp hentry with hentry | hentry
  · rcases List.mem_append.mp hentry with hentry | hentry
    · obtain ⟨found,hfound,rfl⟩ := List.mem_map.mp hentry
      obtain ⟨file,hfile,hfound⟩ := List.mem_flatMap.mp hfound
      obtain ⟨s,hs,rfl⟩ := List.mem_map.mp hfound
      obtain ⟨hid,hget⟩ := mem_visibleAnalyses hfile
      exact ⟨hid,hpointed _ _ ((hparsed.treeRanged hget).sections s hs)⟩
    · obtain ⟨found,hfound,rfl⟩ := List.mem_map.mp hentry
      obtain ⟨file,hfile,hfound⟩ := List.mem_flatMap.mp hfound
      obtain ⟨label,hlabel,rfl⟩ := List.mem_map.mp hfound
      obtain ⟨hid,hget⟩ := mem_visibleAnalyses hfile
      exact ⟨hid,hpointed _ _ ((hparsed.treeRanged hget).labels label hlabel)⟩
  · obtain ⟨found,hfound,hrange⟩ := List.mem_filterMap.mp hentry
    obtain ⟨range,hjson,rfl⟩ := Option.map_eq_some_iff.mp hrange
    obtain ⟨d,hd,rfl⟩ := List.mem_map.mp hfound
    obtain ⟨sourceRange,hsource,rfl⟩ := Option.map_eq_some_iff.mp hjson
    exact ⟨rfl,hpointed _ _ (produced_range hparsed (mem_diagnostics.mp hd) hsource)⟩

end LatexCore.Intelligence
