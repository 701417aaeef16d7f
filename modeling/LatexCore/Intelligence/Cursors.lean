import LatexCore.Intelligence.Positions

/-! # The cursor of a search result

A result counts its line at line feeds, like the parser, and its column in the bytes of
the folded line. The client hands both to the editor, where the column is taken for
UTF-16 units of the line as it is.
-/
namespace LatexCore.Intelligence
open Core Foundation Workspace Std
open LatexCore.Parser hiding Bytes

def resultLocation (result : SearchResult) : Location :=
  ⟨result.place.fileId,none,some result.line,some result.column⟩

/-! ## What is expected -/

def beforeLine : ℕ → List Char → List Char
  | 0,_ => []
  | _,[] => []
  | i + 1,c :: text => c :: beforeLine (if c = '\n' then i else i + 1) text

def Occurs (lower : String → String) (query : SearchQuery) (text : List Char) : Prop :=
  folded lower query (String.ofList text) = folded lower query (needleOf query)

/-- The cursor stands before an occurrence of the query in the line of the result. -/
def PlacesCursor (lower : String → String) (query : SearchQuery) (files : List VisibleFile) (text : List Char)
    (result : SearchResult) : Prop :=
  ∃ early occurrence late, (lines text)[result.line - 1]? = some (early ++ occurrence ++ late) ∧
    Occurs lower query occurrence ∧
    openLocation files text (resultLocation result) =
      some (selectionOf (beforeLine (result.line - 1) text ++ early) [])

/-! ## When it is so -/

/-- Every line end before the line has a line feed, and after as many UTF-16 units of the line as the
folded line has bytes before the match, or at the first carriage return, the query occurs. -/
structure ResultFits (lower : String → String) (query : SearchQuery) (text : List Char) (result : SearchResult) :
    Prop where
  fed : (splitLines (beforeLine (result.line - 1) text)).Fed
  occurs : ∃ early occurrence late line, (lines text)[result.line - 1]? = some line ∧
    line = early ++ occurrence ++ late ∧ Occurs lower query occurrence ∧
    utf16Units early = min (utf16Units (line.takeWhile (· != '\r'))) result.column

/-! ## The lines of a text -/

theorem lines_eq_nil {text : List Char} (h : lines text = []) : text = [] := by
  induction text using lines.induct with
  | case1 => rfl
  | case2 rest ih => cases h
  | case3 rest ih => cases h
  | case4 c rest hlf hcrlf hlines ih =>
    rw [lines.eq_4 _ _ hlf hcrlf,hlines] at h
    cases h
  | case5 c rest hlf hcrlf line later hlines ih =>
    rw [lines.eq_4 _ _ hlf hcrlf,hlines] at h
    cases h

structure LineAt (text : List Char) (i : ℕ) (line rest : List Char) : Prop where
  whole : text = beforeLine i text ++ (line ++ rest)
  begins : beforeLine i text = [] ∨ (beforeLine i text).getLast? = some '\n'
  index : (beforeLine i text).count '\n' = i
  plain : '\n' ∉ line
  ends : ∀ c ∈ rest.head?, c = '\n' ∨ c = '\r'

theorem beforeLine_zero (text : List Char) : beforeLine 0 text = [] := by
  cases text <;> rfl

theorem LineAt.clean {text line rest : List Char} {i : ℕ} (h : LineAt text i line rest) (more : List Char) :
    CleanCut (beforeLine i text) more := by
  rintro ⟨hlast,-⟩
  rcases h.begins with hnil | hlf
  · rw [hnil] at hlast
    cases hlast
  · rw [hlf] at hlast
    cases hlast

theorem exists_lineAt {text line : List Char} {i : ℕ} (h : (lines text)[i]? = some line) :
    ∃ rest, LineAt text i line rest := by
  induction text using lines.induct generalizing i line with
  | case1 => cases h
  | case2 text ih =>
    rw [lines] at h
    cases i with
    | zero =>
      obtain rfl := Option.some.inj h
      exact ⟨'\n' :: text,⟨rfl,.inl rfl,rfl,by simp,by simp⟩⟩
    | succ i =>
      obtain ⟨rest,hat⟩ := ih h
      have hbefore : beforeLine (i + 1) ('\n' :: text) = '\n' :: beforeLine i text := rfl
      refine ⟨rest,⟨?_,.inr ?_,?_,hat.plain,hat.ends⟩⟩
      · rw [hbefore,List.cons_append,← hat.whole]
      · rw [hbefore]
        rcases hat.begins with hnil | hlf
        · rw [hnil]
          rfl
        · rw [List.getLast?_cons,hlf]
          rfl
      · rw [hbefore,List.count_cons_self,hat.index]
  | case3 text ih =>
    rw [lines] at h
    cases i with
    | zero =>
      obtain rfl := Option.some.inj h
      exact ⟨'\r' :: '\n' :: text,⟨rfl,.inl rfl,rfl,by simp,by simp⟩⟩
    | succ i =>
      obtain ⟨rest,hat⟩ := ih h
      have hbefore : beforeLine (i + 1) ('\r' :: '\n' :: text) = '\r' :: '\n' :: beforeLine i text := rfl
      refine ⟨rest,⟨?_,.inr ?_,?_,hat.plain,hat.ends⟩⟩
      · rw [hbefore,List.cons_append,List.cons_append,← hat.whole]
      · rw [hbefore,List.getLast?_cons_cons]
        rcases hat.begins with hnil | hlf
        · rw [hnil]
          rfl
        · rw [List.getLast?_cons,hlf]
          rfl
      · rw [hbefore,List.count_cons_of_ne (by decide),List.count_cons_self,hat.index]
  | case4 c text hlf hcrlf hlines ih =>
    rw [lines.eq_4 _ _ hlf hcrlf,hlines] at h
    obtain rfl := lines_eq_nil hlines
    cases i with
    | zero =>
      obtain rfl := Option.some.inj h
      exact ⟨[],⟨rfl,.inl rfl,rfl,by simpa using Ne.symm hlf,by simp⟩⟩
    | succ i => cases h
  | case5 c text hlf hcrlf first later hlines ih =>
    rw [lines.eq_4 _ _ hlf hcrlf,hlines] at h
    cases i with
    | zero =>
      obtain rfl := Option.some.inj h
      obtain ⟨rest,hat⟩ := ih (i := 0) (by rw [hlines]; rfl)
      have hwhole := hat.whole
      rw [beforeLine_zero] at hwhole
      refine ⟨rest,⟨?_,.inl rfl,rfl,?_,hat.ends⟩⟩
      · exact congrArg (c :: ·) hwhole
      · rw [List.mem_cons,not_or]
        exact ⟨Ne.symm hlf,hat.plain⟩
    | succ i =>
      obtain ⟨rest,hat⟩ := ih (i := i + 1) (by rw [hlines]; exact h)
      have hbefore : beforeLine (i + 1) (c :: text) = c :: beforeLine (i + 1) text := by
        rw [beforeLine,if_neg hlf]
      have hlast : (beforeLine (i + 1) text).getLast? = some '\n' := by
        rcases hat.begins with hnil | hlast
        · have hindex := hat.index
          rw [hnil] at hindex
          cases hindex
        · exact hlast
      refine ⟨rest,⟨?_,.inr ?_,?_,hat.plain,hat.ends⟩⟩
      · rw [hbefore,List.cons_append,← hat.whole]
      · rw [hbefore,List.getLast?_cons,hlast]
        rfl
      · rw [hbefore,List.count_cons_of_ne hlf,hat.index]

theorem first_line {line rest : List Char} (hplain : '\n' ∉ line) (hends : ∀ c ∈ rest.head?, c = '\n' ∨ c = '\r') :
    (splitLines (line ++ rest)).first = line.takeWhile (· != '\r') := by
  rw [first_takeWhile]
  induction line with
  | nil =>
    cases rest with
    | nil => rfl
    | cons c rest => rcases hends c rfl with rfl | rfl <;> rfl
  | cons c line ih =>
    obtain ⟨hc,hline⟩ := not_or.mp (mt List.mem_cons.mpr hplain)
    have hlf : (c != '\n') = true := bne_iff_ne.mpr (Ne.symm hc)
    rw [List.cons_append,List.takeWhile_cons,List.takeWhile_cons,hlf,Bool.true_and,ih hline]

variable {paper : Paper} {lower : String → String} {query : SearchQuery}

/-! ## The results of a search -/

structure ResultOf (paper : Paper) (lower : String → String) (query : SearchQuery) (result : SearchResult) : Prop where
  named : result.place.fileId = paper.ids[result.place.path]?
  found : ∃ bytes text line, paper.contents[result.place.path]? = some bytes ∧ decodeUtf8 bytes = some text ∧
    (lines text)[result.line - 1]? = some line ∧ result.column ∈ lineColumns lower query line
  numbered : 0 < result.line

theorem fileMatches_found {ids : PathMap Uuid} {file : LogicalPath × Bytes} {result : SearchResult}
    (h : result ∈ fileMatches lower query ids file) : ∃ text line, decodeUtf8 file.2 = some text ∧
      (lines text)[result.line - 1]? = some line ∧ result.column ∈ lineColumns lower query line ∧ 0 < result.line := by
  rw [fileMatches] at h
  cases hdecode : decodeUtf8 file.2 with
  | none =>
    rw [hdecode] at h
    cases h
  | some text =>
    rw [hdecode] at h
    obtain ⟨⟨line,i⟩,hmem,hline⟩ := List.mem_flatMap.mp h
    obtain ⟨column,hcolumn,rfl⟩ := List.mem_map.mp hline
    exact ⟨text,line,rfl,List.mem_zipIdx_iff_getElem?.mp hmem,hcolumn,Nat.succ_pos i⟩

theorem results_found {response : SearchResponse} (h : v2ProjectSearch lower paper query = .ok response)
    {result : SearchResult} (hresult : result ∈ response.results) : ResultOf paper lower query result := by
  obtain ⟨-,rfl⟩ := v2ProjectSearch_ok.mp h
  obtain ⟨file,hfile,hmem⟩ := List.mem_flatMap.mp (List.mem_of_mem_take hresult)
  have hplace := fileMatches_place hmem
  obtain ⟨text,line,hdecode,hline,hcolumn,hpos⟩ := fileMatches_found hmem
  have hget := ExtTreeMap.mem_toList_iff_getElem?_eq_some.mp hfile
  exact ⟨by rw [hplace],⟨file.2,text,line,by rw [hplace]; exact hget,hdecode,hline,hcolumn⟩,hpos⟩

/-! ## The cursor -/

theorem openLocation_result {text : List Char} {result : SearchResult} {row : ℕ} (hline : result.line = row + 1)
    (hrow : row < (editorLines text).length)
    (hfile : ∃ file ∈ visiblePaperFiles paper, some file.fileId = result.place.fileId) :
    openLocation (visiblePaperFiles paper) text (resultLocation result) =
      (let line := docLine (editorLines text) (row + 1)
       let start := min line.finish (line.start + result.column)
       some ⟨start,start⟩) := by
  obtain ⟨file,hmem,hid⟩ := hfile
  have hany : (visiblePaperFiles paper).any (fun file => some file.fileId == (resultLocation result).fileId) =
      true := List.any_eq_true.mpr ⟨file,hmem,beq_iff_eq.mpr hid⟩
  have hnumber : min (max (((truthy none).or (truthy (some (row + 1)))).getD 1) 1) (editorLines text).length =
      row + 1 := by
    simp only [truthy,Option.filter_some,Option.filter_none,Option.none_or]
    rw [if_pos (by simp),Option.getD_some]
    omega
  have hcolumn : ((truthy none).or (truthy (some result.column))).getD 0 = result.column := by
    rw [show truthy none = none from rfl,Option.none_or,truthy_getD]
  rw [openLocation,if_pos hany]
  simp only [resultLocation,Option.map_none,hline,hnumber,hcolumn,reduceCtorEq,if_false,Nat.max_self]

theorem LineAt.selectionOf_early {text line rest early late : List Char} {i : ℕ} (h : LineAt text i line rest)
    (hline : line = early ++ late) : selectionOf (beforeLine i text ++ early) [] =
      ⟨editorOffset (beforeLine i text) + utf16Units early,editorOffset (beforeLine i text) + utf16Units early⟩ := by
  have hplain : '\n' ∉ early := fun hmem => h.plain (hline ▸ List.mem_append_left _ hmem)
  rw [selectionOf,List.append_nil,editorOffset_append (h.clean early),editorOffset_of_not_mem hplain]

theorem LineAt.row_lt {text line rest : List Char} {i : ℕ} (h : LineAt text i line rest) :
    i < (editorLines text).length := by
  have hrows : (splitLines (beforeLine i text)).rows = i := (rows_eq_count _).trans h.index
  have hlength := length_editorLines (h.clean (line ++ rest))
  rw [← h.whole] at hlength
  exact hrows ▸ (Split.rows_le _).trans_lt hlength

theorem LineAt.openLocation_fed {text line rest : List Char} {result : SearchResult} {i : ℕ}
    (h : LineAt text i line rest) (hresult : result.line = i + 1) (hfed : (splitLines (beforeLine i text)).Fed)
    (hfile : ∃ file ∈ visiblePaperFiles paper, some file.fileId = result.place.fileId) :
    openLocation (visiblePaperFiles paper) text (resultLocation result) =
      (let cursor := editorOffset (beforeLine i text) +
        min (utf16Units (line.takeWhile (· != '\r'))) result.column
       some ⟨cursor,cursor⟩) := by
  have hrows : (splitLines (beforeLine i text)).rows = i := (rows_eq_count _).trans h.index
  have hindex : (splitLines (beforeLine i text)).ended.length = i :=
    ((Split.rows_eq_iff _).mpr hfed).symm.trans hrows
  have hdoc := docLine_append (h.clean (line ++ rest))
  rw [← h.whole,hindex,last_eq_nil h.begins,first_line h.plain h.ends,utf16Units_nil,Nat.zero_add] at hdoc
  have hoffset : editorOffset (beforeLine i text) =
      lineUnits ((splitLines (beforeLine i text)).ended.map Prod.fst) := by
    rw [editorOffset,last_eq_nil h.begins,utf16Units_nil,Nat.add_zero]
  rw [openLocation_result hresult h.row_lt hfile,hdoc]
  dsimp only
  rw [hoffset,Nat.add_min_add_left]

theorem LineAt.openLocation_unfed {text line rest : List Char} {result : SearchResult} {i : ℕ}
    (h : LineAt text i line rest) (hresult : result.line = i + 1) (hfed : ¬(splitLines (beforeLine i text)).Fed)
    (hfile : ∃ file ∈ visiblePaperFiles paper, some file.fileId = result.place.fileId) :
    ∃ cursor, openLocation (visiblePaperFiles paper) text (resultLocation result) = some ⟨cursor,cursor⟩ ∧
      cursor < editorOffset (beforeLine i text) := by
  have hrows : (splitLines (beforeLine i text)).rows = i := (rows_eq_count _).trans h.index
  have hlt : (splitLines (beforeLine i text)).rows < (splitLines (beforeLine i text)).ended.length :=
    Nat.lt_of_le_of_ne (Split.rows_le _) (mt (Split.rows_eq_iff _).mp hfed)
  rw [hrows] at hlt
  have hearlier := docLine_earlier (h.clean (line ++ rest)) hlt
  rw [← h.whole] at hearlier
  exact ⟨_,openLocation_result hresult h.row_lt hfile,(Nat.min_le_left _ _).trans_lt hearlier⟩

theorem placesCursor_iff {text : List Char} {result : SearchResult}
    (hplace : result.place.fileId = paper.ids[result.place.path]?) (hpos : 0 < result.line) :
    PlacesCursor lower query (visiblePaperFiles paper) text result ↔
      paper.Shows result.place.path ∧ ResultFits lower query text result := by
  have hresult : result.line = result.line - 1 + 1 := by omega
  rw [← Paper.shows_iff hplace]
  constructor
  · rintro ⟨early,occurrence,late,hline,hoccurs,hopen⟩
    have hfile : ∃ file ∈ visiblePaperFiles paper, some file.fileId = result.place.fileId := by
      by_contra hhidden
      have hnone : openLocation (visiblePaperFiles paper) text (resultLocation result) = none :=
        openLocation_none hhidden
      rw [hnone] at hopen
      cases hopen
    obtain ⟨rest,hat⟩ := exists_lineAt hline
    rw [hat.selectionOf_early (List.append_assoc _ _ _)] at hopen
    by_cases hfed : (splitLines (beforeLine (result.line - 1) text)).Fed
    · rw [hat.openLocation_fed hresult hfed hfile] at hopen
      have hcursor := congrArg Selection.anchor (Option.some.inj hopen)
      exact ⟨hfile,hfed,early,occurrence,late,_,hline,rfl,hoccurs,(Nat.add_left_cancel hcursor).symm⟩
    · obtain ⟨cursor,hcursor,hlt⟩ := hat.openLocation_unfed hresult hfed hfile
      rw [hcursor] at hopen
      have hanchor := congrArg Selection.anchor (Option.some.inj hopen)
      dsimp only at hanchor
      omega
  · rintro ⟨hfile,hfed,early,occurrence,late,line,hline,rfl,hoccurs,hunits⟩
    obtain ⟨rest,hat⟩ := exists_lineAt hline
    refine ⟨early,occurrence,late,hline,hoccurs,?_⟩
    rw [hat.selectionOf_early (List.append_assoc _ _ _),hat.openLocation_fed hresult hfed hfile,hunits]

/-! ## Matches in ASCII -/

/-! ## The positions of both responses -/

/-- Every range inside one line selects its text, and every result places the cursor before an
occurrence of the query in its line. -/
structure PositionsSelect (parsers : Parsers) (lower : String → String) (query : SearchQuery) (paper : Paper) :
    Prop where
  ranges : ∀ response, v2PaperIntelligence parsers paper = .ok response → ∀ entry ∈ response.ranges,
    ∀ text before middle after, paper.contents[entry.1.path]? = some (encodeUtf8 text) →
      Between text entry.2 before middle after →
        openLocation (visiblePaperFiles paper) text (rangeLocation entry.1 entry.2) =
          some (selectionOf before middle)
  results : ∀ response, v2ProjectSearch lower paper query = .ok response → ∀ result ∈ response.results,
    ∀ text, paper.contents[result.place.path]? = some (encodeUtf8 text) →
      PlacesCursor lower query (visiblePaperFiles paper) text result

/-- A range selects its text and a result places the cursor before the query exactly if its file is
visible and it fits. -/
theorem positions_select_iff (parsers : Parsers) (lower : String → String) (query : SearchQuery) (paper : Paper)
    (hlatex : parsers.latex.Ranges Parser.Pointed) (hbibtex : parsers.bibtex.Ranges Parser.Pointed) :
    (∀ response, v2PaperIntelligence parsers paper = .ok response → ∀ entry ∈ response.ranges,
      ∀ text before middle after, paper.contents[entry.1.path]? = some (encodeUtf8 text) →
        Between text entry.2 before middle after →
          (openLocation (visiblePaperFiles paper) text (rangeLocation entry.1 entry.2) =
              some (selectionOf before middle) ↔
            paper.Shows entry.1.path ∧ RangeFits before middle after)) ∧
    ∀ response, v2ProjectSearch lower paper query = .ok response → ∀ result ∈ response.results,
      ∀ text, paper.contents[result.place.path]? = some (encodeUtf8 text) →
        (PlacesCursor lower query (visiblePaperFiles paper) text result ↔
          paper.Shows result.place.path ∧ ResultFits lower query text result) := by
  constructor
  · intro response hresponse entry hentry text before middle after hbytes hbetween
    obtain ⟨hplace,hpointed⟩ := ranges_pointed hlatex hbibtex hresponse hentry
    exact select_range_iff hbetween (hpointed _ hbytes) hplace
  · intro response hresponse result hresult text hbytes
    obtain ⟨hplace,-,hpos⟩ := results_found hresponse hresult
    exact placesCursor_iff hplace hpos

def accentText : List Char := ['é','\\','l','a','b','e','l','\x7b','a','\x7d']

def accentTree : SyntaxNode :=
  lineNode "source_file" [] 0 11 [
    lineNode "label_definition" [] 2 11 [
      lineNode "\\label" ["command"] 2 8 [],
      lineNode "curly_group_label" ["name"] 8 11 []]]

def accentParsers : Parsers :=
  ⟨grammarOf (encodeUtf8 accentText) accentTree,.ok (),grammarOf (encodeUtf8 accentText) accentTree,.ok ()⟩

/-- A paper with the label `a` after an accent. -/
def accentPaper : Paper where
  workspaceId := 7
  version := 1
  mainFile := some commentPath
  contents := (∅ : PathMap Bytes).insert commentPath (encodeUtf8 accentText)
  files := ⟨⟨[(1,⟨7,commentPath,1,false⟩)],by decide⟩,by decide +kernel⟩
  policies := ⟨[],by decide⟩

def labelQuery : SearchQuery := ⟨"label",true⟩

def labelRange : RangeJson := ⟨2,11,1,2,1,11⟩

theorem accentPaper_visible : visiblePaperFiles accentPaper = [⟨1,commentPath⟩] := by
  have hrows : accentPaper.files.table.rows.filter (isVisible accentPaper) = [(1,⟨7,commentPath,1,false⟩)] := by
    decide +kernel
  rw [visiblePaperFiles,hrows,List.map_cons,List.map_nil,List.mergeSort_singleton]

theorem accentGrammar_pointed : (grammarOf (encodeUtf8 accentText) accentTree).Ranges Parser.Pointed := by
  intro text tree htree
  have htext : text = encodeUtf8 accentText := by
    by_contra hne
    have hnone : (grammarOf (encodeUtf8 accentText) accentTree).parse text none = none := if_neg hne
    rw [hnone] at htree
    cases htree
  subst htext
  have hall : ∀ range ∈ accentTree.ranges, Parser.Pointed (encodeUtf8 accentText) range := by
    unfold Parser.Pointed
    decide +kernel
  exact hall

theorem accent_labels : ∃ response, v2PaperIntelligence accentParsers accentPaper = .ok response ∧
    response.labels = [⟨"a",⟨some 1,commentPath⟩,labelRange⟩] := by
  have hall : (paperAnalysis accentParsers accentPaper).toOption.map (fun analysis =>
      (visibleAnalyses (fileIds [⟨1,commentPath⟩]) analysis.files).flatMap labelsOf) =
      some [⟨"a",⟨some 1,commentPath⟩,labelRange⟩] := by decide +kernel
  cases h : paperAnalysis accentParsers accentPaper with
  | error error =>
    rw [h] at hall
    cases hall
  | ok analysis =>
    rw [h] at hall
    refine ⟨intelligenceOf accentPaper.version (fileIds (visiblePaperFiles accentPaper)) analysis,?_,?_⟩
    · rw [v2PaperIntelligence,h]
      rfl
    · rw [accentPaper_visible]
      exact Option.some.inj hall

theorem accentLabel_between : Between accentText labelRange ['é'] (accentText.drop 1) [] := by
  have hplain : ((accentText.drop 1).all fun c => c ≠ '\n' ∧ c ≠ '\r') = true := by decide
  refine ⟨rfl,by decide,by decide,fun c hc => ?_,by unfold CleanCut; decide⟩
  exact of_decide_eq_true (List.all_eq_true.mp hplain c hc)

theorem positions_select_iff_accent : ∃ response, v2PaperIntelligence accentParsers accentPaper = .ok response ∧
    ∃ entry ∈ response.ranges,
      (openLocation (visiblePaperFiles accentPaper) accentText (rangeLocation entry.1 entry.2) =
          some (selectionOf ['é'] (accentText.drop 1)) ↔
        accentPaper.Shows entry.1.path ∧ RangeFits ['é'] (accentText.drop 1) []) := by
  obtain ⟨response,hresponse,hlabels⟩ := accent_labels
  have hmem : (⟨some 1,commentPath⟩,labelRange) ∈ response.ranges := by
    rw [IntelligenceResponse.ranges,hlabels]
    simp
  exact ⟨response,hresponse,_,hmem,(positions_select_iff accentParsers id labelQuery accentPaper
    accentGrammar_pointed accentGrammar_pointed).1 response hresponse _ hmem accentText _ _ _
      (by decide +kernel) accentLabel_between⟩

/-- The selection of the label begins one character late. -/
theorem not_positionsSelect_accent : ¬PositionsSelect accentParsers id labelQuery accentPaper := by
  intro h
  obtain ⟨response,hresponse,hlabels⟩ := accent_labels
  have hmem : (⟨some 1,commentPath⟩,labelRange) ∈ response.ranges := by
    rw [IntelligenceResponse.ranges,hlabels]
    simp
  have hselection := h.ranges response hresponse _ hmem accentText _ _ _ (by decide +kernel) accentLabel_between
  rw [accentPaper_visible] at hselection
  revert hselection
  decide +kernel

end LatexCore.Intelligence
