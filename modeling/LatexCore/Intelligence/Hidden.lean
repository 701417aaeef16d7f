import LatexCore.Intelligence.Handlers

/-! # What the handlers disclose of hidden files

The results of a search are the first matches in the files of the workspace, in the
order of the paths, whether or not a file is visible. They are those of the visible
files exactly if hidden matches come too late to be returned. The analysis runs over
all files too, and its bibliographies and diagnostics are returned as they are.
-/
namespace LatexCore.Intelligence
open Core Foundation Workspace Std
open LatexCore.Parser hiding Bytes

/-! ## The loops of a search -/

/-- The state of the loops after these results. -/
def gathered (results : List SearchResult) : Except (List SearchResult) (List SearchResult) :=
  if searchLimit ≤ results.length then .error (results.take searchLimit) else .ok results

theorem foldlM_push {results : List SearchResult} (h : results.length < searchLimit)
    (more : List SearchResult) : more.foldlM push results = gathered (results ++ more) := by
  induction more generalizing results with
  | nil =>
    rw [List.append_nil,gathered,if_neg (Nat.not_le.mpr h)]
    rfl
  | cons result more ih =>
    rw [List.foldlM_cons,push]
    have hlength : (results ++ [result]).length = results.length + 1 := by simp
    split
    · next hfull =>
      have htake : (results ++ result :: more).take searchLimit = results ++ [result] := by
        rw [List.append_cons]
        exact List.take_left' (by omega)
      rw [gathered,htake,if_pos (by simp only [List.length_append,List.length_cons]; omega)]
      rfl
    · next hroom =>
      have hstep : more.foldlM push (results ++ [result]) = gathered (results ++ [result] ++ more) :=
        ih (by omega)
      rw [List.append_assoc,List.singleton_append] at hstep
      exact hstep

theorem foldlM_flatMap {α β σ ε : Type} (f : σ → β → Except ε σ) (g : α → List β) (xs : List α) (s : σ) :
    xs.foldlM (fun s x => (g x).foldlM f s) s = (xs.flatMap g).foldlM f s := by
  induction xs generalizing s with
  | nil => rfl
  | cons x xs ih =>
    rw [List.flatMap_cons,List.foldlM_append,List.foldlM_cons]
    exact congrArg _ (funext ih)

variable {lower : String → String} {query : SearchQuery} {paper : Paper}

def fileMatches (lower : String → String) (query : SearchQuery) (ids : PathMap Uuid)
    (file : LogicalPath × Bytes) : List SearchResult :=
  (decodeUtf8 file.2).elim [] (fun text => (lines text).zipIdx.flatMap (fun line =>
    (lineColumns lower query line.1).map (lineResult query ⟨ids[file.1]?,file.1⟩ line)))

theorem searchFile_eq (ids : PathMap Uuid) (results : List SearchResult) (file : LogicalPath × Bytes) :
    searchFile lower query ids results file = (fileMatches lower query ids file).foldlM push results := by
  rw [searchFile,fileMatches]
  cases decodeUtf8 file.2 with
  | none => rfl
  | some text =>
    rw [Option.elim_some,← foldlM_flatMap]
    simp only [List.foldlM_map]
    rfl

def Paper.ids (paper : Paper) : PathMap Uuid := fileIds (visiblePaperFiles paper)

/-- Every match in the workspace, in the order of the paths. -/
def Paper.matches_ (paper : Paper) (lower : String → String) (query : SearchQuery) : List SearchResult :=
  paper.contents.toList.flatMap (fileMatches lower query paper.ids)

/-- The queries that the handler accepts. -/
def SearchQuery.Valid (query : SearchQuery) : Prop :=
  needleOf query ≠ "" ∧ (needleOf query).utf8ByteSize ≤ 200

theorem ended_gathered (results : List SearchResult) : ended (gathered results) = results.take searchLimit := by
  rw [gathered]
  split
  · rfl
  · next hroom => exact (List.take_of_length_le (Nat.le_of_not_le hroom)).symm

theorem v2ProjectSearch_ok {response : SearchResponse} :
    v2ProjectSearch lower paper query = .ok response ↔
      query.Valid ∧ response = ⟨paper.version,(paper.matches_ lower query).take searchLimit,
        ((paper.matches_ lower query).take searchLimit).length == 200⟩ := by
  have hresults : ended (paper.contents.toList.foldlM (searchFile lower query paper.ids) []) =
      (paper.matches_ lower query).take searchLimit := by
    have hfile : searchFile lower query paper.ids =
        fun results file => (fileMatches lower query paper.ids file).foldlM push results :=
      funext fun results => funext fun file => searchFile_eq paper.ids results file
    rw [hfile,foldlM_flatMap,foldlM_push (by decide),List.nil_append,ended_gathered]
    rfl
  have hbind : v2ProjectSearch lower paper query =
      (do
        ensure (needleOf query ≠ "" ∧ (needleOf query).utf8ByteSize ≤ 200)
          ⟨400,"search query must contain 1-200 characters"⟩
        pure ⟨paper.version,(paper.matches_ lower query).take searchLimit,
          ((paper.matches_ lower query).take searchLimit).length == 200⟩) := by
    rw [← hresults]
    rfl
  rw [hbind]
  simp only [bind_ok,ensure_ok,pure_ok,decide_eq_true_eq]
  constructor
  · rintro ⟨_,hvalid,rfl⟩
    exact ⟨hvalid,rfl⟩
  · rintro ⟨hvalid,rfl⟩
    exact ⟨(),hvalid,rfl⟩

/-! ## Visible files -/

def Paper.Shows (paper : Paper) (path : LogicalPath) : Prop :=
  ∃ file ∈ visiblePaperFiles paper, file.path = path

def Paper.Names (paper : Paper) (place : Place) : Prop :=
  ∃ id, place.fileId = some id ∧ ⟨id,place.path⟩ ∈ visiblePaperFiles paper

theorem getElem?_fileIds (files : List VisibleFile) (path : LogicalPath) :
    (∀ id, (fileIds files)[path]? = some id → ⟨id,path⟩ ∈ files) ∧
      ((∃ file ∈ files, file.path = path) → ((fileIds files)[path]?).isSome = true) := by
  induction files using List.reverseRecOn with
  | nil => simp [fileIds]
  | append_singleton files file ih =>
    have hinsert : fileIds (files ++ [file]) = (fileIds files).insert file.path file.fileId := by
      rw [fileIds,List.foldl_append]
      rfl
    rw [hinsert,ExtTreeMap.getElem?_insert]
    split
    · next heq =>
      rw [Std.compare_eq_iff_eq] at heq
      subst heq
      exact ⟨fun id hid => by cases hid; simp,fun _ => rfl⟩
    · next hne =>
      rw [Std.compare_eq_iff_eq] at hne
      constructor
      · intro id hid
        exact List.mem_append_left _ (ih.1 id hid)
      · rintro ⟨other,hother,rfl⟩
        rcases List.mem_append.mp hother with hother | hother
        · exact ih.2 ⟨other,hother,rfl⟩
        · exact absurd (List.mem_singleton.mp hother ▸ rfl) hne

theorem Paper.names_iff {place : Place} (h : place.fileId = paper.ids[place.path]?) :
    paper.Names place ↔ paper.Shows place.path := by
  obtain ⟨hmem,hsome⟩ := getElem?_fileIds (visiblePaperFiles paper) place.path
  constructor
  · rintro ⟨id,-,hid⟩
    exact ⟨_,hid,rfl⟩
  · intro hshows
    obtain ⟨id,hid⟩ := Option.isSome_iff_exists.mp (hsome hshows)
    exact ⟨id,h.trans hid,hmem id hid⟩

instance (path : LogicalPath) : Decidable (paper.Shows path) :=
  inferInstanceAs (Decidable (∃ file ∈ visiblePaperFiles paper, file.path = path))

theorem fileMatches_place {ids : PathMap Uuid} {file : LogicalPath × Bytes} {result : SearchResult}
    (h : result ∈ fileMatches lower query ids file) : result.place = ⟨ids[file.1]?,file.1⟩ := by
  rw [fileMatches] at h
  cases hdecode : decodeUtf8 file.2 with
  | none =>
    rw [hdecode] at h
    cases h
  | some text =>
    rw [hdecode] at h
    obtain ⟨line,-,hline⟩ := List.mem_flatMap.mp h
    obtain ⟨column,-,rfl⟩ := List.mem_map.mp hline
    rfl

/-! ## The first results -/

section First
variable {α β : Type} (f : α → List β) (p : α → Bool) (n : ℕ)

/-- Every item of this kind that gives something comes after so many results of the others. -/
def ComesLate (xs : List α) : Prop :=
  ∀ before x after, xs = before ++ x :: after → p x = false → f x ≠ [] →
    n ≤ ((before.filter p).flatMap f).length

variable {f p n}

theorem comesLate_cons {x : α} {xs : List α} :
    ComesLate f p n (x :: xs) ↔ (p x = false → f x ≠ [] → n = 0) ∧
      ComesLate f p (if p x then n - (f x).length else n) xs := by
  constructor
  · intro h
    refine ⟨fun hx hne => Nat.le_zero.mp (h [] x xs rfl hx hne),?_⟩
    intro before y after hxs hy hne
    have hlate := h (x :: before) y after (by rw [hxs]; rfl) hy hne
    rw [List.filter_cons] at hlate
    split at hlate
    · next hx =>
      rw [List.flatMap_cons,List.length_append] at hlate
      rw [if_pos hx]
      omega
    · next hx =>
      rw [if_neg hx]
      exact hlate
  · rintro ⟨hfirst,hrest⟩ before y after hxs hy hne
    cases before with
    | nil =>
      obtain ⟨rfl,-⟩ := List.cons.inj hxs
      exact (hfirst hy hne).le
    | cons z before =>
      obtain ⟨rfl,htail⟩ := List.cons.inj hxs
      have hlate := hrest before y after htail hy hne
      rw [List.filter_cons]
      split
      · next hx =>
        rw [if_pos hx] at hlate
        rw [List.flatMap_cons,List.length_append]
        omega
      · next hx =>
        rw [if_neg hx] at hlate
        exact hlate

/-- The first results are all of the kind exactly if the other items come late. -/
theorem forall_take_iff {q : β → Prop} {xs : List α} (hq : ∀ x ∈ xs, ∀ y ∈ f x, (q y ↔ p x = true)) :
    (∀ y ∈ (xs.flatMap f).take n, q y) ↔ ComesLate f p n xs := by
  induction xs generalizing n with
  | nil => simp [ComesLate]
  | cons x xs ih =>
    rw [comesLate_cons,List.flatMap_cons,List.take_append,List.forall_mem_append,
      ih (fun x hx => hq x (List.mem_cons_of_mem _ hx))]
    have hx := hq x List.mem_cons_self
    by_cases hp : p x = true
    · rw [if_pos hp]
      constructor
      · rintro ⟨-,hrest⟩
        exact ⟨fun hfalse => absurd hp (by rw [hfalse]; exact Bool.false_ne_true),hrest⟩
      · rintro ⟨-,hrest⟩
        exact ⟨fun y hy => (hx y (List.mem_of_mem_take hy)).mpr hp,hrest⟩
    · rw [if_neg hp]
      have hnone : (∀ y ∈ (f x).take n, q y) ↔ n = 0 ∨ f x = [] := by
        constructor
        · intro hall
          by_contra hne
          obtain ⟨hn,hfx⟩ := not_or.mp hne
          obtain ⟨y,rest,hy⟩ := List.exists_cons_of_ne_nil hfx
          obtain ⟨m,rfl⟩ := Nat.exists_eq_succ_of_ne_zero hn
          exact hp ((hx y (by rw [hy]; exact List.mem_cons_self)).mp (hall y (by rw [hy]; exact List.mem_cons_self)))
        · rintro (rfl | hfx)
          · simp
          · simp [hfx]
      rw [hnone]
      constructor
      · rintro ⟨hn | hfx,hrest⟩
        · subst hn
          exact ⟨fun _ _ => rfl,by simpa using hrest⟩
        · rw [hfx] at hrest
          exact ⟨fun _ hne => absurd hfx hne,hrest⟩
      · rintro ⟨hzero,hrest⟩
        by_cases hfx : f x = []
        · rw [hfx]
          exact ⟨.inr rfl,hrest⟩
        · have hn := hzero (Bool.not_eq_true _ ▸ hp) hfx
          subst hn
          exact ⟨.inl rfl,by simpa using hrest⟩

/-- Where the first results are of one kind, they are the first of that kind. -/
theorem take_filter {q : β → Bool} {ys : List β} (h : ∀ y ∈ ys.take n, q y = true) :
    (ys.filter q).take n = ys.take n := by
  induction ys generalizing n with
  | nil => rfl
  | cons y ys ih =>
    cases n with
    | zero => rfl
    | succ n =>
      rw [List.take_succ_cons,List.forall_mem_cons] at h
      rw [List.filter_cons_of_pos h.1,List.take_succ_cons,List.take_succ_cons,ih h.2]

end First

/-! ## Disclosure -/

variable {a b : Paper} {parsers : Parsers}

def Paper.visibleMatches (paper : Paper) (lower : String → String) (query : SearchQuery) : List SearchResult :=
  (paper.contents.toList.filter (fun file => decide (paper.Shows file.1))).flatMap
    (fileMatches lower query paper.ids)

structure SameVisible (a b : Paper) : Prop where
  files : visiblePaperFiles a = visiblePaperFiles b
  contents : ∀ path, a.Shows path → a.contents[path]? = b.contents[path]?

structure SearchSound (lower : String → String) (query : SearchQuery) (paper : Paper) : Prop where
  named : ∀ response, v2ProjectSearch lower paper query = .ok response →
    ∀ result ∈ response.results, paper.Names result.place
  truncated : ∀ response, v2ProjectSearch lower paper query = .ok response →
    (response.truncated = true ↔ response.results.length < (paper.visibleMatches lower query).length)

structure EntriesNamed (paper : Paper) (response : IntelligenceResponse) : Prop where
  outline : ∀ entry ∈ response.outline, paper.Names entry.place
  labels : ∀ entry ∈ response.labels, paper.Names entry.place
  citations : ∀ entry ∈ response.citations, paper.Names entry.place
  bibliography : ∀ entry ∈ response.bibliography, paper.Names entry.place
  diagnostics : ∀ entry ∈ response.diagnostics, paper.Names entry.place

/-- The handlers tell the same of two states, and nothing of their hidden files. -/
structure Confidential (parsers : Parsers) (lower : String → String) (query : SearchQuery) (a b : Paper) :
    Prop where
  same : ∀ ra rb, v2ProjectSearch lower a query = .ok ra → v2ProjectSearch lower b query = .ok rb →
    ra.results = rb.results ∧ ra.truncated = rb.truncated
  accepted : (∃ ra, v2ProjectSearch lower a query = .ok ra) ↔ ∃ rb, v2ProjectSearch lower b query = .ok rb
  search : SearchSound lower query a ∧ SearchSound lower query b
  entries : ∀ paper ∈ [a,b], ∀ response, v2PaperIntelligence parsers paper = .ok response →
    EntriesNamed paper response

/-- The matches in a hidden file come after the results of visible files have filled the response. -/
def HiddenLate (lower : String → String) (query : SearchQuery) (paper : Paper) : Prop :=
  ComesLate (fileMatches lower query paper.ids) (fun file => decide (paper.Shows file.1)) searchLimit
    paper.contents.toList

/-- The analysis reads no entry from a hidden bibliography and reports nothing in a hidden file. -/
def Quiet (parsers : Parsers) (paper : Paper) : Prop :=
  ∀ analysis, paperAnalysis parsers paper = .ok analysis →
    (∀ file ∈ analysis.bibliographies.toList, file.2.entries ≠ [] → paper.Shows file.1) ∧
      ∀ d ∈ analysis.diagnostics, paper.Shows d.file

structure Undisclosed (parsers : Parsers) (lower : String → String) (query : SearchQuery) (a b : Paper) :
    Prop where
  late : query.Valid → HiddenLate lower query a ∧ HiddenLate lower query b ∧
    (a.visibleMatches lower query).length ≠ searchLimit
  quiet : Quiet parsers a ∧ Quiet parsers b

theorem SameVisible.shows (h : SameVisible a b) (path : LogicalPath) : a.Shows path ↔ b.Shows path := by
  rw [Paper.Shows,Paper.Shows,h.files]

theorem SameVisible.visibleMatches (h : SameVisible a b) :
    a.visibleMatches lower query = b.visibleMatches lower query := by
  have hids : a.ids = b.ids := congrArg fileIds h.files
  have hshows : (fun file : LogicalPath × Bytes => decide (a.Shows file.1)) =
      fun file => decide (b.Shows file.1) := funext fun file => decide_eq_decide.mpr (h.shows file.1)
  have hfilter : a.contents.filter (fun path _ => decide (a.Shows path)) =
      b.contents.filter (fun path _ => decide (a.Shows path)) := by
    refine ExtTreeMap.ext_getElem? fun path => ?_
    rw [ExtTreeMap.getElem?_filter',ExtTreeMap.getElem?_filter']
    by_cases hpath : a.Shows path
    · rw [h.contents path hpath]
    · simp [hpath]
  have hlist := congrArg ExtTreeMap.toList hfilter
  rw [ExtTreeMap.toList_filter,ExtTreeMap.toList_filter] at hlist
  rw [Paper.visibleMatches,Paper.visibleMatches,← hids,← hshows]
  exact congrArg (List.flatMap _) hlist

theorem fileMatches_named {file : LogicalPath × Bytes} {result : SearchResult}
    (h : result ∈ fileMatches lower query paper.ids file) :
    paper.Names result.place ↔ decide (paper.Shows file.1) = true := by
  rw [fileMatches_place h,decide_eq_true_iff]
  exact Paper.names_iff rfl

theorem named_iff : (∀ result ∈ (paper.matches_ lower query).take searchLimit, paper.Names result.place) ↔
    HiddenLate lower query paper :=
  forall_take_iff fun _ _ _ hresult => fileMatches_named hresult

theorem visibleMatches_eq_filter [DecidablePred fun result : SearchResult => paper.Names result.place] :
    paper.visibleMatches lower query =
      (paper.matches_ lower query).filter (fun result => decide (paper.Names result.place)) := by
  rw [Paper.visibleMatches,Paper.matches_]
  induction paper.contents.toList with
  | nil => rfl
  | cons file files ih =>
    rw [List.flatMap_cons,List.filter_append,← ih,List.filter_cons]
    have hfile : ∀ result ∈ fileMatches lower query paper.ids file,
        (paper.Names result.place ↔ decide (paper.Shows file.1) = true) :=
      fun result hresult => fileMatches_named hresult
    split
    · next hshows =>
      rw [List.flatMap_cons,List.filter_eq_self.mpr
        fun result hresult => decide_eq_true ((hfile result hresult).mpr hshows)]
    · next hhidden =>
      rw [List.filter_eq_nil_iff.mpr fun result hresult hnames =>
        hhidden ((hfile result hresult).mp (of_decide_eq_true hnames)),List.nil_append]

theorem HiddenLate.results (h : HiddenLate lower query paper) :
    (paper.matches_ lower query).take searchLimit = (paper.visibleMatches lower query).take searchLimit := by
  classical
  rw [visibleMatches_eq_filter]
  exact (take_filter fun result hresult => decide_eq_true (named_iff.mpr h result hresult)).symm

theorem searchSound_iff : SearchSound lower query paper ↔
    (query.Valid → HiddenLate lower query paper ∧ (paper.visibleMatches lower query).length ≠ searchLimit) := by
  have hcount (hlate : HiddenLate lower query paper) :
      ((((paper.matches_ lower query).take searchLimit).length == 200) = true ↔
        ((paper.matches_ lower query).take searchLimit).length < (paper.visibleMatches lower query).length) ↔
      (paper.visibleMatches lower query).length ≠ searchLimit := by
    rw [hlate.results,List.length_take,beq_iff_eq,searchLimit]
    omega
  constructor
  · rintro ⟨hnamed,htruncated⟩ hvalid
    have hlate : HiddenLate lower query paper :=
      named_iff.mp (hnamed _ (v2ProjectSearch_ok.mpr ⟨hvalid,rfl⟩))
    exact ⟨hlate,(hcount hlate).mp (htruncated _ (v2ProjectSearch_ok.mpr ⟨hvalid,rfl⟩))⟩
  · intro h
    constructor
    · intro response hresponse
      obtain ⟨hvalid,rfl⟩ := v2ProjectSearch_ok.mp hresponse
      exact named_iff.mpr (h hvalid).1
    · intro response hresponse
      obtain ⟨hvalid,rfl⟩ := v2ProjectSearch_ok.mp hresponse
      exact (hcount (h hvalid).1).mpr (h hvalid).2

/-! ## The intelligence of a paper -/

theorem visibleAnalyses_named {files : PathMap FileAnalysis} {file : Place × FileAnalysis}
    (h : file ∈ visibleAnalyses paper.ids files) : paper.Names file.1 := by
  obtain ⟨found,-,hfound⟩ := List.mem_filterMap.mp h
  obtain ⟨id,hid,rfl⟩ := Option.map_eq_some_iff.mp hfound
  exact ⟨id,rfl,(getElem?_fileIds _ _).1 id hid⟩

theorem entriesNamed_iff {analysis : ProjectAnalysis} :
    EntriesNamed paper (intelligenceOf paper.version paper.ids analysis) ↔
      (∀ file ∈ analysis.bibliographies.toList, file.2.entries ≠ [] → paper.Shows file.1) ∧
        ∀ d ∈ analysis.diagnostics, paper.Shows d.file := by
  constructor
  · intro h
    constructor
    · intro file hfile hentries
      obtain ⟨entry,rest,hentry⟩ := List.exists_cons_of_ne_nil hentries
      refine (Paper.names_iff rfl).mp (h.bibliography _ (List.mem_flatMap.mpr ⟨file,hfile,
        List.mem_map.mpr ⟨entry,by rw [hentry]; exact List.mem_cons_self,rfl⟩⟩))
    · intro d hd
      exact (Paper.names_iff rfl).mp (h.diagnostics _ (List.mem_map.mpr ⟨d,hd,rfl⟩))
  · rintro ⟨hbibliographies,hdiagnostics⟩
    constructor
    · intro entry hentry
      obtain ⟨file,hfile,hentry⟩ := List.mem_flatMap.mp hentry
      obtain ⟨s,-,rfl⟩ := List.mem_map.mp hentry
      exact visibleAnalyses_named hfile
    · intro entry hentry
      obtain ⟨file,hfile,hentry⟩ := List.mem_flatMap.mp hentry
      obtain ⟨label,-,rfl⟩ := List.mem_map.mp hentry
      exact visibleAnalyses_named hfile
    · intro entry hentry
      obtain ⟨file,hfile,hentry⟩ := List.mem_flatMap.mp hentry
      obtain ⟨citation,-,hentry⟩ := List.mem_flatMap.mp hentry
      obtain ⟨key,-,rfl⟩ := List.mem_map.mp hentry
      exact visibleAnalyses_named hfile
    · intro entry hentry
      obtain ⟨file,hfile,hentry⟩ := List.mem_flatMap.mp hentry
      obtain ⟨bibEntry,hbib,rfl⟩ := List.mem_map.mp hentry
      exact (Paper.names_iff rfl).mpr (hbibliographies file hfile (List.ne_nil_of_mem hbib))
    · intro entry hentry
      obtain ⟨d,hd,rfl⟩ := List.mem_map.mp hentry
      exact (Paper.names_iff rfl).mpr (hdiagnostics d hd)

theorem quiet_iff : (∀ response, v2PaperIntelligence parsers paper = .ok response →
    EntriesNamed paper response) ↔ Quiet parsers paper := by
  simp only [v2PaperIntelligence,bind_ok,pure_ok]
  constructor
  · intro h analysis hanalysis
    exact entriesNamed_iff.mp (h _ ⟨analysis,hanalysis,rfl⟩)
  · rintro h _ ⟨analysis,hanalysis,rfl⟩
    exact entriesNamed_iff.mpr (h analysis hanalysis)

/-- Of two states with the same visible files, the handlers tell the same and nothing hidden exactly if
hidden matches come late, the visible ones do not just fill a response and the analysis is quiet. -/
theorem confidential_iff (parsers : Parsers) (lower : String → String) (query : SearchQuery) (a b : Paper)
    (h : SameVisible a b) : Confidential parsers lower query a b ↔ Undisclosed parsers lower query a b := by
  constructor
  · rintro ⟨-,-,⟨ha,hb⟩,hentries⟩
    refine ⟨?_,quiet_iff.mp (hentries a (by simp)),quiet_iff.mp (hentries b (by simp))⟩
    intro hvalid
    exact ⟨(searchSound_iff.mp ha hvalid).1,(searchSound_iff.mp hb hvalid).1,(searchSound_iff.mp ha hvalid).2⟩
  · rintro ⟨hlate,hquiet⟩
    refine ⟨?_,?_,⟨searchSound_iff.mpr ?_,searchSound_iff.mpr ?_⟩,?_⟩
    · intro ra rb hra hrb
      obtain ⟨hvalid,rfl⟩ := v2ProjectSearch_ok.mp hra
      obtain ⟨-,rfl⟩ := v2ProjectSearch_ok.mp hrb
      obtain ⟨hlatea,hlateb,-⟩ := hlate hvalid
      have hresults : (a.matches_ lower query).take searchLimit = (b.matches_ lower query).take searchLimit := by
        rw [hlatea.results,hlateb.results,h.visibleMatches]
      exact ⟨hresults,by rw [hresults]⟩
    · simp only [v2ProjectSearch_ok]
      exact ⟨fun ⟨_,hvalid,_⟩ => ⟨_,hvalid,rfl⟩,fun ⟨_,hvalid,_⟩ => ⟨_,hvalid,rfl⟩⟩
    · intro hvalid
      exact ⟨(hlate hvalid).1,(hlate hvalid).2.2⟩
    · intro hvalid
      exact ⟨(hlate hvalid).2.1,h.visibleMatches ▸ (hlate hvalid).2.2⟩
    · intro paper hpaper
      rcases List.mem_cons.mp hpaper with rfl | hpaper
      · exact quiet_iff.mpr hquiet.1
      · rw [List.mem_singleton.mp hpaper]
        exact quiet_iff.mpr hquiet.2

theorem secretPath_parsed : checkPath ".latex-core/frontmatter/a.tex" = .ok () := by decide +kernel

def secretPath : LogicalPath := ⟨".latex-core/frontmatter/a.tex",secretPath_parsed⟩

/-- A paper with the text `y` in its main file. -/
def openPaper : Paper where
  workspaceId := 7
  version := 1
  mainFile := some commentPath
  contents := (∅ : PathMap Bytes).insert commentPath [121]
  files := ⟨⟨[(1,⟨7,commentPath,1,false⟩),(2,⟨7,secretPath,1,false⟩)],by decide⟩,by decide +kernel⟩
  policies := ⟨[(2,.hiddenSystem)],by decide⟩

/-- The same paper with the text `x` in a hidden file. -/
def secretPaper : Paper := { openPaper with contents := openPaper.contents.insert secretPath [120] }

def xQuery : SearchQuery := ⟨"x",true⟩

def commentParsers : Parsers := ⟨commentParser,.ok (),commentParser,.ok ()⟩

theorem openPaper_visible : visiblePaperFiles openPaper = [⟨1,commentPath⟩] := by
  have hrows : openPaper.files.table.rows.filter (isVisible openPaper) = [(1,⟨7,commentPath,1,false⟩)] := by
    decide +kernel
  rw [visiblePaperFiles,hrows,List.map_cons,List.map_nil,List.mergeSort_singleton]

theorem secretPaper_sameVisible : SameVisible secretPaper openPaper := by
  refine ⟨rfl,?_⟩
  rintro path ⟨file,hfile,rfl⟩
  have hvisible : visiblePaperFiles secretPaper = [⟨1,commentPath⟩] := openPaper_visible
  rw [hvisible,List.mem_singleton] at hfile
  subst hfile
  decide +kernel

theorem confidential_iff_secret : SameVisible secretPaper openPaper ∧
    (Confidential commentParsers id xQuery secretPaper openPaper ↔
      Undisclosed commentParsers id xQuery secretPaper openPaper) :=
  ⟨secretPaper_sameVisible,confidential_iff commentParsers id xQuery secretPaper openPaper secretPaper_sameVisible⟩

/-- The search finds the text of the hidden file. -/
theorem not_confidential_secret : ¬Confidential commentParsers id xQuery secretPaper openPaper := by
  intro h
  have hvalid : xQuery.Valid := by
    unfold SearchQuery.Valid
    decide +kernel
  have hsame := (h.same _ _ (v2ProjectSearch_ok.mpr ⟨hvalid,rfl⟩) (v2ProjectSearch_ok.mpr ⟨hvalid,rfl⟩)).1
  have hsecret : ((secretPaper.matches_ id xQuery).take searchLimit).length = 1 := by decide +kernel
  have hopen : ((openPaper.matches_ id xQuery).take searchLimit).length = 0 := by decide +kernel
  have hlength := congrArg List.length hsame
  dsimp only at hlength
  omega

end LatexCore.Intelligence
