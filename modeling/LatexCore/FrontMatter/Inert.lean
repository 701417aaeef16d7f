import LatexCore.FrontMatter.Accepted
import LatexCore.Foundation.TexText

/-! # Values are inert text

A rendered file is its template with each placeholder replaced once. The LaTeX text of
a value holds no special character and no command but the escapes and the line ends, and
it reads back as the lines of the value, unless an item after the first begins as an
argument of the line break before it.
-/
namespace LatexCore.FrontMatter
open Core Foundation Workspace Std TexText

/-! ## Templates -/

def FirstAt (pattern text before after : List Char) : Prop :=
  text = before ++ pattern ++ after ∧
    ∀ early late, text = early ++ pattern ++ late → before.length ≤ early.length

/-- A text taken apart from left to right: the literal texts, each with the inside of the
placeholder after it, and the text after the last placeholder. -/
inductive Template : List Char → List (List Char × List Char) → List Char → Prop
  | done {source : List Char} (h : ∀ before after, source ≠ before ++ openBraces ++ after) :
    Template source [] source
  | next {source literal rest inner after last : List Char} {parts : List (List Char × List Char)}
    (hopen : FirstAt openBraces source literal rest) (hclose : FirstAt closeBraces rest inner after)
    (more : Template after parts last) : Template source ((literal,inner) :: parts) last

def placeholderText (manifest : FrontMatterManifest) (values : StringMap ResolvedValue)
    (inner : List Char) : List Char :=
  let key := trim (String.ofList inner)
  ((fieldAt manifest key).map (replacement values · key)).getD []

theorem firstAt_of_split {pattern text before after : List Char}
    (h : splitAtText pattern text = some (before,after)) : FirstAt pattern text before after :=
  ⟨splitAtText_eq_some h,fun _ _ hocc => splitAtText_first h hocc⟩

theorem renderTex_template {path : String} {manifest : FrontMatterManifest}
    {values : StringMap ResolvedValue} (source : List Char) :
    ∀ output, renderTex path manifest values source = .ok output → ∃ parts last,
      Template source parts last ∧
        output = parts.flatMap (fun part => part.1 ++ placeholderText manifest values part.2) ++ last := by
  induction source using renderTex.induct with
  | case1 source hnone =>
    intro output h
    unfold renderTex at h
    split at h
    · obtain rfl := Except.ok.inj h
      exact ⟨[],source,.done (splitAtText_eq_none.mp hnone),rfl⟩
    · next hfound => rw [hnone] at hfound; cases hfound
  | case2 source literal rest hopen hclose =>
    intro output h
    unfold renderTex at h
    split at h
    · next hnone => rw [hopen] at hnone; cases hnone
    next literal' rest' hopen' =>
    obtain ⟨rfl,rfl⟩ : literal = literal' ∧ rest = rest' := by simpa [hopen] using hopen'
    split at h
    · cases h
    · next hfound => rw [hclose] at hfound; cases hfound
  | case3 source literal rest hopen inner after hclose ih =>
    intro output h
    unfold renderTex at h
    split at h
    · next hnone => rw [hopen] at hnone; cases hnone
    next literal' rest' hopen' =>
    obtain ⟨rfl,rfl⟩ : literal = literal' ∧ rest = rest' := by simpa [hopen] using hopen'
    split at h
    · next hnone => rw [hclose] at hnone; cases hnone
    next inner' after' hclose' =>
    obtain ⟨rfl,rfl⟩ : inner = inner' ∧ after = after' := by simpa [hclose] using hclose'
    simp only [bind_ok,require_ok,pure_ok] at h
    obtain ⟨field,hfield,later,hlater,rfl⟩ := h
    obtain ⟨parts,last,htemplate,rfl⟩ := ih later hlater
    refine ⟨(literal,inner) :: parts,last,.next (firstAt_of_split hopen) (firstAt_of_split hclose) htemplate,?_⟩
    simp [placeholderText,hfield]

theorem renderFiles_mem {manifest : FrontMatterManifest} {values : StringMap ResolvedValue}
    {disabled : List String} {files : List ImportedFile} {rendered : List RenderedFile}
    (h : renderFiles manifest values disabled files = .ok rendered) {file : ImportedFile} (hfile : file ∈ files) :
    ∃ out ∈ rendered, renderFile manifest values disabled file = .ok out := by
  induction files generalizing rendered with
  | nil => exact absurd hfile List.not_mem_nil
  | cons first rest ih =>
    simp only [renderFiles,bind_ok,pure_ok] at h
    obtain ⟨out,hout,later,hlater,rfl⟩ := h
    rcases List.mem_cons.mp hfile with rfl | hfile
    · exact ⟨out,List.mem_cons_self,hout⟩
    · obtain ⟨other,hother,hrendered⟩ := ih hlater hfile
      exact ⟨other,List.mem_cons_of_mem _ hother,hrendered⟩

theorem not_isManifest_of_isTex {file : ImportedFile} (h : file.isTex = true) : isManifest file = false := by
  by_contra hmanifest
  rw [Bool.not_eq_false,isManifest,decide_eq_true_eq] at hmanifest
  have hpath : file.path = manifestFile.path := LogicalPath.text_injective hmanifest
  rw [ImportedFile.isTex,hpath] at h
  revert h
  decide

theorem rendered_template {pack : ValidatedPack} {automatic overrides : StringMap Value}
    {choices : StringMap Bool} {rendered : RenderedPack}
    (h : resolveAndRender pack automatic overrides choices = .ok rendered) {file : ImportedFile}
    (hfile : file ∈ pack.files) (htex : file.isTex = true)
    (henabled : file.path.text ∉ disabledFiles pack.manifest rendered.enabledSections) :
    ∃ out ∈ rendered.files, out.path.text = managedRoot ++ "/" ++ file.path.text ∧
      ∃ source parts last, decodeUtf8 file.bytes = some source ∧ Template source parts last ∧
        decodeUtf8 out.bytes = some (parts.flatMap (fun part =>
          part.1 ++ placeholderText pack.manifest rendered.resolved part.2) ++ last) := by
  simp only [resolveAndRender,bind_ok,pure_ok] at h
  obtain ⟨-,-,-,-,⟨resolved,missing⟩,-,-,-,outs,houts,rfl⟩ := h
  have hmember : file ∈ pack.files.filter (fun file => !isManifest file) :=
    List.mem_filter.mpr ⟨hfile,by simp [not_isManifest_of_isTex htex]⟩
  obtain ⟨out,hout,hrendered⟩ := renderFiles_mem houts hmember
  simp only [renderFile,bind_ok,mapError_ok,pure_ok] at hrendered
  obtain ⟨path,hpath,bytes,hbytes,rfl⟩ := hrendered
  have hdisabled : (disabledFiles pack.manifest (enabledSections pack.manifest choices)).contains
      file.path.text = false := by simpa using henabled
  rw [renderBytes,if_pos htex,hdisabled] at hbytes
  simp only [Bool.false_eq_true,if_false,bind_ok,require_ok,pure_ok] at hbytes
  obtain ⟨source,hsource,output,houtput,rfl⟩ := hbytes
  obtain ⟨parts,last,htemplate,rfl⟩ := renderTex_template source output houtput
  exact ⟨⟨path,_⟩,List.mem_mergeSort.mpr (List.mem_append_left _ hout),parse_text_eq hpath,
    source,parts,last,hsource,htemplate,decode_encode _⟩

/-! ## Values -/

def valueLines (fieldType : FrontMatterFieldType) (value : Value) : List (List Char) :=
  match value.asArr? with
  | some items => itemsOf items
  | none =>
    match value.asBool? with
    | some value => [if value then "true".toList else "false".toList]
    | none =>
      let text := (value.asStr?.getD "").toList
      if fieldType = .multiline then lines text else lines (onOneLine text)

def ReadsBack (fieldType : FrontMatterFieldType) (value : Value) : Prop :=
  TexText.read (renderValue fieldType value) = some (valueLines fieldType value)

/-- The value is not one empty line, and no item after the first offers an argument to the line
break before it. -/
def Readable (fieldType : FrontMatterFieldType) (value : Value) : Prop :=
  valueLines fieldType value ≠ [[]] ∧
    ∀ items, value.asArr? = some items → ∀ item ∈ (itemsOf items).tail, ¬OffersArgument item

theorem shows_escape : Shows escapeLatexChar := by
  intro c rest
  unfold escapeLatexChar
  split
  case h_11 =>
    next hback hopen hclose hdollar hand hhash hpercent hunder hcircum htilde =>
    have hspecial : c ∉ specials := by
      simp only [specials,List.mem_cons,List.not_mem_nil,or_false,not_or]
      exact ⟨hopen,hclose,hdollar,hand,hhash,hpercent,hunder,hcircum,htilde⟩
    have hne : c ≠ '\\' := hback
    rw [List.singleton_append,tokenise,if_neg hspecial,charToken,if_neg (by simp [hne,hspecial])]
    all_goals simp [hne]
  all_goals
    simp +decide [tokenise,charToken,wordAt,controlWord,controlSymbol,skipGroup,skipNewline,stripPrefix]

theorem separates_itemBreak : Separates itemBreak .lineBreak := by
  intro rest
  simp +decide [itemBreak,tokenise,controlSymbol,skipNewline,stripPrefix]

theorem separates_lineEnd : Separates lineEnd .par := by
  intro rest
  simp +decide [lineEnd,tokenise,wordAt,controlWord,skipGroup,skipNewline,stripPrefix]

/-- What stands between the lines of a value. -/
def separatorOf (value : Value) : List Char := if value.asArr?.isSome then itemBreak else lineEnd

def separatorToken (value : Value) : TexToken := if value.asArr?.isSome then .lineBreak else .par

theorem separates_separatorOf (value : Value) : Separates (separatorOf value) (separatorToken value) := by
  unfold separatorOf separatorToken
  split
  · exact separates_itemBreak
  · exact separates_lineEnd

theorem newline_not_mem_onOneLine (text : List Char) : '\n' ∉ onOneLine text := by
  intro h
  obtain ⟨c,-,hc⟩ := List.mem_map.mp h
  split at hc
  · revert hc
    decide
  · next hne => exact hne (.inr hc)

theorem renderValue_eq (fieldType : FrontMatterFieldType) (value : Value) :
    renderValue fieldType value =
      (separatorOf value).intercalate ((valueLines fieldType value).map (·.flatMap escapeLatexChar)) := by
  unfold renderValue valueLines separatorOf
  cases harr : value.asArr? with
  | some items => rfl
  | none =>
    cases hbool : value.asBool? with
    | some b => cases b <;> rfl
    | none =>
      simp only [Option.isSome_none,Bool.false_eq_true,if_false]
      by_cases hmultiline : fieldType = .multiline
      · simp only [if_pos hmultiline]
        rfl
      · simp only [if_neg hmultiline]
        rw [lines_of_not_mem (newline_not_mem_onOneLine _)]
        split
        · next hempty => rw [hempty]; rfl
        · simp [escapeLatexText]

theorem readsBack_iff (fieldType : FrontMatterFieldType) (value : Value) :
    ReadsBack fieldType value ↔ Readable fieldType value := by
  rw [ReadsBack,renderValue_eq,read_join_iff shows_escape (separates_separatorOf value),Readable]
  refine and_congr_right (fun _ => ?_)
  unfold separatorToken
  cases harr : value.asArr? with
  | none =>
    simp only [Option.isSome_none,Bool.false_eq_true,if_false]
    exact iff_of_true readTokens_joined_par (fun _ h => by cases h)
  | some items =>
    have hlines : valueLines fieldType value = itemsOf items := by simp [valueLines,harr]
    simp only [Option.isSome_some,if_true,hlines,Option.some.injEq,forall_eq']
    constructor
    · intro h item hitem
      have hne : itemsOf items ≠ [] := by
        intro hnil
        rw [hnil] at hitem
        exact absurd hitem List.not_mem_nil
      exact (readTokens_joined_iff hne).mp (h hne) item hitem
    · exact fun h hne => (readTokens_joined_iff hne).mpr h

/-- A rendering holds characters and line ends only. -/
theorem isText_renderValue (fieldType : FrontMatterFieldType) (value : Value) :
    ∀ token ∈ tokenise (renderValue fieldType value), token.isText = true := by
  rw [renderValue_eq,tokenise_join shows_escape (separates_separatorOf value)]
  refine isText_joined ?_ _
  unfold separatorToken
  split <;> rfl

/-- A rendering replaces each placeholder once, and its values are text that reads back as their
lines exactly if they are readable. -/
theorem values_inert_iff (fieldType : FrontMatterFieldType) (value : Value) :
    (∀ pack automatic overrides choices rendered,
      resolveAndRender pack automatic overrides choices = .ok rendered → ∀ file ∈ pack.files,
        file.isTex = true → file.path.text ∉ disabledFiles pack.manifest rendered.enabledSections →
        ∃ out ∈ rendered.files, out.path.text = managedRoot ++ "/" ++ file.path.text ∧
          ∃ source parts last, decodeUtf8 file.bytes = some source ∧ Template source parts last ∧
            decodeUtf8 out.bytes = some (parts.flatMap (fun part =>
              part.1 ++ placeholderText pack.manifest rendered.resolved part.2) ++ last)) ∧
      (∀ token ∈ tokenise (renderValue fieldType value), token.isText = true) ∧
      (ReadsBack fieldType value ↔ Readable fieldType value) ∧
      ∀ otherType other, Readable fieldType value → Readable otherType other →
        valueLines fieldType value ≠ valueLines otherType other →
        renderValue fieldType value ≠ renderValue otherType other := by
  refine ⟨fun _ _ _ _ _ h file => rendered_template h,isText_renderValue fieldType value,
    readsBack_iff fieldType value,?_⟩
  intro otherType other hvalue hother hlines hsame
  have hread := (readsBack_iff fieldType value).mpr hvalue
  have hreadOther := (readsBack_iff otherType other).mpr hother
  rw [ReadsBack,hsame] at hread
  rw [ReadsBack,hread] at hreadOther
  exact hlines (Option.some.inj hreadOther)

/-- The star of the second item is read as the star of the line break before it. -/
theorem starred_item_lost :
    valueMatches .multiline (.arr [.str "Ann",.str "*Bob"]) = true ∧
      ¬ReadsBack .multiline (.arr [.str "Ann",.str "*Bob"]) := by
  refine ⟨by decide,fun h => ?_⟩
  have hreadable := (readsBack_iff _ _).mp h
  exact absurd (.inl (by decide)) (hreadable.2 _ rfl "*Bob".toList (by decide))

theorem underscores_differ :
    renderValue .text (.str "a_b") ≠ renderValue .text (.str "a\\_b") := by
  have hreadable : ∀ text : String, onOneLine text.toList ≠ [] → Readable .text (.str text) := by
    intro text hne
    refine ⟨?_,fun _ h => by cases h⟩
    have hlines : valueLines .text (.str text) = lines (onOneLine text.toList) := rfl
    rw [hlines,lines_of_not_mem (newline_not_mem_onOneLine _),if_neg hne]
    simpa using hne
  exact (values_inert_iff .text (.str "a_b")).2.2.2 .text (.str "a\\_b") (hreadable _ (by decide))
    (hreadable _ (by decide)) (by decide)

end LatexCore.FrontMatter
