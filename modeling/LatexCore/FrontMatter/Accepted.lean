import LatexCore.FrontMatter.Pack
import Mathlib.Data.List.Pairwise

/-! # Accepted packs render

The scanner of an upload and the one of a rendering find the same placeholders, so a
rendering meets no placeholder that the upload has not checked. Only the paths differ:
the managed root makes each path longer, and a path of an accepted pack may be too long
under it.
-/
namespace LatexCore.FrontMatter
open Core Foundation Workspace Std

/-! ## Keys -/

theorem validateFields_ok {fields : List FrontMatterField} {seen : List String}
    (h : validateFields seen fields = .ok ()) :
    (∀ field ∈ fields, field.key ∉ seen) ∧ fields.Pairwise (fun a b => a.key ≠ b.key) := by
  induction fields generalizing seen with
  | nil => simp
  | cons field rest ih =>
    simp only [validateFields,bind_ok,ensure_ok,Bool.not_eq_true',List.contains_eq_mem,
      decide_eq_false_iff_not] at h
    obtain ⟨-,-,-,-,-,hnew,-,-,-,-,hrest⟩ := h
    obtain ⟨hseen,hpairwise⟩ := ih hrest
    refine ⟨?_,List.pairwise_cons.mpr ⟨fun other hother heq => ?_,hpairwise⟩⟩
    · intro other hother
      rcases List.mem_cons.mp hother with rfl | hother
      · exact hnew
      · exact fun hmem => hseen other hother (List.mem_cons_of_mem _ hmem)
    · exact hseen other hother (by simp [heq])

theorem validateArchive_fields {readManifest : Bytes → Option FrontMatterManifest}
    {archive : ImportedArchive} {pack : ValidatedPack} (h : validateArchive readManifest archive = .ok pack) :
    pack.manifest.fields.Pairwise (fun a b => a.key ≠ b.key) := by
  simp only [validateArchive,validateManifest,bind_ok,pure_ok] at h
  obtain ⟨_,-,_,-,_,-,manifest,-,_,⟨_,-,_,-,_,-,_,hfields,-⟩,rfl⟩ := h
  exact (validateFields_ok hfields).2

theorem fieldAt_isSome {manifest : FrontMatterManifest} {key : String}
    (h : ∃ field ∈ manifest.fields, field.key = key) : ∃ field, fieldAt manifest key = some field := by
  obtain ⟨field,hfield,hkey⟩ := h
  refine Option.isSome_iff_exists.mp ?_
  rw [fieldAt,List.find?_isSome]
  exact ⟨field,List.mem_reverse.mpr hfield,by simp [hkey]⟩

/-! ## Placeholders -/

/-- The two scanners agree: a text that passes the one renders with the other. -/
theorem renderTex_of_placeholders {path : String} {manifest : FrontMatterManifest}
    (values : StringMap ResolvedValue) (source : List Char) :
    ∀ keys, placeholders path source = .ok keys → (∀ key ∈ keys, ∃ field ∈ manifest.fields, field.key = key) →
      ∃ output, renderTex path manifest values source = .ok output := by
  induction source using placeholders.induct with
  | case1 source hopen =>
    intro keys _ _
    refine ⟨source,?_⟩
    unfold renderTex
    split
    · rfl
    · next hfound => rw [hopen] at hfound; cases hfound
  | case2 source literal rest hopen hclose =>
    intro keys h
    unfold placeholders at h
    split at h
    · next hnone => rw [hopen] at hnone; cases hnone
    next literal' rest' hopen' =>
    obtain ⟨rfl,rfl⟩ : literal = literal' ∧ rest = rest' := by simpa [hopen] using hopen'
    split at h
    · cases h
    · next hfound => rw [hclose] at hfound; cases hfound
  | case3 source literal rest hopen inner after hclose ih =>
    intro keys h hdeclared
    unfold placeholders at h
    split at h
    · next hnone => rw [hopen] at hnone; cases hnone
    next literal' rest' hopen' =>
    obtain ⟨rfl,rfl⟩ : literal = literal' ∧ rest = rest' := by simpa [hopen] using hopen'
    split at h
    · cases h
    next inner' after' hclose' =>
    obtain ⟨rfl,rfl⟩ : inner = inner' ∧ after = after' := by simpa [hclose] using hclose'
    simp only [bind_ok,pure_ok] at h
    obtain ⟨-,-,later,hlater,rfl⟩ := h
    obtain ⟨field,hfield⟩ := fieldAt_isSome (hdeclared _ List.mem_cons_self)
    obtain ⟨output,houtput⟩ := ih later hlater (fun key hkey => hdeclared key (List.mem_cons_of_mem _ hkey))
    refine ⟨literal ++ replacement values field (trim (String.ofList inner)) ++ output,?_⟩
    unfold renderTex
    split
    · next hnone => rw [hopen] at hnone; cases hnone
    next literal' rest' hopen' =>
    obtain ⟨rfl,rfl⟩ : literal = literal' ∧ rest = rest' := by simpa [hopen] using hopen'
    split
    · next hnone => rw [hclose] at hnone; cases hnone
    next inner' after' hclose' =>
    obtain ⟨rfl,rfl⟩ : inner = inner' ∧ after = after' := by simpa [hclose] using hclose'
    simp only [bind_ok,require_ok,pure_ok]
    exact ⟨field,hfield,output,houtput,rfl⟩

/-! ## Paths -/

def managedPrefix : List Char := ".latex-core/frontmatter/".toList

theorem checkSegments_ok {segments : List (List Char)} :
    checkSegments segments = .ok () ↔ ∀ segment ∈ segments, checkSegment segment = .ok () := by
  induction segments with
  | nil => simp [checkSegments,pure_ok]
  | cons segment rest ih =>
    simp only [checkSegments,bind_ok,ih,List.forall_mem_cons]
    constructor
    · rintro ⟨_,h⟩
      exact h
    · intro h
      exact ⟨(),h⟩

theorem checkPath_managed (path : LogicalPath) :
    checkPath (managedRoot ++ "/" ++ path.text) = .ok () ↔ utf8Length path.text.toList ≤ 1000 := by
  have hparsed := path.parsed
  simp only [checkPath,bind_ok,ensure_ok,decide_eq_true_eq,checkSegments_ok] at hparsed
  obtain ⟨-,hne,-,-,-,-,-,hlast,-,hchars,hsegments⟩ := hparsed
  have htext : (managedRoot ++ "/" ++ path.text).toList = managedPrefix ++ path.text.toList := by
    rw [String.toList_append,String.toList_append]
    rfl
  have hlength : utf8Length (managedPrefix ++ path.text.toList) = 24 + utf8Length path.text.toList := by
    rw [utf8Length,List.map_append,List.sum_append]
    rfl
  have hsplit : (managedPrefix ++ path.text.toList).splitOn '/' =
      ".latex-core".toList :: "frontmatter".toList :: path.text.toList.splitOn '/' := by
    have hroot : managedPrefix ++ path.text.toList =
        ".latex-core".toList ++ '/' :: ("frontmatter".toList ++ '/' :: path.text.toList) := rfl
    rw [hroot,List.splitOn_append_cons_self_of_not_mem (by decide),
      List.splitOn_append_cons_self_of_not_mem (by decide)]
  simp only [checkPath,htext,bind_ok,ensure_ok,decide_eq_true_eq,checkSegments_ok,hlength,hsplit]
  constructor
  · rintro ⟨-,-,-,hfits,-⟩
    omega
  · intro hfits
    have hhead : (managedPrefix ++ path.text.toList).head? = some '.' := rfl
    have hany : (managedPrefix ++ path.text.toList).any forbidden = false := by
      rw [List.any_append,Bool.eq_false_iff.mpr hchars]
      decide
    refine ⟨(),List.append_ne_nil_of_right_ne_nil _ hne,(),?_,(),?_,(),?_,(),?_,?_⟩
    · omega
    · rw [hhead]
      decide
    · rw [List.getLast?_append_of_ne_nil _ hne]
      exact hlast
    · rw [hany]
      decide
    · intro segment hsegment
      simp only [List.mem_cons] at hsegment
      rcases hsegment with rfl | rfl | hsegment
      · decide
      · decide
      · exact hsegments segment hsegment

theorem parse_managed (path : LogicalPath) :
    (∃ managed, LogicalPath.parse (managedRoot ++ "/" ++ path.text) = .ok managed) ↔
      utf8Length path.text.toList ≤ 1000 := by
  rw [← checkPath_managed]
  constructor
  · rintro ⟨managed,h⟩
    unfold LogicalPath.parse at h
    split at h
    · assumption
    · cases h
  · intro h
    exact ⟨⟨_,h⟩,LogicalPath.parse_text ⟨_,h⟩⟩

/-! ## Values -/

section Values
variable (automatic overrides : StringMap Value)

/-- The selected value of a field has the wrong type, or a required field has none. -/
def Refused (field : FrontMatterField) : Prop :=
  (∃ selected, selectedValue automatic overrides field = some selected ∧
    (valueMatches field.fieldType selected.value = false ∨
      field.required = true ∧ emptyValue selected.value = true)) ∨
    selectedValue automatic overrides field = none ∧ field.required = true

theorem resolveFields_fine {fields : List FrontMatterField}
    (h : ∀ field ∈ fields, ¬Refused automatic overrides field) :
    ∀ resolved missing, ∃ result,
      resolveFields automatic overrides resolved missing fields = .ok (result,missing) := by
  induction fields with
  | nil => exact fun resolved missing => ⟨resolved,rfl⟩
  | cons field rest ih =>
    intro resolved missing
    have hfield := h field List.mem_cons_self
    have hrest := ih (fun other hother => h other (List.mem_cons_of_mem _ hother))
    rw [Refused,not_or] at hfield
    unfold resolveFields
    cases hselected : selectedValue automatic overrides field with
    | none =>
      have hoptional : field.required = false :=
        Bool.eq_false_iff.mpr (fun hrequired => hfield.2 ⟨hselected,hrequired⟩)
      simp only [hoptional]
      exact hrest resolved missing
    | some selected =>
      have hvalue : ¬(valueMatches field.fieldType selected.value = false ∨
          field.required = true ∧ emptyValue selected.value = true) :=
        fun hbad => hfield.1 ⟨selected,hselected,hbad⟩
      rw [not_or,Bool.not_eq_false] at hvalue
      have hfull : (field.required && emptyValue selected.value) = false := by
        rw [Bool.and_eq_false_iff,← Bool.not_eq_true,← Bool.not_eq_true]
        exact not_and_or.mp hvalue.2
      simp only [hvalue.1,ensure,hfull]
      exact hrest (resolved.insert field.key selected) missing

theorem resolveFields_refused {fields : List FrontMatterField} :
    ∀ resolved missing, ((∃ field ∈ fields, Refused automatic overrides field) ∨ missing ≠ []) →
      (∃ key, resolveFields automatic overrides resolved missing fields = .error (.invalidValue key)) ∨
        ∃ result labels, resolveFields automatic overrides resolved missing fields = .ok (result,labels) ∧
          labels ≠ [] := by
  induction fields with
  | nil =>
    intro resolved missing h
    rcases h with ⟨field,hfield,-⟩ | h
    · exact absurd hfield List.not_mem_nil
    · exact .inr ⟨resolved,missing,rfl,h⟩
  | cons field rest ih =>
    intro resolved missing h
    unfold resolveFields
    cases hselected : selectedValue automatic overrides field with
    | none =>
      refine ih resolved _ ?_
      by_cases hrequired : field.required = true
      · exact .inr (by simp [hrequired])
      · rcases h with ⟨other,hother,hrefused⟩ | h
        · rcases List.mem_cons.mp hother with rfl | hother
          · rcases hrefused with ⟨selected,hfound,-⟩ | ⟨-,hrefused⟩
            · rw [hselected] at hfound
              cases hfound
            · exact absurd hrefused hrequired
          · exact .inl ⟨other,hother,hrefused⟩
        · exact .inr (by simpa [hrequired] using h)
    | some selected =>
      cases hmatches : valueMatches field.fieldType selected.value with
      | false => exact .inl ⟨field.key,by simp [hmatches,ensure,bind,Except.bind]⟩
      | true =>
        simp only [hmatches,ensure]
        refine ih (resolved.insert field.key selected) _ ?_
        by_cases hempty : (field.required && emptyValue selected.value) = true
        · exact .inr (by simp [hempty])
        · rcases h with ⟨other,hother,hrefused⟩ | h
          · rcases List.mem_cons.mp hother with rfl | hother
            · rcases hrefused with ⟨found,hfound,hbad⟩ | ⟨hnone,-⟩
              · obtain rfl : selected = found := Option.some.inj (hselected.symm.trans hfound)
                rcases hbad with hbad | hbad
                · rw [hmatches] at hbad
                  cases hbad
                · exact absurd (by simp [hbad.1,hbad.2]) hempty
              · rw [hselected] at hnone
                cases hnone
            · exact .inl ⟨other,hother,hrefused⟩
          · exact .inr (by simpa [hempty] using h)

end Values

/-! ## Packs -/

/-- What is known of each file of an accepted pack. -/
def Renderable (manifest : FrontMatterManifest) (file : ImportedFile) : Prop :=
  file.isTex = true → ∃ text keys, decodeUtf8 file.bytes = some text ∧
    placeholders file.path.text text = .ok keys ∧ ∀ key ∈ keys, ∃ field ∈ manifest.fields, field.key = key

theorem renderBytes_ok {manifest : FrontMatterManifest} {file : ImportedFile}
    (h : Renderable manifest file) (values : StringMap ResolvedValue) (disabled : List String) :
    ∃ bytes, renderBytes manifest values disabled file = .ok bytes := by
  unfold renderBytes
  by_cases htex : file.isTex = true
  · rw [if_pos htex]
    by_cases hdisabled : disabled.contains file.path.text = true
    · exact ⟨_,if_pos hdisabled⟩
    · obtain ⟨text,keys,htext,hkeys,hdeclared⟩ := h htex
      obtain ⟨output,houtput⟩ := renderTex_of_placeholders values text keys hkeys hdeclared
      rw [if_neg hdisabled]
      refine ⟨encodeUtf8 output,?_⟩
      simp only [bind_ok,require_ok,pure_ok]
      exact ⟨text,htext,output,houtput,rfl⟩
  · exact ⟨file.bytes,if_neg htex⟩

theorem renderFile_ok {manifest : FrontMatterManifest} {file : ImportedFile} (h : Renderable manifest file)
    (values : StringMap ResolvedValue) (disabled : List String)
    (hpath : utf8Length file.path.text.toList ≤ 1000) :
    ∃ rendered, renderFile manifest values disabled file = .ok rendered := by
  obtain ⟨managed,hmanaged⟩ := (parse_managed file.path).mpr hpath
  obtain ⟨bytes,hbytes⟩ := renderBytes_ok h values disabled
  refine ⟨⟨managed,bytes⟩,?_⟩
  simp only [renderFile,bind_ok,mapError_ok,pure_ok]
  exact ⟨managed,hmanaged,bytes,hbytes,rfl⟩

theorem renderFile_error {manifest : FrontMatterManifest} {file : ImportedFile}
    (values : StringMap ResolvedValue) (disabled : List String)
    (hpath : ¬utf8Length file.path.text.toList ≤ 1000) :
    renderFile manifest values disabled file = .error (.invalidPath file.path.text) := by
  rw [← parse_managed] at hpath
  unfold renderFile
  cases hparse : LogicalPath.parse (managedRoot ++ "/" ++ file.path.text) with
  | ok managed => exact absurd ⟨managed,hparse⟩ hpath
  | error error => rfl

theorem renderFiles_cases {manifest : FrontMatterManifest} {files : List ImportedFile}
    (h : ∀ file ∈ files, Renderable manifest file) (values : StringMap ResolvedValue) (disabled : List String) :
    ((∀ file ∈ files, utf8Length file.path.text.toList ≤ 1000) ∧
        ∃ rendered, renderFiles manifest values disabled files = .ok rendered) ∨
      ((¬∀ file ∈ files, utf8Length file.path.text.toList ≤ 1000) ∧
        ∃ path, renderFiles manifest values disabled files = .error (.invalidPath path)) := by
  induction files with
  | nil => exact .inl ⟨by simp,[],rfl⟩
  | cons file rest ih =>
    have hrest := ih (fun other hother => h other (List.mem_cons_of_mem _ hother))
    by_cases hpath : utf8Length file.path.text.toList ≤ 1000
    · obtain ⟨rendered,hrendered⟩ := renderFile_ok (h file List.mem_cons_self) values disabled hpath
      rcases hrest with ⟨hall,later,hlater⟩ | ⟨hnot,path,herror⟩
      · refine .inl ⟨List.forall_mem_cons.mpr ⟨hpath,hall⟩,rendered :: later,?_⟩
        simp only [renderFiles,bind_ok,pure_ok]
        exact ⟨rendered,hrendered,later,hlater,rfl⟩
      · refine .inr ⟨fun hall => hnot (List.forall_mem_cons.mp hall).2,path,?_⟩
        simp only [renderFiles,hrendered,herror,bind,Except.bind]
    · refine .inr ⟨fun hall => hpath (List.forall_mem_cons.mp hall).1,file.path.text,?_⟩
      simp only [renderFiles,renderFile_error values disabled hpath,bind,Except.bind]

theorem renderable_of_accepted {readManifest : Bytes → Option FrontMatterManifest} {archive : ImportedArchive}
    {pack : ValidatedPack} (h : validateArchive readManifest archive = .ok pack) :
    ∀ file ∈ pack.files, Renderable pack.manifest file :=
  fun file hfile => validatePlaceholders_ok (validateArchive_ok h).2 file hfile

def OverridesAllowed (pack : ValidatedPack) (overrides : StringMap Value) : Prop :=
  ∀ key ∈ overrides, ∃ field ∈ pack.manifest.fields, field.key = key ∧ field.allowTeamOverride = true

def ChoicesDeclared (pack : ValidatedPack) (choices : StringMap Bool) : Prop :=
  ∀ key ∈ choices, ∃ item ∈ pack.manifest.sections, item.key = key

theorem checkOverrides_ok {fields : List FrontMatterField}
    (hunique : fields.Pairwise (fun a b => a.key ≠ b.key)) {keys : List String}
    (h : ∀ key ∈ keys, ∃ field ∈ fields, field.key = key ∧ field.allowTeamOverride = true) :
    checkOverrides fields keys = .ok () := by
  induction keys with
  | nil => rfl
  | cons key rest ih =>
    obtain ⟨field,hfield,hkey,hallowed⟩ := h key List.mem_cons_self
    have hfind : fields.find? (fun field => field.key = key) = some field := by
      obtain ⟨found,hfound⟩ := Option.isSome_iff_exists.mp
        (List.find?_isSome.mpr ⟨field,hfield,by simp [hkey]⟩ :
          (fields.find? (fun field => decide (field.key = key))).isSome = true)
      have hsame : found = field := by
        have hfoundkey : found.key = key := by simpa using List.find?_some hfound
        have : Std.Symm (fun a b : FrontMatterField => a.key ≠ b.key) := ⟨fun _ _ h => h.symm⟩
        by_contra hne
        exact hunique.forall (List.mem_of_find?_eq_some hfound) hfield hne (hfoundkey.trans hkey.symm)
      rw [hfound,hsame]
    simp only [checkOverrides,bind_ok,require_ok,ensure_ok]
    exact ⟨field,hfind,(),hallowed,ih (fun other hother => h other (List.mem_cons_of_mem _ hother))⟩

theorem checkChoices_ok {sections : List FrontMatterSection} {keys : List String}
    (h : ∀ key ∈ keys, ∃ item ∈ sections, item.key = key) : checkChoices sections keys = .ok () := by
  induction keys with
  | nil => rfl
  | cons key rest ih =>
    obtain ⟨item,hitem,hkey⟩ := h key List.mem_cons_self
    simp only [checkChoices,bind_ok,ensure_ok,List.any_eq_true,decide_eq_true_eq]
    exact ⟨(),⟨item,hitem,hkey⟩,ih (fun other hother => h other (List.mem_cons_of_mem _ hother))⟩

def RendersOrAsks (result : Except FrontMatterError RenderedPack) : Prop :=
  (∃ rendered, result = .ok rendered) ∨ (∃ labels, result = .error (.missingRequired labels)) ∨
    ∃ key, result = .error (.invalidValue key)

def PathsFit (pack : ValidatedPack) : Prop :=
  ∀ file ∈ pack.files, isManifest file = false → utf8Length file.path.text.toList ≤ 1000

section Accepted
variable {readManifest : Bytes → Option FrontMatterManifest} {archive : ImportedArchive} {pack : ValidatedPack}
variable {automatic overrides : StringMap Value} {choices : StringMap Bool}

theorem resolveAndRender_checked (accepted : validateArchive readManifest archive = .ok pack)
    (hoverrides : OverridesAllowed pack overrides) (hchoices : ChoicesDeclared pack choices) :
    checkOverrides pack.manifest.fields overrides.keys = .ok () ∧
      checkChoices pack.manifest.sections choices.keys = .ok () :=
  ⟨checkOverrides_ok (validateArchive_fields accepted)
      (fun key hkey => hoverrides key (ExtTreeMap.mem_keys.mp hkey)),
    checkChoices_ok (fun key hkey => hchoices key (ExtTreeMap.mem_keys.mp hkey))⟩

theorem resolveAndRender_refused (accepted : validateArchive readManifest archive = .ok pack)
    (hoverrides : OverridesAllowed pack overrides) (hchoices : ChoicesDeclared pack choices)
    (hrefused : ∃ field ∈ pack.manifest.fields, Refused automatic overrides field) :
    RendersOrAsks (resolveAndRender pack automatic overrides choices) := by
  obtain ⟨hallowed,hdeclared⟩ := resolveAndRender_checked accepted hoverrides hchoices
  simp only [resolveAndRender,hallowed,hdeclared]
  rcases resolveFields_refused automatic overrides ∅ [] (.inl hrefused) with
    ⟨key,hkey⟩ | ⟨result,labels,hresult,hlabels⟩
  · exact .inr (.inr ⟨key,by rw [hkey]; rfl⟩)
  · refine .inr (.inl ⟨labels,?_⟩)
    rw [hresult]
    simp [bind,Except.bind,ensure,hlabels]

theorem resolveAndRender_fine (accepted : validateArchive readManifest archive = .ok pack)
    (hoverrides : OverridesAllowed pack overrides) (hchoices : ChoicesDeclared pack choices)
    (hfine : ¬∃ field ∈ pack.manifest.fields, Refused automatic overrides field) :
    (PathsFit pack ∧ ∃ rendered, resolveAndRender pack automatic overrides choices = .ok rendered) ∨
      (¬PathsFit pack ∧
        ∃ path, resolveAndRender pack automatic overrides choices = .error (.invalidPath path)) := by
  obtain ⟨hallowed,hdeclared⟩ := resolveAndRender_checked accepted hoverrides hchoices
  obtain ⟨resolved,hresolved⟩ := resolveFields_fine automatic overrides
    (fun field hfield hbad => hfine ⟨field,hfield,hbad⟩) ∅ []
  have hfiles : ∀ file ∈ pack.files.filter (fun file => !isManifest file), Renderable pack.manifest file :=
    fun file hfile => renderable_of_accepted accepted file (List.mem_of_mem_filter hfile)
  have hfit : PathsFit pack ↔ ∀ file ∈ pack.files.filter (fun file => !isManifest file),
      utf8Length file.path.text.toList ≤ 1000 := by
    simp only [PathsFit,List.mem_filter,Bool.not_eq_true',and_imp]
  simp only [resolveAndRender,hallowed,hdeclared,hresolved,hfit]
  rcases renderFiles_cases hfiles resolved (disabledFiles pack.manifest (enabledSections pack.manifest choices)) with
    ⟨hall,rendered,hrendered⟩ | ⟨hnot,path,herror⟩
  · refine .inl ⟨hall,?_⟩
    simp only [bind,Except.bind,ensure,hrendered]
    exact ⟨_,rfl⟩
  · refine .inr ⟨hnot,path,?_⟩
    simp only [bind,Except.bind,ensure,herror]
    rfl

theorem not_rendersOrAsks (accepted : validateArchive readManifest archive = .ok pack)
    (hoverrides : OverridesAllowed pack overrides) (hchoices : ChoicesDeclared pack choices)
    (hfine : ¬∃ field ∈ pack.manifest.fields, Refused automatic overrides field) (hlong : ¬PathsFit pack) :
    ¬RendersOrAsks (resolveAndRender pack automatic overrides choices) := by
  rcases resolveAndRender_fine accepted hoverrides hchoices hfine with ⟨hfit,-⟩ | ⟨-,path,hpath⟩
  · exact absurd hfit hlong
  · rw [hpath]
    rintro (⟨_,h⟩ | ⟨_,h⟩ | ⟨_,h⟩) <;> cases h

end Accepted

/-- An accepted pack renders or asks for values exactly if values are refused or all its paths
have room for the managed root. -/
theorem accepted_pack_renders_iff (readManifest : Bytes → Option FrontMatterManifest)
    (archive : ImportedArchive) (pack : ValidatedPack) (automatic overrides : StringMap Value)
    (choices : StringMap Bool) (accepted : validateArchive readManifest archive = .ok pack)
    (hoverrides : OverridesAllowed pack overrides) (hchoices : ChoicesDeclared pack choices) :
    RendersOrAsks (resolveAndRender pack automatic overrides choices) ↔
      (∃ field ∈ pack.manifest.fields, Refused automatic overrides field) ∨ PathsFit pack := by
  by_cases hrefused : ∃ field ∈ pack.manifest.fields, Refused automatic overrides field
  · exact iff_of_true (resolveAndRender_refused accepted hoverrides hchoices hrefused) (.inl hrefused)
  rw [or_iff_right hrefused]
  constructor
  · intro h
    by_contra hlong
    exact not_rendersOrAsks accepted hoverrides hchoices hrefused hlong h
  · intro hfit
    rcases resolveAndRender_fine accepted hoverrides hchoices hrefused with ⟨-,rendered⟩ | ⟨hlong,-⟩
    · exact .inl rendered
    · exact absurd hfit hlong

/-! ## A pack with a long path -/

def sampleManifest : FrontMatterManifest := ⟨1,"frontmatter.tex",[],[]⟩

def sampleText : List Char :=
  "\x7b\"schema_version\":1,\"entry_file\":\"frontmatter.tex\",\"sections\":[],\"fields\":[]\x7d".toList

def readSample (bytes : Bytes) : Option FrontMatterManifest :=
  if bytes = encodeUtf8 sampleText then some sampleManifest else none

def manifestFile : ImportedFile := ⟨⟨manifestPath,by decide⟩,encodeUtf8 sampleText⟩
def texFile : ImportedFile := ⟨⟨"frontmatter.tex",by decide⟩,encodeUtf8 []⟩

def longSegment : List Char := List.replicate 250 'a'

/-- The characters of a path of 1009 bytes. -/
def longChars : List Char :=
  ['/'].intercalate [longSegment,longSegment,longSegment,longSegment,"x.png".toList]

theorem longChars_parsed : checkPath (String.ofList longChars) = .ok () := by
  have hlist : (String.ofList longChars).toList = longChars := String.toList_ofList
  unfold checkPath
  rw [hlist]
  decide +kernel

def longFile : ImportedFile := ⟨⟨String.ofList longChars,longChars_parsed⟩,[]⟩

theorem longFile_chars : longFile.path.text.toList = longChars := String.toList_ofList

theorem longFile_extension : extension longFile.path = some "png" := by
  unfold extension fileName
  rw [longFile_chars]
  decide +kernel

theorem placeholders_nil (path : String) : placeholders path [] = .ok [] := by
  unfold placeholders
  split
  · rfl
  · next hfound => cases hfound

theorem sample_accepted (more : List ImportedFile) (htex : ∀ file ∈ more, file.isTex = false)
    (hfiles : checkFiles more = .ok ()) :
    validateArchive readSample ⟨manifestFile :: texFile :: more,none⟩ =
      .ok ⟨sampleManifest,manifestFile :: texFile :: more⟩ := by
  have hmore : validatePlaceholders [] more = .ok () := by
    clear hfiles
    induction more with
    | nil => rfl
    | cons file rest ih =>
      have hfile := htex file List.mem_cons_self
      have hrest := ih (fun other hother => htex other (List.mem_cons_of_mem _ hother))
      simpa [validatePlaceholders,validateTex,hfile] using hrest
  have hentry : validateReferencedTex "frontmatter.tex" (manifestFile :: texFile :: more) = .ok () := by
    simp only [validateReferencedTex,bind_ok,mapError_ok,ensure_ok]
    exact ⟨texFile.path,LogicalPath.parse_text texFile.path,(),by decide,by simp [manifestFile,texFile]⟩
  have hmanifest : validateTex [] manifestFile = .ok () := rfl
  have hfile : validateTex [] texFile = .ok () := by
    have htext : decodeUtf8 texFile.bytes = some [] := decode_encode []
    have htex : texFile.isTex = true := by decide
    simp only [validateTex,htex,if_true,htext,require,bind_ok]
    exact ⟨[],rfl,[],placeholders_nil _,rfl⟩
  have hvalid : validateManifest sampleManifest (manifestFile :: texFile :: more) = .ok () := by
    simp only [validateManifest,bind_ok]
    exact ⟨(),rfl,(),hentry,(),rfl,(),rfl,by simp [sampleManifest,validatePlaceholders,hmanifest,hfile,hmore,bind_ok]⟩
  simp only [validateArchive,bind_ok,require_ok,ensure_ok,pure_ok]
  refine ⟨manifestFile,rfl,(),?_,(),?_,sampleManifest,if_pos rfl,(),hvalid,rfl⟩
  · have htexFile : texFile.isTex = true := by decide
    simp [htexFile]
  · simp only [checkFiles,bind_ok]
    exact ⟨(),by decide,(),by decide,hfiles⟩

/-- The pack with the long path is accepted and does not render. -/
theorem long_path_stops_rendering :
    validateArchive readSample ⟨[manifestFile,texFile,longFile],none⟩ =
        .ok ⟨sampleManifest,[manifestFile,texFile,longFile]⟩ ∧
      ¬RendersOrAsks (resolveAndRender ⟨sampleManifest,[manifestFile,texFile,longFile]⟩ ∅ ∅ ∅) := by
  have htex : ∀ file ∈ [longFile], file.isTex = false := by
    intro file hfile
    rw [List.mem_singleton.mp hfile,ImportedFile.isTex,longFile_extension]
    decide
  have hfiles : checkFiles [longFile] = .ok () := by
    simp only [checkFiles,longFile_extension,bind_ok,ensure_ok]
    exact ⟨(),by simp [allowedExtensions],rfl⟩
  have haccepted := sample_accepted [longFile] htex hfiles
  refine ⟨haccepted,not_rendersOrAsks haccepted ?_ ?_ ?_ ?_⟩
  · intro key hkey
    exact absurd hkey ExtTreeMap.not_mem_empty
  · intro key hkey
    exact absurd hkey ExtTreeMap.not_mem_empty
  · rintro ⟨field,hfield,-⟩
    exact absurd hfield List.not_mem_nil
  · intro hfit
    have hname : isManifest longFile = false := by
      rw [isManifest,decide_eq_false_iff_not]
      intro hsame
      have hchars := congrArg String.toList hsame
      rw [longFile_chars] at hchars
      revert hchars
      decide +kernel
    have hlong := hfit longFile (by simp) hname
    rw [longFile_chars] at hlong
    revert hlong
    decide +kernel

theorem short_paths_render :
    RendersOrAsks (resolveAndRender ⟨sampleManifest,[manifestFile,texFile]⟩ ∅ ∅ ∅) := by
  refine (accepted_pack_renders_iff readSample ⟨[manifestFile,texFile],none⟩ _ ∅ ∅ ∅
    (sample_accepted [] (by simp) rfl) ?_ ?_).mpr (.inr ?_)
  · intro key hkey
    exact absurd hkey ExtTreeMap.not_mem_empty
  · intro key hkey
    exact absurd hkey ExtTreeMap.not_mem_empty
  · intro file hfile _
    rcases List.mem_pair.mp hfile with rfl | rfl <;> decide

end LatexCore.FrontMatter
