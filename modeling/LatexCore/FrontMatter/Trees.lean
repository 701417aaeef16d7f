import LatexCore.Foundation.Lockstep
import LatexCore.FrontMatter.Inert

/-! # Rendered trees

A rendering puts every file of a pack but its manifest under the managed root, where
the paper inputs `frontmatter.tex`. A tree is well formed if that file leads to the
entry of the pack, what is enabled is there in full and no placeholder is left. The
text of a value starts with no brace, so a text that keeps a placeholder shows it.
-/
namespace LatexCore.FrontMatter
open Core Foundation Workspace Std

/-! ## Trees -/

/-- A TeX file by the allow-list, which ignores the case of the extension. -/
def spelledTex (file : ImportedFile) : Bool :=
  String.ofList (((extension file.path).getD "").toList.map Char.toLower) = "tex"

def NamesField (fields : List FrontMatterField) (bytes : Bytes) : Prop :=
  ∃ field ∈ fields, ∃ before inner after,
    bytes = before ++ encodeUtf8 (openBraces ++ inner ++ closeBraces) ++ after ∧
      trim (String.ofList inner) = field.key

def InFull (manifest : FrontMatterManifest) (values : StringMap ResolvedValue) (file : ImportedFile)
    (bytes : Bytes) : Prop :=
  ∃ source parts last, decodeUtf8 file.bytes = some source ∧ Template source parts last ∧
    bytes = encodeUtf8 (parts.flatMap (fun part =>
      part.1 ++ placeholderText manifest values part.2) ++ last)

/-- No placeholder of a declared field is left of those that the file has. -/
def Cleared (manifest : FrontMatterManifest) (values : StringMap ResolvedValue) (file : ImportedFile)
    (bytes : Bytes) : Prop :=
  InFull manifest values file bytes ∨ bytes = encodeUtf8 disabledText ∨
    bytes = file.bytes ∧ ¬NamesField manifest.fields file.bytes

def PlacedAt (file : ImportedFile) (out : RenderedFile) : Prop :=
  out.path.text = managedRoot ++ "/" ++ file.path.text

/-- A build in the root of the paper inputs the file at the path. -/
def Inputs (bytes : Bytes) (path : LogicalPath) : Prop :=
  ∃ before after,
    bytes = before ++ encodeUtf8 ("\\input\x7b".toList ++ path.text.toList ++ "\x7d".toList) ++ after

section Trees
variable (pack : ValidatedPack) (rendered : RenderedPack)

def RenderedAs (file : ImportedFile) (property : Bytes → Prop) : Prop :=
  ∃ out ∈ rendered.files, PlacedAt file out ∧ property out.bytes

def FullAt (name : String) : Prop :=
  ∃ file ∈ pack.files, file.path.text = name ∧
    RenderedAs rendered file (InFull pack.manifest rendered.resolved file)

structure WellFormedTree : Prop where
  distinct : (rendered.files.map (·.path)).Nodup
  managed : ∀ out ∈ rendered.files, managedPrefix <+: out.path.text.toList
  entry : ∃ out ∈ rendered.files, out.path = managedEntry ∧ ∃ file ∈ rendered.files,
    file.path.text = managedRoot ++ "/" ++ pack.manifest.entryFile ∧ (out = file ∨ Inputs out.bytes file.path)
  sections : ∀ item ∈ pack.manifest.sections, rendered.enabledSections[item.key]? = some true →
    FullAt pack rendered item.file
  entryInFull : FullAt pack rendered pack.manifest.entryFile
  cleared : ∀ file ∈ pack.files, spelledTex file = true →
    RenderedAs rendered file (Cleared pack.manifest rendered.resolved file)
  copied : ∀ file ∈ pack.files, isManifest file = false → spelledTex file = false →
    RenderedAs rendered file (· = file.bytes)

end Trees

/-! ## When a tree is well formed -/

section Conditions
variable (pack : ValidatedPack) (automatic overrides : StringMap Value) (choices : StringMap Bool)

def ReadsAsDisabled (file : ImportedFile) : Prop :=
  ∃ resolved missing,
    resolveFields automatic overrides ∅ [] pack.manifest.fields = .ok (resolved,missing) ∧
      InFull pack.manifest resolved file (encodeUtf8 disabledText)

def Shared (item : FrontMatterSection) : Prop :=
  item.file = pack.manifest.entryFile ∨
    ∃ other ∈ pack.manifest.sections, sectionEnabled choices other = true ∧ other.file = item.file

structure Regular : Prop where
  entry : pack.manifest.entryFile = "frontmatter.tex"
  spelled : ∀ file ∈ pack.files, spelledTex file = true → file.isTex = false →
    ¬NamesField pack.manifest.fields file.bytes
  apart : ∀ item ∈ pack.manifest.sections, sectionEnabled choices item = false → Shared pack choices item →
    ∃ file ∈ pack.files, file.path.text = item.file ∧ ReadsAsDisabled pack automatic overrides file

end Conditions

/-! ## Accepted packs -/

theorem validateReferencedTex_ok {name : String} {files : List ImportedFile}
    (h : validateReferencedTex name files = .ok ()) :
    ∃ file ∈ files, file.path.text = name ∧ file.isTex = true := by
  simp only [validateReferencedTex,bind_ok,mapError_ok,ensure_ok,decide_eq_true_eq,List.any_eq_true] at h
  obtain ⟨path,hparse,_,htex,file,hfile,hpath⟩ := h
  have hsame : file.path = path := LogicalPath.text_injective hpath
  refine ⟨file,hfile,hpath.trans (parse_text_eq hparse),?_⟩
  rw [ImportedFile.isTex,hsame,htex]
  rfl

theorem validateSections_ok {files : List ImportedFile} {sections : List FrontMatterSection}
    {seen : List String} (h : validateSections files seen sections = .ok ()) :
    (∀ item ∈ sections, item.key ∉ seen ∧ ∃ file ∈ files, file.path.text = item.file ∧ file.isTex = true) ∧
      sections.Pairwise (fun a b => a.key ≠ b.key) := by
  induction sections generalizing seen with
  | nil => simp
  | cons item rest ih =>
    simp only [validateSections,bind_ok,ensure_ok,Bool.not_eq_true',List.contains_eq_mem,
      decide_eq_false_iff_not] at h
    obtain ⟨-,-,-,-,-,hnew,-,-,_,hfile,hrest⟩ := h
    obtain ⟨hseen,hpairwise⟩ := ih hrest
    refine ⟨?_,List.pairwise_cons.mpr ⟨fun other hother heq => ?_,hpairwise⟩⟩
    · intro other hother
      rcases List.mem_cons.mp hother with rfl | hother
      · exact ⟨hnew,validateReferencedTex_ok hfile⟩
      · obtain ⟨hkey,hother⟩ := hseen other hother
        exact ⟨fun hmem => hkey (List.mem_cons_of_mem _ hmem),hother⟩
    · exact (hseen other hother).1 (by simp [heq])

theorem validateArchive_references {readManifest : Bytes → Option FrontMatterManifest}
    {archive : ImportedArchive} {pack : ValidatedPack} (h : validateArchive readManifest archive = .ok pack) :
    (∃ file ∈ pack.files, file.path.text = pack.manifest.entryFile ∧ file.isTex = true) ∧
      (∀ item ∈ pack.manifest.sections, ∃ file ∈ pack.files, file.path.text = item.file ∧ file.isTex = true) ∧
      pack.manifest.sections.Pairwise (fun a b => a.key ≠ b.key) := by
  simp only [validateArchive,validateManifest,bind_ok,pure_ok] at h
  obtain ⟨_,-,_,-,_,-,manifest,-,_,⟨_,-,_,hentry,_,hsections,_,-,-⟩,rfl⟩ := h
  obtain ⟨hfiles,hpairwise⟩ := validateSections_ok hsections
  exact ⟨validateReferencedTex_ok hentry,fun item hitem => (hfiles item hitem).2,hpairwise⟩

theorem get?_enabledSections {manifest : FrontMatterManifest} (choices : StringMap Bool)
    (hunique : manifest.sections.Pairwise (fun a b => a.key ≠ b.key)) {item : FrontMatterSection}
    (hitem : item ∈ manifest.sections) :
    (enabledSections manifest choices)[item.key]? = some (sectionEnabled choices item) := by
  unfold enabledSections
  refine ExtTreeMap.getElem?_ofList_of_mem compare_self ?_ (List.mem_map_of_mem hitem)
  rw [List.pairwise_map]
  exact hunique.imp (fun hne heq => hne (LawfulEqCmp.eq_of_compare heq))

theorem mem_disabledFiles {manifest : FrontMatterManifest} {choices : StringMap Bool}
    (hunique : manifest.sections.Pairwise (fun a b => a.key ≠ b.key)) {name : String} :
    name ∈ disabledFiles manifest (enabledSections manifest choices) ↔
      ∃ item ∈ manifest.sections, sectionEnabled choices item = false ∧ item.file = name := by
  simp only [disabledFiles,List.mem_map,List.mem_filter,decide_eq_true_eq,and_assoc]
  refine exists_congr (fun item => and_congr_right (fun hitem => ?_))
  rw [get?_enabledSections choices hunique hitem]
  simp

theorem spelledTex_of_isTex {file : ImportedFile} (h : file.isTex = true) : spelledTex file = true := by
  rw [ImportedFile.isTex,decide_eq_true_eq] at h
  rw [spelledTex,h]
  decide

theorem not_isManifest_of_spelledTex {file : ImportedFile} (h : spelledTex file = true) :
    isManifest file = false := by
  by_contra hmanifest
  rw [Bool.not_eq_false,isManifest,decide_eq_true_eq] at hmanifest
  have hpath : file.path = manifestFile.path := LogicalPath.text_injective hmanifest
  rw [spelledTex,hpath] at h
  revert h
  decide

/-! ## Rendered files -/

theorem resolveAndRender_ok {pack : ValidatedPack} {automatic overrides : StringMap Value}
    {choices : StringMap Bool} {rendered : RenderedPack} :
    resolveAndRender pack automatic overrides choices = .ok rendered ↔
      checkOverrides pack.manifest.fields overrides.keys = .ok () ∧
      checkChoices pack.manifest.sections choices.keys = .ok () ∧
      resolveFields automatic overrides ∅ [] pack.manifest.fields = .ok (rendered.resolved,[]) ∧
      rendered.enabledSections = enabledSections pack.manifest choices ∧
      ∃ outs, renderFiles pack.manifest rendered.resolved
          (disabledFiles pack.manifest (enabledSections pack.manifest choices))
          (pack.files.filter (fun file => !isManifest file)) = .ok outs ∧
        rendered.files = (outs ++ entryFiles pack.manifest).mergeSort
          (fun a b => (compare a.path b.path).isLE) := by
  simp only [resolveAndRender,bind_ok,pure_ok,ensure_ok,decide_eq_true_eq]
  constructor
  · rintro ⟨_,hoverrides,_,hchoices,⟨resolved,missing⟩,hresolved,_,rfl,outs,houts,rfl⟩
    exact ⟨hoverrides,hchoices,hresolved,rfl,outs,houts,rfl⟩
  · rintro ⟨hoverrides,hchoices,hresolved,henabled,outs,houts,hfiles⟩
    refine ⟨(),hoverrides,(),hchoices,(rendered.resolved,[]),hresolved,(),rfl,outs,houts,?_⟩
    cases rendered
    rw [← hfiles,← henabled]

theorem renderFiles_forall₂ {manifest : FrontMatterManifest} {values : StringMap ResolvedValue}
    {disabled : List String} {files : List ImportedFile} {outs : List RenderedFile}
    (h : renderFiles manifest values disabled files = .ok outs) :
    List.Forall₂ (fun file out => PlacedAt file out ∧
      renderBytes manifest values disabled file = .ok out.bytes) files outs := by
  induction files generalizing outs with
  | nil =>
    obtain rfl := pure_ok.mp h
    exact .nil
  | cons file rest ih =>
    simp only [renderFiles,renderFile,bind_ok,mapError_ok,pure_ok] at h
    obtain ⟨_,⟨path,hpath,bytes,hbytes,rfl⟩,later,hlater,rfl⟩ := h
    exact .cons ⟨parse_text_eq hpath,hbytes⟩ (ih hlater)

theorem PlacedAt.path_eq {file other : ImportedFile} {out : RenderedFile} (h : PlacedAt file out)
    (hother : PlacedAt other out) : file.path = other.path := by
  have htext := congrArg String.toList (h.symm.trans hother)
  simp only [String.toList_append] at htext
  exact LogicalPath.text_injective (String.toList_inj.mp (List.append_cancel_left htext))

theorem PlacedAt.managed {file : ImportedFile} {out : RenderedFile} (h : PlacedAt file out) :
    managedPrefix <+: out.path.text.toList := by
  refine ⟨file.path.text.toList,?_⟩
  rw [h,String.toList_append,String.toList_append]
  rfl

theorem renderBytes_copied {manifest : FrontMatterManifest} {values : StringMap ResolvedValue}
    {disabled : List String} {file : ImportedFile} {bytes : Bytes} (htex : file.isTex = false)
    (h : renderBytes manifest values disabled file = .ok bytes) : bytes = file.bytes := by
  rw [renderBytes,htex,if_neg Bool.false_ne_true] at h
  exact (pure_ok.mp h).symm

theorem renderBytes_disabled {manifest : FrontMatterManifest} {values : StringMap ResolvedValue}
    {disabled : List String} {file : ImportedFile} {bytes : Bytes} (htex : file.isTex = true)
    (hdisabled : file.path.text ∈ disabled) (h : renderBytes manifest values disabled file = .ok bytes) :
    bytes = encodeUtf8 disabledText := by
  rw [renderBytes,if_pos htex,if_pos (List.contains_iff_mem.mpr hdisabled)] at h
  exact (pure_ok.mp h).symm

theorem renderBytes_full {manifest : FrontMatterManifest} {values : StringMap ResolvedValue}
    {disabled : List String} {file : ImportedFile} {bytes : Bytes} (htex : file.isTex = true)
    (henabled : file.path.text ∉ disabled) (h : renderBytes manifest values disabled file = .ok bytes) :
    InFull manifest values file bytes := by
  rw [renderBytes,if_pos htex,if_neg (fun hmem => henabled (List.contains_iff_mem.mp hmem))] at h
  simp only [bind_ok,require_ok,pure_ok] at h
  obtain ⟨source,hsource,output,houtput,rfl⟩ := h
  obtain ⟨parts,last,htemplate,rfl⟩ := renderTex_template source output houtput
  exact ⟨source,parts,last,hsource,htemplate,rfl⟩

/-! ## Placeholders left -/

theorem escapeLatexChar_head (c : Char) : ∃ first rest, escapeLatexChar c = first :: rest ∧ first ≠ '{' := by
  unfold escapeLatexChar
  split
  case h_11 =>
    next hopen _ _ _ _ _ _ _ _ => exact ⟨c,[],rfl,hopen⟩
  all_goals exact ⟨'\\',_,rfl,by decide⟩

/-- The text of a value starts with no brace. -/
theorem renderValue_head (fieldType : FrontMatterFieldType) (value : Value) (rest : List Char) :
    renderValue fieldType value ≠ '{' :: rest := by
  rw [renderValue_eq]
  have hline : ∀ line rest : List Char, line.flatMap escapeLatexChar ≠ '{' :: rest := by
    intro line rest h
    cases line with
    | nil => cases h
    | cons c line =>
      obtain ⟨first,more,hescape,hfirst⟩ := escapeLatexChar_head c
      rw [List.flatMap_cons,hescape] at h
      exact hfirst (List.cons.inj h).1
  have hseparator : ∃ more, separatorOf value = '\\' :: more := by
    unfold separatorOf
    split
    · exact ⟨_,rfl⟩
    · exact ⟨_,rfl⟩
  obtain ⟨more,hmore⟩ := hseparator
  cases valueLines fieldType value with
  | nil => exact fun h => by cases h
  | cons line lines =>
    cases lines with
    | nil => simpa using hline line rest
    | cons next lines =>
      rw [List.map_cons,List.map_cons,List.intercalate_cons_cons]
      cases hfirst : line.flatMap escapeLatexChar with
      | nil => simp [hmore]
      | cons c text =>
        intro h
        obtain ⟨rfl,-⟩ := List.cons.inj h
        exact hline line text hfirst

theorem placeholderText_head (manifest : FrontMatterManifest) (values : StringMap ResolvedValue)
    (inner rest : List Char) : placeholderText manifest values inner ≠ '{' :: rest := by
  simp only [placeholderText,replacement]
  cases hfield : fieldAt manifest (trim (String.ofList inner)) with
  | none => simp
  | some field =>
    cases hvalue : values[trim (String.ofList inner)]? with
    | none => simp
    | some value => exact renderValue_head _ _ _

section Templates
variable {manifest : FrontMatterManifest} {values : StringMap ResolvedValue}
variable {source last : List Char} {parts : List (List Char × List Char)}

theorem Template.replaced_head (h : Template source parts last) (rest : List Char) :
    parts.flatMap (fun part => part.1 ++ placeholderText manifest values part.2) ++ last ≠
      '{' :: '{' :: rest := by
  induction h with
  | done hnone => exact hnone [] rest
  | @next source literal rest' inner after last parts hopen hclose more ih =>
    intro heq
    rw [List.flatMap_cons,List.append_assoc,List.append_assoc] at heq
    cases literal with
    | nil =>
      cases htext : placeholderText manifest values inner with
      | nil =>
        rw [htext] at heq
        exact ih heq
      | cons c text =>
        rw [htext] at heq
        obtain ⟨rfl,-⟩ := List.cons.inj heq
        exact placeholderText_head _ _ _ _ htext
    | cons c literal =>
      obtain ⟨rfl,hmore⟩ := List.cons.inj heq
      have hstart : ∃ late, source = [] ++ openBraces ++ late := by
        rw [hopen.1]
        cases literal with
        | nil => exact ⟨'{' :: rest',rfl⟩
        | cons d literal =>
          obtain ⟨rfl,-⟩ := List.cons.inj hmore
          exact ⟨literal ++ openBraces ++ rest',rfl⟩
      obtain ⟨late,hlate⟩ := hstart
      exact Nat.not_succ_le_zero _ (hopen.2 [] late hlate)

theorem Template.eq_nil_of_replaced (h : Template source parts last)
    (hsame : parts.flatMap (fun part => part.1 ++ placeholderText manifest values part.2) ++ last = source) :
    parts = [] := by
  cases h with
  | done hnone => rfl
  | @next _ literal rest inner after last parts hopen hclose more =>
    rw [hopen.1,List.flatMap_cons,List.append_assoc,List.append_assoc,List.append_assoc] at hsame
    have htail := List.append_cancel_left hsame
    cases htext : placeholderText manifest values inner with
    | nil =>
      rw [htext] at htail
      exact absurd htail (more.replaced_head rest)
    | cons c text =>
      rw [htext] at htail
      obtain ⟨rfl,-⟩ := List.cons.inj htail
      exact absurd htext (placeholderText_head _ _ _ _)

end Templates

theorem encodeUtf8_openBraces (text : List Char) : encodeUtf8 (openBraces ++ text) =
    ('{' : Char).val.toUInt8 :: ('{' : Char).val.toUInt8 :: encodeUtf8 text := by
  rw [encodeUtf8_append]
  rfl

theorem not_inFull_of_namesField {manifest : FrontMatterManifest} {values : StringMap ResolvedValue}
    {file : ImportedFile} {fields : List FrontMatterField} (hnames : NamesField fields file.bytes) :
    ¬InFull manifest values file file.bytes := by
  rintro ⟨source,parts,last,hsource,htemplate,hbytes⟩
  rw [hbytes,decode_encode,Option.some.injEq] at hsource
  obtain rfl := htemplate.eq_nil_of_replaced hsource
  obtain ⟨_,_,before,inner,after,hnamed,-⟩ := hnames
  obtain ⟨_,hnone⟩ : last = source ∧ ∀ before after, source ≠ before ++ openBraces ++ after := by
    cases htemplate with
    | done hnone => exact ⟨rfl,hnone⟩
  rw [List.append_assoc openBraces,encodeUtf8_openBraces,List.append_assoc,hbytes,hsource] at hnamed
  obtain ⟨early,late,hfirst,-,hlate⟩ := encodeUtf8_split (by decide) hnamed
  have hagain : encodeUtf8 late = [] ++ ('{' : Char).val.toUInt8 :: (encodeUtf8 (inner ++ closeBraces) ++ after) :=
    hlate
  obtain ⟨empty,later,hsecond,hempty,-⟩ := encodeUtf8_split (by decide) hagain
  rw [encodeUtf8_eq_nil.mp hempty] at hsecond
  refine hnone early later ?_
  rw [hfirst,hsecond]
  simp [openBraces]

theorem notice_names_nothing {fields : List FrontMatterField} :
    ¬NamesField fields (encodeUtf8 disabledText) := by
  rintro ⟨_,_,before,inner,after,hnamed,-⟩
  have hbyte : ('{' : Char).val.toUInt8 ∈ encodeUtf8 disabledText := by
    rw [hnamed,List.append_assoc openBraces,encodeUtf8_openBraces]
    simp
  revert hbyte
  decide

end LatexCore.FrontMatter
