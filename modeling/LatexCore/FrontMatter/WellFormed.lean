import LatexCore.FrontMatter.Trees

/-! # Well formed trees

The tree of an accepted pack is well formed exactly if the entry file of the pack is
`frontmatter.tex`, no TeX file with an extension in another case names a field, and no
disabled section shares its file with the entry or with an enabled section. The file
that is generated for an entry of another name inputs no file under the managed root.
-/
namespace LatexCore.FrontMatter
open Core Foundation Workspace Std

/-! ## The tree of an accepted pack -/

theorem bytes_unique {rendered : RenderedPack} (hdistinct : (rendered.files.map (·.path)).Nodup)
    {out other : RenderedFile} (hout : out ∈ rendered.files) (hother : other ∈ rendered.files)
    (hpath : out.path = other.path) : out = other :=
  List.inj_on_of_nodup_map hdistinct hout hother hpath

section Accepted
variable {readManifest : Bytes → Option FrontMatterManifest} {archive : ImportedArchive} {pack : ValidatedPack}
variable {automatic overrides : StringMap Value} {choices : StringMap Bool} {rendered : RenderedPack}
variable (hrendered : resolveAndRender pack automatic overrides choices = .ok rendered)

abbrev RendersTo (pack : ValidatedPack) (choices : StringMap Bool) (rendered : RenderedPack)
    (file : ImportedFile) (out : RenderedFile) : Prop :=
  PlacedAt file out ∧ renderBytes pack.manifest rendered.resolved
    (disabledFiles pack.manifest (enabledSections pack.manifest choices)) file = .ok out.bytes

include hrendered

theorem rendered_of_file {file : ImportedFile} (hfile : file ∈ pack.files) (hname : isManifest file = false) :
    ∃ out ∈ rendered.files, RendersTo pack choices rendered file out := by
  obtain ⟨-,-,-,-,outs,houts,hfiles⟩ := resolveAndRender_ok.mp hrendered
  obtain ⟨out,hout,hrenders⟩ := related_left (renderFiles_forall₂ houts) file
    (List.mem_filter.mpr ⟨hfile,by simp [hname]⟩)
  refine ⟨out,?_,hrenders⟩
  rw [hfiles]
  exact List.mem_mergeSort.mpr (List.mem_append_left _ hout)

theorem file_of_rendered {out : RenderedFile} (hout : out ∈ rendered.files) :
    (∃ file ∈ pack.files, RendersTo pack choices rendered file out) ∨ out ∈ entryFiles pack.manifest := by
  obtain ⟨-,-,-,-,outs,houts,hfiles⟩ := resolveAndRender_ok.mp hrendered
  rw [hfiles,List.mem_mergeSort,List.mem_append] at hout
  rcases hout with hout | hout
  · obtain ⟨file,hfile,hrenders⟩ := related_right (renderFiles_forall₂ houts) out hout
    exact .inl ⟨file,List.mem_of_mem_filter hfile,hrenders⟩
  · exact .inr hout

theorem distinct_rendered (hdistinct : (pack.files.map (·.path)).Nodup)
    (hentry : pack.manifest.entryFile = "frontmatter.tex") : (rendered.files.map (·.path)).Nodup := by
  obtain ⟨-,-,-,-,outs,houts,hfiles⟩ := resolveAndRender_ok.mp hrendered
  have hnone : entryFiles pack.manifest = [] := if_neg (not_not.mpr hentry)
  rw [hfiles,hnone,List.append_nil]
  refine ((List.mergeSort_perm outs _).map _).nodup_iff.mpr ?_
  have hkept : ((pack.files.filter (fun file => !isManifest file)).map (·.path)).Nodup :=
    hdistinct.sublist (List.filter_sublist.map _)
  rw [List.Nodup,List.pairwise_map] at hkept ⊢
  refine (related_pairwise (renderFiles_forall₂ houts) ?_).mp hkept
  intro file out file' out' hplaced hplaced'
  refine not_congr ⟨fun hpath => ?_,fun hpath => ?_⟩
  · refine LogicalPath.text_injective ?_
    rw [hplaced.1,hplaced'.1,hpath]
  · refine hplaced.1.path_eq ?_
    rw [PlacedAt,hpath]
    exact hplaced'.1

theorem managed_rendered (hentry : pack.manifest.entryFile = "frontmatter.tex") :
    ∀ out ∈ rendered.files, managedPrefix <+: out.path.text.toList := by
  intro out hout
  rcases file_of_rendered hrendered hout with ⟨file,-,hplaced,-⟩ | hgenerated
  · exact hplaced.managed
  · have hnone : entryFiles pack.manifest = [] := if_neg (not_not.mpr hentry)
    rw [hnone] at hgenerated
    exact absurd hgenerated List.not_mem_nil

theorem renderedAs_of_file {file : ImportedFile} (hfile : file ∈ pack.files) (hname : isManifest file = false)
    {property : Bytes → Prop} (hproperty : ∀ bytes, renderBytes pack.manifest rendered.resolved
      (disabledFiles pack.manifest (enabledSections pack.manifest choices)) file = .ok bytes → property bytes) :
    RenderedAs rendered file property := by
  obtain ⟨out,hout,hplaced,hbytes⟩ := rendered_of_file hrendered hfile hname
  exact ⟨out,hout,hplaced,hproperty out.bytes hbytes⟩

theorem fullAt_of_file {file : ImportedFile} (hfile : file ∈ pack.files) (htex : file.isTex = true)
    (hnotice : file.path.text ∈ disabledFiles pack.manifest (enabledSections pack.manifest choices) →
      InFull pack.manifest rendered.resolved file (encodeUtf8 disabledText)) :
    FullAt pack rendered file.path.text := by
  refine ⟨file,hfile,rfl,renderedAs_of_file hrendered hfile (not_isManifest_of_isTex htex) ?_⟩
  intro bytes hbytes
  by_cases hdisabled :
      file.path.text ∈ disabledFiles pack.manifest (enabledSections pack.manifest choices)
  · rw [renderBytes_disabled htex hdisabled hbytes]
    exact hnotice hdisabled
  · exact renderBytes_full htex hdisabled hbytes

variable (accepted : validateArchive readManifest archive = .ok pack)
variable (hdistinct : (pack.files.map (·.path)).Nodup)
include accepted hdistinct

theorem Regular.notice (h : Regular pack automatic overrides choices) {file : ImportedFile}
    (hfile : file ∈ pack.files) (hshared : file.path.text = pack.manifest.entryFile ∨
      ∃ other ∈ pack.manifest.sections, sectionEnabled choices other = true ∧ other.file = file.path.text)
    (hdisabled : file.path.text ∈ disabledFiles pack.manifest (enabledSections pack.manifest choices)) :
    InFull pack.manifest rendered.resolved file (encodeUtf8 disabledText) := by
  obtain ⟨-,-,hunique⟩ := validateArchive_references accepted
  obtain ⟨item,hitem,hoff,hname⟩ := (mem_disabledFiles hunique).mp hdisabled
  have hitemShared : Shared pack choices item := by
    rw [Shared,hname]
    exact hshared
  obtain ⟨same,hsame,hsameName,resolved,missing,hresolved,hnotice⟩ := h.apart item hitem hoff hitemShared
  obtain rfl : same = file := List.inj_on_of_nodup_map hdistinct hsame hfile
    (LogicalPath.text_injective (hsameName.trans hname))
  obtain ⟨-,-,hrenderedFields,-⟩ := resolveAndRender_ok.mp hrendered
  rw [hresolved,Except.ok.injEq,Prod.mk.injEq] at hrenderedFields
  rw [← hrenderedFields.1]
  exact hnotice

theorem Regular.tree (h : Regular pack automatic overrides choices) : WellFormedTree pack rendered := by
  obtain ⟨⟨entry,hentry,hentryName,hentryTex⟩,hsections,hunique⟩ := validateArchive_references accepted
  obtain ⟨-,-,-,henabled,-⟩ := resolveAndRender_ok.mp hrendered
  constructor
  · exact distinct_rendered hrendered hdistinct h.entry
  · exact managed_rendered hrendered h.entry
  · obtain ⟨out,hout,hplaced,-⟩ := rendered_of_file hrendered hentry (not_isManifest_of_isTex hentryTex)
    have hplace : out.path.text = managedRoot ++ "/" ++ pack.manifest.entryFile := by
      rw [hplaced,hentryName]
    refine ⟨out,hout,LogicalPath.text_injective ?_,out,hout,hplace,.inl rfl⟩
    rw [hplace,h.entry]
    rfl
  · intro item hitem hon
    rw [henabled,get?_enabledSections choices hunique hitem,Option.some.injEq] at hon
    obtain ⟨file,hfile,hname,htex⟩ := hsections item hitem
    rw [← hname]
    exact fullAt_of_file hrendered hfile htex
      (h.notice hrendered accepted hdistinct hfile (.inr ⟨item,hitem,hon,hname.symm⟩))
  · rw [← hentryName]
    exact fullAt_of_file hrendered hentry hentryTex
      (h.notice hrendered accepted hdistinct hentry (.inl hentryName))
  · intro file hfile hspelled
    refine renderedAs_of_file hrendered hfile (not_isManifest_of_spelledTex hspelled) ?_
    intro bytes hbytes
    cases htex : file.isTex with
    | false => exact .inr (.inr ⟨renderBytes_copied htex hbytes,h.spelled file hfile hspelled htex⟩)
    | true =>
      by_cases hdisabled :
          file.path.text ∈ disabledFiles pack.manifest (enabledSections pack.manifest choices)
      · exact .inr (.inl (renderBytes_disabled htex hdisabled hbytes))
      · exact .inl (renderBytes_full htex hdisabled hbytes)
  · intro file hfile hname hspelled
    refine renderedAs_of_file hrendered hfile hname ?_
    intro bytes hbytes
    refine renderBytes_copied (Bool.eq_false_iff.mpr fun htex => ?_) hbytes
    rw [spelledTex_of_isTex htex] at hspelled
    cases hspelled

/-! ## What a well formed tree takes -/

omit accepted hdistinct in
theorem WellFormedTree.entryFile_eq (h : WellFormedTree pack rendered) :
    pack.manifest.entryFile = "frontmatter.tex" := by
  by_contra hentry
  obtain ⟨-,-,-,-,outs,-,hfiles⟩ := resolveAndRender_ok.mp hrendered
  let generated : RenderedFile := ⟨managedEntry,
    encodeUtf8 ("\\input\x7b".toList ++ pack.manifest.entryFile.toList ++ "\x7d\n".toList)⟩
  have hgenerated : generated ∈ rendered.files := by
    rw [hfiles,List.mem_mergeSort,entryFiles,if_pos hentry]
    exact List.mem_append_right _ (List.mem_singleton_self _)
  obtain ⟨out,hout,hpath,file,-,hname,hinputs⟩ := h.entry
  obtain rfl : out = generated := bytes_unique h.distinct hout hgenerated hpath
  rcases hinputs with rfl | ⟨before,after,hbytes⟩
  · have hchars := congrArg String.toList hname
    simp only [String.toList_append] at hchars
    have hroot : managedEntry.text.toList =
        managedRoot.toList ++ "/".toList ++ "frontmatter.tex".toList := rfl
    change managedEntry.text.toList = _ at hchars
    rw [hroot] at hchars
    exact hentry (String.toList_inj.mp (List.append_cancel_left hchars)).symm
  · have hlength := congrArg List.length hbytes
    simp only [generated,encodeUtf8_append,hname,String.toList_append,List.length_append] at hlength
    have hroot : (encodeUtf8 managedRoot.toList).length = 23 := rfl
    have hopen : (encodeUtf8 "\\input\x7b".toList).length = 7 := rfl
    have hend : (encodeUtf8 "\x7d\n".toList).length = 2 := rfl
    have hslash : (encodeUtf8 "/".toList).length = 1 := rfl
    have hclose : (encodeUtf8 "\x7d".toList).length = 1 := rfl
    omega

theorem WellFormedTree.regular (h : WellFormedTree pack rendered) :
    Regular pack automatic overrides choices := by
  obtain ⟨-,hsections,hunique⟩ := validateArchive_references accepted
  obtain ⟨-,-,hresolved,henabled,-⟩ := resolveAndRender_ok.mp hrendered
  constructor
  · exact h.entryFile_eq hrendered
  · intro file hfile hspelled htex hnames
    obtain ⟨out,hout,hplaced,hcleared⟩ := h.cleared file hfile hspelled
    obtain ⟨copy,hcopy,hcopyPlaced,hbytes⟩ :=
      rendered_of_file hrendered hfile (not_isManifest_of_spelledTex hspelled)
    obtain rfl : out = copy := bytes_unique h.distinct hout hcopy
      (LogicalPath.text_injective (hplaced.trans hcopyPlaced.symm))
    rw [renderBytes_copied htex hbytes] at hcleared
    rcases hcleared with hfull | hnotice | ⟨-,hnone⟩
    · exact not_inFull_of_namesField hnames hfull
    · rw [hnotice] at hnames
      exact notice_names_nothing hnames
    · exact hnone hnames
  · intro item hitem hoff hshared
    obtain ⟨file,hfile,hname,htex⟩ := hsections item hitem
    refine ⟨file,hfile,hname,rendered.resolved,[],hresolved,?_⟩
    have hfull : FullAt pack rendered item.file := by
      rcases hshared with hentry | ⟨other,hother,hon,hsame⟩
      · rw [hentry]
        exact h.entryInFull
      · rw [← hsame]
        refine h.sections other hother ?_
        rw [henabled,get?_enabledSections choices hunique hother,hon]
    obtain ⟨same,hsameFile,hsameName,out,hout,hplaced,hinFull⟩ := hfull
    obtain rfl : same = file := List.inj_on_of_nodup_map hdistinct hsameFile hfile
      (LogicalPath.text_injective (hsameName.trans hname.symm))
    obtain ⟨notice,hnotice,hnoticePlaced,hbytes⟩ :=
      rendered_of_file hrendered hfile (not_isManifest_of_isTex htex)
    obtain rfl : out = notice := bytes_unique h.distinct hout hnotice
      (LogicalPath.text_injective (hplaced.trans hnoticePlaced.symm))
    have hdisabled : same.path.text ∈ disabledFiles pack.manifest (enabledSections pack.manifest choices) :=
      (mem_disabledFiles hunique).mpr ⟨item,hitem,hoff,hname.symm⟩
    rw [renderBytes_disabled htex hdisabled hbytes] at hinFull
    exact hinFull

end Accepted

/-- The tree of an accepted pack is well formed exactly if the pack is regular for the choices. -/
theorem rendered_tree_well_formed_iff (readManifest : Bytes → Option FrontMatterManifest)
    (archive : ImportedArchive) (pack : ValidatedPack) (automatic overrides : StringMap Value)
    (choices : StringMap Bool) (rendered : RenderedPack)
    (accepted : validateArchive readManifest archive = .ok pack)
    (hdistinct : (archive.files.map (·.path)).Nodup)
    (hrendered : resolveAndRender pack automatic overrides choices = .ok rendered) :
    WellFormedTree pack rendered ↔ Regular pack automatic overrides choices := by
  rw [← (validateArchive_ok accepted).1] at hdistinct
  exact ⟨fun h => h.regular hrendered accepted hdistinct,fun h => h.tree hrendered accepted hdistinct⟩

/-! ## An entry file of another name -/

theorem renders_without_fields {readManifest : Bytes → Option FrontMatterManifest} {archive : ImportedArchive}
    {pack : ValidatedPack} (accepted : validateArchive readManifest archive = .ok pack)
    (hfields : pack.manifest.fields = []) (hfit : PathsFit pack) :
    ∃ rendered, resolveAndRender pack ∅ ∅ ∅ = .ok rendered := by
  have hfine : ¬∃ field ∈ pack.manifest.fields, Refused ∅ ∅ field := by
    rw [hfields]
    rintro ⟨field,hfield,-⟩
    exact absurd hfield List.not_mem_nil
  rcases resolveAndRender_fine accepted (fun key hkey => absurd hkey ExtTreeMap.not_mem_empty)
      (fun key hkey => absurd hkey ExtTreeMap.not_mem_empty) hfine with ⟨-,hrendered⟩ | ⟨hlong,-⟩
  · exact hrendered
  · exact absurd hfit hlong

theorem regular_tree_well_formed :
    ∃ rendered, resolveAndRender ⟨sampleManifest,[manifestFile,texFile]⟩ ∅ ∅ ∅ = .ok rendered ∧
      WellFormedTree ⟨sampleManifest,[manifestFile,texFile]⟩ rendered := by
  have haccepted := sample_accepted [] (by simp) rfl
  have hfit : PathsFit ⟨sampleManifest,[manifestFile,texFile]⟩ := by
    intro file hfile _
    rcases List.mem_pair.mp hfile with rfl | rfl <;> decide
  obtain ⟨rendered,hrendered⟩ := renders_without_fields haccepted rfl hfit
  refine ⟨rendered,hrendered,(rendered_tree_well_formed_iff readSample ⟨[manifestFile,texFile],none⟩ _ ∅ ∅ ∅
    rendered haccepted (by decide) hrendered).mpr ⟨rfl,?_,?_⟩⟩
  · intro file hfile hspelled htex
    rcases List.mem_pair.mp hfile with rfl | rfl
    · exact absurd hspelled (by decide)
    · exact absurd htex (by decide)
  · intro item hitem
    exact absurd hitem List.not_mem_nil

def coverManifest : FrontMatterManifest := ⟨1,"cover.tex",[],[]⟩

def coverText : List Char :=
  "\x7b\"schema_version\":1,\"entry_file\":\"cover.tex\",\"sections\":[],\"fields\":[]\x7d".toList

def readCover (bytes : Bytes) : Option FrontMatterManifest :=
  if bytes = encodeUtf8 coverText then some coverManifest else none

def coverFiles : List ImportedFile :=
  [⟨manifestFile.path,encodeUtf8 coverText⟩,texFile,⟨⟨"cover.tex",by decide⟩,encodeUtf8 []⟩]

theorem cover_accepted : validateArchive readCover ⟨coverFiles,none⟩ = .ok ⟨coverManifest,coverFiles⟩ := by
  have hentry : validateReferencedTex "cover.tex" coverFiles = .ok () := by
    simp only [validateReferencedTex,bind_ok,mapError_ok,ensure_ok]
    exact ⟨⟨"cover.tex",by decide⟩,LogicalPath.parse_text ⟨"cover.tex",by decide⟩,(),by decide,by decide⟩
  have htext : ∀ path, validateTex [] ⟨path,encodeUtf8 []⟩ = .ok () := by
    intro path
    unfold validateTex
    split
    · simp only [bind_ok,require_ok,decode_encode]
      exact ⟨[],rfl,[],placeholders_nil _,rfl⟩
    · rfl
  have hplaceholders : validatePlaceholders [] coverFiles = .ok () := by
    simp only [coverFiles,validatePlaceholders,bind_ok]
    exact ⟨(),rfl,(),htext _,(),htext _,rfl⟩
  have hvalid : validateManifest coverManifest coverFiles = .ok () := by
    simp only [validateManifest,bind_ok]
    exact ⟨(),rfl,(),hentry,(),rfl,(),rfl,hplaceholders⟩
  simp only [validateArchive,bind_ok,require_ok,ensure_ok,pure_ok]
  refine ⟨⟨⟨manifestPath,by decide⟩,encodeUtf8 coverText⟩,rfl,(),?_,(),?_,coverManifest,if_pos rfl,(),hvalid,rfl⟩
  · decide
  · simp only [coverFiles,checkFiles,bind_ok]
    exact ⟨(),by decide,(),by decide,(),by decide,rfl⟩

/-- Both the `frontmatter.tex` of the pack and the generated one are rendered to one path. -/
theorem other_entry_ill_formed :
    validateArchive readCover ⟨coverFiles,none⟩ = .ok ⟨coverManifest,coverFiles⟩ ∧
      ∃ rendered, resolveAndRender ⟨coverManifest,coverFiles⟩ ∅ ∅ ∅ = .ok rendered ∧
        ¬WellFormedTree ⟨coverManifest,coverFiles⟩ rendered := by
  have hfit : PathsFit ⟨coverManifest,coverFiles⟩ := by
    intro file hfile _
    simp only [coverFiles,List.mem_cons,List.not_mem_nil,or_false] at hfile
    rcases hfile with rfl | rfl | rfl <;> decide
  obtain ⟨rendered,hrendered⟩ := renders_without_fields cover_accepted rfl hfit
  refine ⟨cover_accepted,rendered,hrendered,fun htree => ?_⟩
  have hentry := htree.entryFile_eq hrendered
  revert hentry
  decide

end LatexCore.FrontMatter
