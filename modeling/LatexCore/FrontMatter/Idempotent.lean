import LatexCore.FrontMatter.Details
import LatexCore.Workspace.History

/-! # Refreshes

A refresh renders what an earlier rendering has stored: the chosen values, found by their
source, and the sections as they stand. With the same data of the team this is the earlier
rendering, and with other data the chosen values and the sections are still the same.
-/
namespace LatexCore.FrontMatter
open Core Foundation Workspace Std
open Papers (PaperTeam FrontMatterPin FrontMatterValue Response HeadState)

/-! ## Values and sections -/

section Values
variable {automatic overrides : StringMap Value} {field : FrontMatterField} {selected : ResolvedValue}

theorem selectedValue_cases (h : selectedValue automatic overrides field = some selected) :
    (field.allowTeamOverride = true ∧ ∃ value, overrides[field.key]? = some value ∧
        selected = ⟨value,"TEAM_OVERRIDE"⟩) ∨
      (field.allowTeamOverride = false ∨ overrides[field.key]? = none) ∧
        (selected.source = "AUTO" ∨ selected.source = "PACK_DEFAULT") := by
  have hlater : ∀ found, ((field.source.bind (fun source => automatic[source]?)).map
      (fun value => (⟨value,"AUTO"⟩ : ResolvedValue))).or
        (field.default.map (fun value => (⟨value,"PACK_DEFAULT"⟩ : ResolvedValue))) = some found →
      found.source = "AUTO" ∨ found.source = "PACK_DEFAULT" := by
    intro found hfound
    rcases Option.or_eq_some_iff.mp hfound with hauto | ⟨-,hdefault⟩
    · obtain ⟨_,-,rfl⟩ := Option.map_eq_some_iff.mp hauto
      exact .inl rfl
    · obtain ⟨_,-,rfl⟩ := Option.map_eq_some_iff.mp hdefault
      exact .inr rfl
  unfold selectedValue at h
  cases hallowed : field.allowTeamOverride with
  | false =>
    simp only [hallowed,Bool.false_eq_true,if_false,Option.none_or] at h
    exact .inr ⟨.inl rfl,hlater selected h⟩
  | true =>
    cases hoverride : overrides[field.key]? with
    | none =>
      simp only [hallowed,if_true,hoverride,Option.map_none,Option.none_or] at h
      exact .inr ⟨.inr rfl,hlater selected h⟩
    | some value =>
      simp only [hallowed,if_true,hoverride,Option.map_some,Option.some_or,Option.some.injEq] at h
      exact .inl ⟨rfl,value,rfl,h.symm⟩

theorem selectedValue_override {value : Value} (hallowed : field.allowTeamOverride = true)
    (h : overrides[field.key]? = some value) :
    selectedValue automatic overrides field = some ⟨value,"TEAM_OVERRIDE"⟩ := by
  simp [selectedValue,hallowed,h]

theorem resolveFields_ok {fields : List FrontMatterField} {resolved result : StringMap ResolvedValue}
    {missing labels : List String} (hunique : fields.Pairwise (fun a b => a.key ≠ b.key))
    (h : resolveFields automatic overrides resolved missing fields = .ok (result,labels)) :
    (∀ field ∈ fields, result[field.key]? = (selectedValue automatic overrides field).or resolved[field.key]?) ∧
      ∀ key, (∀ field ∈ fields, field.key ≠ key) → result[key]? = resolved[key]? := by
  induction fields generalizing resolved missing with
  | nil =>
    cases h
    exact ⟨fun field hfield => absurd hfield List.not_mem_nil,fun key _ => rfl⟩
  | cons field rest ih =>
    obtain ⟨hfirst,hunique⟩ := List.pairwise_cons.mp hunique
    rw [resolveFields] at h
    cases hselected : selectedValue automatic overrides field with
    | none =>
      rw [hselected] at h
      obtain ⟨hfields,hothers⟩ := ih hunique h
      refine ⟨fun other hother => ?_,fun key hkey => hothers key fun other hother =>
        hkey other (List.mem_cons_of_mem _ hother)⟩
      rcases List.mem_cons.mp hother with rfl | hother
      · rw [hselected,hothers _ fun other hother heq => hfirst other hother heq.symm]
        rfl
      · exact hfields other hother
    | some selected =>
      rw [hselected] at h
      simp only [bind_ok] at h
      obtain ⟨_,-,h⟩ := h
      obtain ⟨hfields,hothers⟩ := ih hunique h
      have hinsert : ∀ key, field.key ≠ key → (resolved.insert field.key selected)[key]? = resolved[key]? := by
        intro key hne
        rw [ExtTreeMap.getElem?_insert,if_neg]
        exact fun heq => hne (LawfulEqCmp.eq_of_compare heq)
      refine ⟨fun other hother => ?_,fun key hkey => ?_⟩
      · rcases List.mem_cons.mp hother with rfl | hother
        · rw [hselected,hothers _ fun other hother heq => hfirst other hother heq.symm]
          exact ExtTreeMap.getElem?_insert_self
        · rw [hfields other hother,hinsert _ (hfirst other hother)]
      · rw [hothers key fun other hother => hkey other (List.mem_cons_of_mem _ hother)]
        exact hinsert key (hkey field (List.mem_cons_self ..))

theorem checkOverrides_inv {fields : List FrontMatterField} {keys : List String}
    (h : checkOverrides fields keys = .ok ()) :
    ∀ key ∈ keys, ∃ field ∈ fields, field.key = key ∧ field.allowTeamOverride = true := by
  induction keys with
  | nil => exact fun key hkey => absurd hkey List.not_mem_nil
  | cons key rest ih =>
    simp only [checkOverrides,bind_ok,require_ok,ensure_ok] at h
    obtain ⟨field,hfind,_,hallowed,hrest⟩ := h
    intro other hother
    rcases List.mem_cons.mp hother with rfl | hother
    · exact ⟨field,List.mem_of_find?_eq_some hfind,by simpa using List.find?_some hfind,hallowed⟩
    · exact ih hrest other hother

end Values

section Rendered
variable {readManifest : Bytes → Option FrontMatterManifest} {archive : ImportedArchive} {pack : ValidatedPack}
variable {automatic automatic' overrides : StringMap Value} {choices : StringMap Bool}
variable {rendered rendered' : RenderedPack}
variable (accepted : validateArchive readManifest archive = .ok pack)
variable (hrendered : resolveAndRender pack automatic overrides choices = .ok rendered)
include accepted hrendered

theorem resolved_override_iff {key : String} {value : Value} :
    rendered.resolved[key]? = some ⟨value,"TEAM_OVERRIDE"⟩ ↔ overrides[key]? = some value := by
  obtain ⟨hoverrides,-,hresolved,-,-⟩ := resolveAndRender_ok.mp hrendered
  obtain ⟨hfields,hothers⟩ := resolveFields_ok (validateArchive_fields accepted) hresolved
  constructor
  · intro hkey
    by_cases hdeclared : ∃ field ∈ pack.manifest.fields, field.key = key
    · obtain ⟨field,hfield,rfl⟩ := hdeclared
      rw [hfields field hfield,ExtTreeMap.getElem?_empty,Option.or_none] at hkey
      rcases selectedValue_cases hkey with ⟨-,_,hvalue,hsame⟩ | ⟨-,hsource | hsource⟩
      · cases hsame
        exact hvalue
      · exact absurd (show "TEAM_OVERRIDE" = "AUTO" from hsource) (by decide)
      · exact absurd (show "TEAM_OVERRIDE" = "PACK_DEFAULT" from hsource) (by decide)
    · rw [hothers key fun field hfield heq => hdeclared ⟨field,hfield,heq⟩] at hkey
      exact absurd hkey (by simp)
  · intro hkey
    have hmem : key ∈ overrides.keys := by
      rw [ExtTreeMap.mem_keys,ExtTreeMap.mem_iff_isSome_getElem?,hkey]
      rfl
    obtain ⟨field,hfield,rfl,hallowed⟩ := checkOverrides_inv hoverrides key hmem
    rw [hfields field hfield,selectedValue_override hallowed hkey]
    rfl

theorem resolved_source {key : String} {value : ResolvedValue} (h : rendered.resolved[key]? = some value) :
    value.source = "TEAM_OVERRIDE" ∨ value.source = "AUTO" ∨ value.source = "PACK_DEFAULT" := by
  obtain ⟨-,-,hresolved,-,-⟩ := resolveAndRender_ok.mp hrendered
  obtain ⟨hfields,hothers⟩ := resolveFields_ok (validateArchive_fields accepted) hresolved
  by_cases hdeclared : ∃ field ∈ pack.manifest.fields, field.key = key
  · obtain ⟨field,hfield,rfl⟩ := hdeclared
    rw [hfields field hfield,ExtTreeMap.getElem?_empty,Option.or_none] at h
    rcases selectedValue_cases h with ⟨-,_,-,rfl⟩ | ⟨-,hsource⟩
    · exact .inl rfl
    · exact .inr hsource
  · rw [hothers key fun field hfield heq => hdeclared ⟨field,hfield,heq⟩] at h
    exact absurd h (by simp)

omit hrendered in
/-- Sections that are chosen as they stand stay. -/
theorem enabledSections_again (choices : StringMap Bool) :
    enabledSections pack.manifest (enabledSections pack.manifest choices) = enabledSections pack.manifest choices := by
  have hunique := (validateArchive_references accepted).2.2
  have hsame : pack.manifest.sections.map (fun item =>
      (item.key,sectionEnabled (enabledSections pack.manifest choices) item)) =
      pack.manifest.sections.map (fun item => (item.key,sectionEnabled choices item)) := by
    refine List.map_congr_left fun item hitem => ?_
    have hitem := get?_enabledSections choices hunique hitem
    rw [sectionEnabled,hitem,Option.getD_some,sectionEnabled]
    cases item.required <;> rfl
  exact congrArg (fun items => (ExtTreeMap.ofList items : StringMap Bool)) hsame

theorem resolveAndRender_again :
    resolveAndRender pack automatic overrides rendered.enabledSections = .ok rendered := by
  obtain ⟨hoverrides,-,hresolved,henabled,houts⟩ := resolveAndRender_ok.mp hrendered
  have hkeys : ∀ key ∈ rendered.enabledSections.keys, ∃ item ∈ pack.manifest.sections, item.key = key := by
    intro key hkey
    rw [henabled,ExtTreeMap.mem_keys,enabledSections,ExtTreeMap.mem_ofList,List.contains_iff_mem,List.map_map,
      List.mem_map] at hkey
    exact hkey
  refine resolveAndRender_ok.mpr ⟨hoverrides,checkChoices_ok hkeys,hresolved,?_,?_⟩
  · rw [henabled,enabledSections_again accepted]
  · rw [henabled,enabledSections_again accepted]
    exact houts

end Rendered

/-! ## Refreshes of a team -/

theorem Preserved.details {db db' : Papers.Db} (h : Preserved db db') (paperId : Uuid) :
    SameDetails paperId db db' := by
  obtain ⟨_,_,-,rfl⟩ := h.exists_store
  exact ⟨rfl,fun _ => rfl,fun _ => rfl,rfl⟩

/-- What a refresh changes of the details: no section and no chosen value, but values that come from the
data of the team or from the pack. -/
structure Refreshed (paperId : Uuid) (db db' : Papers.Db) : Prop where
  sections : ∀ key, sectionEntry db' paperId key = sectionEntry db paperId key
  overrides : ∀ key value, valueEntry db' paperId key = some (value,"TEAM_OVERRIDE") ↔
    valueEntry db paperId key = some (value,"TEAM_OVERRIDE")
  derived : ∀ key, valueEntry db' paperId key ≠ valueEntry db paperId key → ∀ value source,
    valueEntry db paperId key = some (value,source) ∨ valueEntry db' paperId key = some (value,source) →
      source = "AUTO" ∨ source = "PACK_DEFAULT"

theorem StoredDetails.entry_iff {db : Papers.Db} {paperId : Uuid} {inputs : RenderInputs} {rendered : RenderedPack}
    (h : StoredDetails db paperId inputs rendered) {key source : String} {value : Value} :
    valueEntry db paperId key = some (value,source) ↔ rendered.resolved[key]? = some ⟨value,source⟩ := by
  rw [← h.resolved_iff,valueEntry,Option.map_eq_some_iff]
  simp only [Prod.mk.injEq]
  exact exists_congr fun row => and_congr_right fun _ => and_comm

section Again
variable {service : FrontMatterService} {paperId : Uuid} {inputs : RenderInputs} {pack : ValidatedPack}
variable {automatic automatic' : StringMap Value} {rendered rendered' : RenderedPack} {db db' : Papers.Db}
variable (hpack : loadFrontMatterPack service inputs.packId = .ok pack)
variable (hrendered : resolveAndRender pack automatic inputs.overrides inputs.sections = .ok rendered)
include hpack hrendered

theorem StoredDetails.again (h : StoredDetails db paperId inputs rendered) {reader : UserId} {detail : Value}
    (hdetail : teamDetail db reader paperId = .ok detail) :
    refreshInputs detail = some { inputs with sections := rendered.enabledSections } := by
  obtain ⟨_,-,accepted⟩ := loadFrontMatterPack_ok hpack
  exact h.refreshInputs_eq (fun key value => resolved_override_iff accepted hrendered) hdetail

/-- Another rendering of the same choices changes nothing but values from the data or the pack. -/
theorem StoredDetails.refreshed (h : StoredDetails db paperId inputs rendered)
    (hrendered' : resolveAndRender pack automatic' inputs.overrides rendered.enabledSections = .ok rendered')
    (h' : StoredDetails db' paperId { inputs with sections := rendered.enabledSections } rendered') :
    Refreshed paperId db db' := by
  obtain ⟨_,-,accepted⟩ := loadFrontMatterPack_ok hpack
  have henabled := (resolveAndRender_ok.mp hrendered).2.2.2.1
  have henabled' := (resolveAndRender_ok.mp hrendered').2.2.2.1
  rw [henabled,enabledSections_again accepted,← henabled] at henabled'
  have hoverrides : ∀ key value, valueEntry db' paperId key = some (value,"TEAM_OVERRIDE") ↔
      valueEntry db paperId key = some (value,"TEAM_OVERRIDE") := by
    intro key value
    rw [h.entry_iff,h'.entry_iff,resolved_override_iff accepted hrendered,resolved_override_iff accepted hrendered']
  refine ⟨fun key => by rw [h'.sections,h.sections,henabled'],hoverrides,?_⟩
  intro key hne value source hentry
  have hsource : source = "TEAM_OVERRIDE" ∨ source = "AUTO" ∨ source = "PACK_DEFAULT" := by
    rcases hentry with hentry | hentry
    · exact resolved_source accepted hrendered (h.entry_iff.mp hentry)
    · exact resolved_source accepted hrendered' (h'.entry_iff.mp hentry)
  refine hsource.resolve_left ?_
  rintro rfl
  rcases hentry with hentry | hentry
  · exact hne (((hoverrides key value).mpr hentry).trans hentry.symm)
  · exact hne (hentry.trans ((hoverrides key value).mp hentry).symm)

end Again

theorem refreshExistingFrontMatter_ok {service : FrontMatterService} {reader : UserId} {paperId : Uuid}
    {automatic : Except Response (StringMap Value)} {fresh : FreshRender} {db db' : Papers.Db} {done : Bool}
    {detail : Value} {inputs : RenderInputs} (hdetail : teamDetail db reader paperId = .ok detail)
    (hinputs : refreshInputs detail = some inputs)
    (h : refreshExistingFrontMatter service reader paperId automatic fresh db = (db',done)) :
    (done = true ∧ ∃ version,
      renderTeamFrontMatter service reader paperId inputs automatic fresh db = (db',.ok version)) ∨
      done = false ∧ Preserved db db' := by
  simp only [refreshExistingFrontMatter,hdetail,hinputs] at h
  split at h
  · next hrender =>
    cases h
    exact .inr ⟨rfl,renderTeamFrontMatter_error hrender⟩
  · next version hrender =>
    cases h
    exact .inl ⟨rfl,version,hrender⟩

theorem renderTex_nil (path : String) (manifest : FrontMatterManifest) (values : StringMap ResolvedValue) :
    renderTex path manifest values [] = .ok [] := by
  unfold renderTex
  split
  · rfl
  · next hfound => cases hfound

def emptyDigest : Digest := ⟨"e3b0c44298fc1c149afbf4c8996fb92427ae41e4649b934ca495991b7852b855",by decide⟩

/-- SHA-256 on the blobs of the run below: the empty text and the manifest of the main file. -/
def teamCodec : Codec where
  sha256 := fun bytes => if bytes = [] then emptyDigest else sampleManifestDigest
  toVec := Json.toBytes
  fromSlice := Json.fromBytes
  fromSlice_toVec := fromBytes_manifest

def teamService : FrontMatterService where
  codec := teamCodec
  readManifest := readSample
  packFiles := fun packId => if packId = 7 then some [manifestFile,texFile] else none
  compatible := fun _ => true

def teamDb : Papers.Db :=
  Foundation.commit (Papers.createTemplatePaperTeam 0 0 0 "Team" 1 [1] [] 3
      "e3b0c44298fc1c149afbf4c8996fb92427ae41e4649b934ca495991b7852b855" sampleMain
      [⟨sampleMain,sampleTextDigest,4,.editable⟩] 50 (fun n => 60 + n))
    (.initial [0] [0,1] ((Table.empty.upsert 0 .admin).upsert 1 .writer) [3] [] [7])

def teamInputs : RenderInputs := ⟨7,∅,∅,"MANUAL_OVERRIDE",none⟩

def teamRendered : RenderedPack := ⟨[⟨managedEntry,[]⟩],∅,∅⟩

theorem team_pack : loadFrontMatterPack teamService 7 = .ok ⟨sampleManifest,[manifestFile,texFile]⟩ := by
  simp only [loadFrontMatterPack,bind_ok,require_ok,mapError_ok]
  exact ⟨_,rfl,sample_accepted [] (by simp) rfl⟩

theorem team_renders :
    resolveAndRender ⟨sampleManifest,[manifestFile,texFile]⟩ ∅ ∅ ∅ = .ok teamRendered := by
  have hkept : [manifestFile,texFile].filter (fun file => !isManifest file) = [texFile] := by decide
  have hbytes : renderBytes sampleManifest ∅ [] texFile = .ok [] := by
    have htex : texFile.isTex = true := by decide
    simp only [renderBytes,htex,if_true,List.contains_nil,Bool.false_eq_true,if_false,bind_ok,require_ok,pure_ok]
    exact ⟨[],decode_encode [],[],renderTex_nil _ _ _,rfl⟩
  have hfiles : renderFiles sampleManifest ∅ [] [texFile] = .ok [⟨managedEntry,[]⟩] := by
    simp only [renderFiles,renderFile,bind_ok,mapError_ok,pure_ok]
    exact ⟨_,⟨managedEntry,LogicalPath.parse_text managedEntry,[],hbytes,rfl⟩,[],rfl,rfl⟩
  refine resolveAndRender_ok.mpr ⟨rfl,rfl,rfl,rfl,[⟨managedEntry,[]⟩],?_,(List.mergeSort_singleton _).symm⟩
  rw [hkept]
  exact hfiles

theorem team_rendering : ∃ stored, renderTeamFrontMatter teamService 0 50 teamInputs (.ok ∅)
    ⟨80,fun n => 90 + n⟩ teamDb = (stored,.ok 2) := by
  have hrendering : (do
      let pack ← loadFrontMatterPack teamService teamInputs.packId
      let automatic ← (.ok ∅ : Except Response (StringMap Value))
      (resolveAndRender pack automatic teamInputs.overrides teamInputs.sections).mapError renderResponse) =
        .ok teamRendered := by
    simp only [bind_ok,mapError_ok]
    exact ⟨_,team_pack,∅,rfl,team_renders⟩
  unfold renderTeamFrontMatter
  dsimp only
  rw [hrendering]
  refine ⟨_,Prod.ext rfl ?_⟩
  decide +kernel

end LatexCore.FrontMatter
