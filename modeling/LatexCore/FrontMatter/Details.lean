import LatexCore.FrontMatter.Stored
import LatexCore.FrontMatter.WellFormed

/-! # Stored details

The details of a team are the pin, the values with their sources and the sections that
its last rendering has stored. A refresh reads from them which values the team has
chosen, and a rendering that fails leaves them and the files as they were.
-/
namespace LatexCore.FrontMatter
open Core Foundation Workspace Std
open Papers (PaperTeam FrontMatterPin FrontMatterValue Response HeadState)

/-! ## Stored details -/

section Details
variable {db db' : Papers.Db} {paperId : Uuid} {inputs : RenderInputs} {rendered : RenderedPack}

def valueEntry (db : Papers.Db) (paperId : Uuid) (key : String) : Option (Value × String) :=
  (db.frontMatterValues.get? (paperId,key)).map (fun row => (row.valueJson,row.valueSource))

def sectionEntry (db : Papers.Db) (paperId : Uuid) (key : String) : Option Bool :=
  (db.frontMatterSections.get? (paperId,key)).map Prod.fst

/-- The details of a team are those of a rendering. -/
structure StoredDetails (db : Papers.Db) (paperId : Uuid) (inputs : RenderInputs) (rendered : RenderedPack) :
    Prop where
  pin : ∃ user, db.frontMatterPins.get? paperId = some ⟨inputs.packId,inputs.dominantProgrammeCode,
    inputs.resolutionMethod,user,"READY",.arr [],none⟩
  values : ∀ key, valueEntry db paperId key = rendered.resolved[key]?.map (fun value => (value.value,value.source))
  sections : ∀ key, sectionEntry db paperId key = rendered.enabledSections[key]?

/-- The team has the same workspace and the same rows in the tables of the front matter. -/
structure SameDetails (paperId : Uuid) (db db' : Papers.Db) : Prop where
  pin : db'.frontMatterPins.get? paperId = db.frontMatterPins.get? paperId
  values : ∀ key, db'.frontMatterValues.get? (paperId,key) = db.frontMatterValues.get? (paperId,key)
  sections : ∀ key, db'.frontMatterSections.get? (paperId,key) = db.frontMatterSections.get? (paperId,key)
  workspace : (db'.paperTeams.get? paperId).map PaperTeam.workspaceId =
    (db.paperTeams.get? paperId).map PaperTeam.workspaceId

theorem StoredDetails.congr (h : StoredDetails db paperId inputs rendered) (hsame : SameDetails paperId db db') :
    StoredDetails db' paperId inputs rendered where
  pin := by
    rw [hsame.pin]
    exact h.pin
  values := fun key => by
    rw [valueEntry,hsame.values]
    exact h.values key
  sections := fun key => by
    rw [sectionEntry,hsame.sections]
    exact h.sections key

theorem mem_sectionRows {ν : Type} {t : Table (Uuid × String) ν} {key : String} {v : ν} :
    (key,v) ∈ Papers.sectionRows t paperId ↔ t.get? (paperId,key) = some v := by
  rw [Papers.sectionRows,List.mem_insertionSort,List.mem_map,← Table.mem_rows_iff]
  constructor
  · rintro ⟨⟨⟨team,other⟩,w⟩,hfound,hsame⟩
    obtain ⟨hrow,hteam⟩ := List.mem_filter.mp hfound
    cases hsame
    obtain rfl : team = paperId := beq_iff_eq.mp hteam
    exact hrow
  · exact fun hrow => ⟨((paperId,key),v),List.mem_filter.mpr ⟨hrow,beq_self_eq_true _⟩,rfl⟩

theorem sectionRows_nodup {ν : Type} (t : Table (Uuid × String) ν) (paperId : Uuid) :
    ((Papers.sectionRows t paperId).map Prod.fst).Nodup := by
  have hrows : ((t.rows.filter (fun row => row.1.1 == paperId)).map (fun row => (row.1.2,row.2))).Pairwise
      (fun a b => a.1 ≠ b.1) := by
    have hdistinct := t.distinct
    rw [List.Nodup,List.pairwise_map] at hdistinct
    rw [List.pairwise_map,List.pairwise_filter]
    refine hdistinct.imp fun {a b} hne ha hb heq => hne (Prod.ext ?_ heq)
    exact (beq_iff_eq.mp ha).trans (beq_iff_eq.mp hb).symm
  rw [Papers.sectionRows,((List.perm_insertionSort _ _).map Prod.fst).nodup_iff,List.Nodup,List.pairwise_map]
  exact hrows

theorem getElem?_ofList_iff {α : Type} {rows : List (String × α)} (hdistinct : (rows.map Prod.fst).Nodup)
    {key : String} {v : α} : (ExtTreeMap.ofList rows : StringMap α)[key]? = some v ↔ (key,v) ∈ rows := by
  have hkeys : rows.Pairwise (fun a b => ¬compare a.1 b.1 = .eq) := by
    rw [List.Nodup,List.pairwise_map] at hdistinct
    exact hdistinct.imp fun hne heq => hne (LawfulEqCmp.eq_of_compare heq)
  have hmem : ∀ w : α, (key,w) ∈ rows → (ExtTreeMap.ofList rows : StringMap α)[key]? = some w :=
    fun w hw => ExtTreeMap.getElem?_ofList_of_mem compare_self hkeys hw
  refine ⟨fun h => ?_,hmem v⟩
  by_cases hkey : key ∈ rows.map Prod.fst
  · obtain ⟨⟨_,w⟩,hw,rfl⟩ := List.mem_map.mp hkey
    have hsame := hmem w hw
    rw [h,Option.some.injEq] at hsame
    rw [hsame]
    exact hw
  · rw [ExtTreeMap.getElem?_ofList_of_contains_eq_false (by simpa using hkey)] at h
    cases h

theorem StoredDetails.resolved_iff (h : StoredDetails db paperId inputs rendered) {key source : String}
    {value : Value} : (∃ row, db.frontMatterValues.get? (paperId,key) = some row ∧ row.valueSource = source ∧
      row.valueJson = value) ↔ rendered.resolved[key]? = some ⟨value,source⟩ := by
  have hentry := h.values key
  rw [valueEntry] at hentry
  constructor
  · rintro ⟨row,hrow,rfl,rfl⟩
    rw [hrow,Option.map_some] at hentry
    obtain ⟨found,hfound,hsame⟩ := Option.map_eq_some_iff.mp hentry.symm
    rw [hfound]
    cases found
    cases hsame
    rfl
  · intro hkey
    rw [hkey,Option.map_some] at hentry
    obtain ⟨row,hrow,hsame⟩ := Option.map_eq_some_iff.mp hentry
    cases hsame
    exact ⟨row,hrow,rfl,rfl⟩

theorem StoredDetails.overrides (h : StoredDetails db paperId inputs rendered)
    (hchosen : ∀ (key : String) (value : Value),
      rendered.resolved[key]? = some ⟨value,"TEAM_OVERRIDE"⟩ ↔ inputs.overrides[key]? = some value) :
    (ExtTreeMap.ofList (((Papers.sectionRows db.frontMatterValues paperId).filter
      (fun row => row.2.valueSource = "TEAM_OVERRIDE")).map (fun row => (row.1,row.2.valueJson))) : StringMap Value) =
        inputs.overrides := by
  have hkeys : ((((Papers.sectionRows db.frontMatterValues paperId).filter
      (fun row => row.2.valueSource = "TEAM_OVERRIDE")).map (fun row => (row.1,row.2.valueJson))).map
        Prod.fst).Nodup := by
    rw [List.map_map]
    exact (sectionRows_nodup db.frontMatterValues paperId).sublist (List.filter_sublist.map Prod.fst)
  apply ExtTreeMap.ext_getElem?
  intro key
  apply Option.ext
  intro value
  rw [getElem?_ofList_iff hkeys,← hchosen,← h.resolved_iff]
  simp only [List.mem_map,List.mem_filter,decide_eq_true_eq,Prod.exists,Prod.mk.injEq,mem_sectionRows]
  constructor
  · rintro ⟨_,row,⟨hrow,hsource⟩,rfl,rfl⟩
    exact ⟨row,hrow,hsource,rfl⟩
  · rintro ⟨row,hrow,hsource,rfl⟩
    exact ⟨key,row,⟨hrow,hsource⟩,rfl,rfl⟩

theorem StoredDetails.enabled (h : StoredDetails db paperId inputs rendered) :
    (ExtTreeMap.ofList ((Papers.sectionRows db.frontMatterSections paperId).map
      (fun row => (row.1,row.2.1))) : StringMap Bool) = rendered.enabledSections := by
  have hkeys : (((Papers.sectionRows db.frontMatterSections paperId).map (fun row => (row.1,row.2.1))).map
      Prod.fst).Nodup := by
    rw [List.map_map]
    exact sectionRows_nodup db.frontMatterSections paperId
  apply ExtTreeMap.ext_getElem?
  intro key
  apply Option.ext
  intro enabled
  rw [getElem?_ofList_iff hkeys,← h.sections key,sectionEntry,Option.map_eq_some_iff]
  simp only [List.mem_map,Prod.exists,Prod.mk.injEq,mem_sectionRows]
  constructor
  · rintro ⟨_,_,user,hrow,rfl,rfl⟩
    exact ⟨_,user,hrow,rfl⟩
  · rintro ⟨_,user,hrow,rfl⟩
    exact ⟨key,_,user,hrow,rfl,rfl⟩

theorem isTeamOverride_row (row : String × FrontMatterValue) :
    isTeamOverride (.obj [("field_key",.str row.1),("value",row.2.valueJson),
      ("value_source",.str row.2.valueSource)]) = decide (row.2.valueSource = "TEAM_OVERRIDE") := by
  change decide (some row.2.valueSource = some "TEAM_OVERRIDE") = _
  simp only [Option.some.injEq]

theorem StoredDetails.refreshInputs_eq (h : StoredDetails db paperId inputs rendered)
    (hchosen : ∀ (key : String) (value : Value),
      rendered.resolved[key]? = some ⟨value,"TEAM_OVERRIDE"⟩ ↔ inputs.overrides[key]? = some value) {reader : UserId}
    {detail : Value} (hdetail : teamDetail db reader paperId = .ok detail) :
    refreshInputs detail = some { inputs with sections := rendered.enabledSections } := by
  obtain ⟨user,hpin⟩ := h.pin
  simp only [teamDetail,bind_ok,pure_ok,hpin,Option.map_some,Option.bind_some,Option.getD_some] at hdetail
  obtain ⟨_,-,rfl⟩ := hdetail
  have hcode : (Papers.optionToValue inputs.dominantProgrammeCode).asStr? = inputs.dominantProgrammeCode := by
    cases inputs.dominantProgrammeCode <;> rfl
  have hvalues : (((Papers.sectionRows db.frontMatterValues paperId).map (fun row => Value.obj
      [("field_key",.str row.1),("value",row.2.valueJson),("value_source",.str row.2.valueSource)])).filter
        isTeamOverride).filterMap overrideOf =
      ((Papers.sectionRows db.frontMatterValues paperId).filter (fun row => row.2.valueSource = "TEAM_OVERRIDE")).map
        (fun row => (row.1,row.2.valueJson)) := by
    rw [List.filter_map,List.filterMap_map,← List.filterMap_eq_map]
    simp only [Function.comp_def,isTeamOverride_row]
    rfl
  have hsections : ((Papers.sectionRows db.frontMatterSections paperId).map (fun row => Value.obj
      [("section_key",.str row.1),("enabled",.bool row.2.1)])).filterMap sectionOf =
      (Papers.sectionRows db.frontMatterSections paperId).map (fun row => (row.1,row.2.1)) := by
    rw [List.filterMap_map,← List.filterMap_eq_map]
    rfl
  have hoverrides := h.overrides hchosen
  have henabled := h.enabled
  rw [← hvalues] at hoverrides
  rw [← hsections] at henabled
  have hpack : (some (Papers.idToValue inputs.packId)).bind Papers.idFromValue = some inputs.packId := rfl
  change ((some (Papers.idToValue inputs.packId)).bind Papers.idFromValue >>= fun packId => _) = _
  rw [hpack]
  refine congrArg some (RenderInputs.mk.injEq .. |>.mpr ⟨rfl,?_,?_,rfl,hcode⟩)
  · exact hoverrides
  · exact henabled

theorem StoredRows.details {actor : UserId} {request : ApplyFrontMatterRequest} (h : StoredRows actor request db)
    (hpack : request.packId = inputs.packId) (hcode : request.dominantProgrammeCode = inputs.dominantProgrammeCode)
    (hmethod : request.resolutionMethod = inputs.resolutionMethod)
    (hvalues : request.values = rendered.resolved.toList.map valueRecord)
    (hsections : request.sections = rendered.enabledSections) :
    StoredDetails db request.paperTeamId inputs rendered where
  pin := ⟨actor,by rw [h.pin,hpack,hcode,hmethod]⟩
  values := by
    intro key
    apply Option.ext
    rintro ⟨value,source⟩
    simp only [valueEntry,Option.map_eq_some_iff,h.values,hvalues,List.mem_map,Prod.exists,
      ExtTreeMap.mem_toList_iff_getElem?_eq_some,Prod.mk.injEq]
    constructor
    · rintro ⟨_,⟨_,⟨_,found,hfound,rfl⟩,rfl,rfl⟩,rfl,rfl⟩
      exact ⟨found,hfound,rfl,rfl⟩
    · rintro ⟨found,hfound,rfl,rfl⟩
      exact ⟨_,⟨_,⟨key,found,hfound,rfl⟩,rfl,rfl⟩,rfl,rfl⟩
  sections := by
    intro key
    apply Option.ext
    intro enabled
    simp only [sectionEntry,Option.map_eq_some_iff,h.sections,hsections]
    constructor
    · rintro ⟨_,⟨_,hfound,rfl⟩,rfl⟩
      exact hfound
    · exact fun hfound => ⟨_,⟨enabled,hfound,rfl⟩,rfl⟩

end Details

/-! ## Renderings of a team -/

/-- The live files under the managed root are the rendered ones, with their contents. -/
structure StoredTree (codec : Codec) (db : Papers.Db) (x : WorkspaceId) (files : List RenderedFile) : Prop where
  managed : ∀ file ∈ files, inManagedRoot file.path = true
  live : ∀ path, inManagedRoot path = true → ((∃ id, db.files.At (x,path) id) ↔ path ∈ files.map (·.path))
  contents : ∀ state, HeadState db.store x state → ∀ file ∈ files,
    state.files[file.path]? = some ⟨codec.sha256 file.bytes,UInt64.ofNat file.bytes.length⟩

theorem StoredFiles.tree {codec : Codec} {db db' : Papers.Db} {x : WorkspaceId} {files : List RenderedFile}
    (h : StoredFiles x (files.map (storedFile codec)) db db') : StoredTree codec db' x files := by
  have hpaths : (files.map (storedFile codec)).map (·.path) = files.map (·.path) := by
    rw [List.map_map]
    rfl
  refine ⟨fun file hfile => ?_,fun path hmanaged => ?_,fun state hstate file hfile => ?_⟩
  · refine h.managed _ ?_
    rw [hpaths]
    exact List.mem_map_of_mem hfile
  · rw [h.live path,hpaths,hmanaged]
    simp
  · exact h.contents hstate _ (List.mem_map_of_mem hfile)

theorem rendered_files_ne_nil {readManifest : Bytes → Option FrontMatterManifest} {archive : ImportedArchive}
    {pack : ValidatedPack} {automatic overrides : StringMap Value} {choices : StringMap Bool}
    {rendered : RenderedPack} (accepted : validateArchive readManifest archive = .ok pack)
    (hrendered : resolveAndRender pack automatic overrides choices = .ok rendered) : rendered.files ≠ [] := by
  obtain ⟨⟨file,hfile,-,htex⟩,-,-⟩ := validateArchive_references accepted
  obtain ⟨out,hout,-⟩ := rendered_of_file hrendered hfile (not_isManifest_of_isTex htex)
  exact List.ne_nil_of_mem hout

section Service
variable {service : FrontMatterService} {actor : UserId} {paperId : Uuid} {inputs : RenderInputs}
variable {automatic : Except Response (StringMap Value)} {fresh : FreshRender} {db db' : Papers.Db}

theorem loadFrontMatterPack_ok {packId : Uuid} {pack : ValidatedPack}
    (h : loadFrontMatterPack service packId = .ok pack) :
    ∃ files, service.packFiles packId = some files ∧ validateArchive service.readManifest ⟨files,none⟩ = .ok pack := by
  simp only [loadFrontMatterPack,bind_ok,require_ok,mapError_ok] at h
  exact h

theorem applyRendered_ok {rendered : RenderedPack} {files : List ManagedFrontMatterFile} {version : ℕ}
    (hfiles : files ≠ [])
    (h : applyRendered service actor paperId inputs rendered files fresh db = (db',.ok version)) :
    db'.paperTeams = db.paperTeams ∧ StoredDetails db' paperId inputs rendered ∧
      ∃ team captured, db.paperTeams.get? paperId = some team ∧ StoredFiles team.workspaceId files captured db' := by
  unfold applyRendered at h
  split at h
  · cases h
  · next team hteam =>
    split at h
    · cases h
    · next captured exact hcapture =>
      split at h
      · cases h
      · next applied number happly =>
        cases h
        obtain ⟨store,epochs,-,rfl⟩ := Papers.captureExactV2State_frame hcapture
        obtain ⟨hrows,hstored,hteams⟩ := applyRender_ok hfiles happly
        exact ⟨hteams,hrows.details rfl rfl rfl rfl rfl,team,_,hteam,hstored⟩

/-- A rendering that fails leaves all but blobs, snapshots and epochs as they were. -/
structure Preserved (db db' : Papers.Db) : Prop where
  intro ::
  exists_store : ∃ store epochs, Observed db.store store ∧ db' = { db with store := store, documentEpochs := epochs }

theorem applyRendered_error {rendered : RenderedPack} {files : List ManagedFrontMatterFile} {error : Response}
    (h : applyRendered service actor paperId inputs rendered files fresh db = (db',.error error)) :
    Preserved db db' := by
  unfold applyRendered at h
  split at h
  · cases h
    exact ⟨_,_,.refl _,rfl⟩
  · split at h
    · next captured _ hcapture =>
      cases h
      exact ⟨Papers.captureExactV2State_frame hcapture⟩
    · next captured exact hcapture =>
      split at h
      · cases h
        exact ⟨Papers.captureExactV2State_frame hcapture⟩
      · cases h

theorem renderTeamFrontMatter_ok {version : ℕ}
    (h : renderTeamFrontMatter service actor paperId inputs automatic fresh db = (db',.ok version)) :
    ∃ values pack rendered, automatic = .ok values ∧ loadFrontMatterPack service inputs.packId = .ok pack ∧
      resolveAndRender pack values inputs.overrides inputs.sections = .ok rendered ∧
      db'.paperTeams = db.paperTeams ∧ StoredDetails db' paperId inputs rendered ∧
      ∃ team, db.paperTeams.get? paperId = some team ∧
        StoredTree service.codec db' team.workspaceId rendered.files := by
  unfold renderTeamFrontMatter at h
  dsimp only at h
  split at h
  · cases h
  · next rendered hrendering =>
    simp only [bind_ok,mapError_ok] at hrendering
    obtain ⟨pack,hpack,values,hvalues,hrendered⟩ := hrendering
    obtain ⟨files,-,haccepted⟩ := loadFrontMatterPack_ok hpack
    split at h
    · cases h
    · next store stored hput =>
      obtain ⟨-,hstored⟩ := putRendered_observed hput
      obtain rfl := hstored stored rfl
      have hsome : rendered.files.map (storedFile service.codec) ≠ [] := by
        simpa using rendered_files_ne_nil haccepted hrendered
      obtain ⟨hteams,hdetails,team,_,hteam,hfiles⟩ := applyRendered_ok hsome h
      exact ⟨values,pack,rendered,hvalues,hpack,hrendered,hteams,hdetails,team,hteam,hfiles.tree⟩

theorem renderTeamFrontMatter_error {error : Response}
    (h : renderTeamFrontMatter service actor paperId inputs automatic fresh db = (db',.error error)) :
    Preserved db db' := by
  unfold renderTeamFrontMatter at h
  dsimp only at h
  split at h
  · cases h
    exact ⟨_,_,.refl _,rfl⟩
  · split at h
    · next hput =>
      cases h
      exact ⟨_,_,(putRendered_observed hput).1,rfl⟩
    · next store stored hput =>
      obtain ⟨captured,epochs,hobserved,rfl⟩ := (applyRendered_error h).exists_store
      exact ⟨captured,epochs,(putRendered_observed hput).1.trans hobserved,rfl⟩

end Service

end LatexCore.FrontMatter
