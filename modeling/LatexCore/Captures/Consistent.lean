import LatexCore.Captures.Origins
import LatexCore.Papers.Exactness

/-! # Captures that describe one state

A capture describes the state of its paper that its read of the head found, in
every run in which no commit raises the epoch between the read of the epoch and
that of the head, and none moves a file between the read of the head and that of
the live files. The capture itself does not check this.
-/
namespace LatexCore.Captures
open Core Foundation Workspace Papers
variable {codec : Codec} {bytesPut : Set Bytes} {visited : List Db} {x : WorkspaceId}
variable {db₀ db db' : Db} {stage stage' : Stage} {w : World}

/-- What a read leaves of the tables. -/
structure Looked (codec : Codec) (bytesPut : Set Bytes) (db db' : Db) : Prop where
  observes : Observes codec bytesPut db db'
  files : db'.files = db.files
  epochs : ∀ y, epochOf db' y = epochOf db y

theorem Looked.refl (hs : Sound codec bytesPut db) : Looked codec bytesPut db db :=
  ⟨⟨hs,.refl db,rfl⟩,rfl,fun _ => rfl⟩

theorem insertOrKeep_getD {κ ν : Type} [DecidableEq κ] (t : Table κ ν) (k y : κ) (v : ν) :
    ((insertOrKeep t k v).1.get? y).getD v = (t.get? y).getD v := by
  obtain ⟨hself,hold,hnew⟩ := insertOrKeep_kept t k v
  by_cases hy : y = k
  · subst hy
    rw [hself,Option.getD_some]
    unfold insertOrKeep
    cases t.get? y with
    | none => rfl
    | some stored => rfl
  · have hsame : (insertOrKeep t k v).1.get? y = t.get? y :=
      Option.ext fun u => ⟨fun h => hnew y u h hy,hold y u⟩
    rw [hsame]

/-- A workspace without an epoch gets the one that it counts as having. -/
theorem looked_paperDocumentEpoch (hs : Sound codec bytesPut db) :
    Looked codec bytesPut db (paperDocumentEpoch db x).1 ∧
      (paperDocumentEpoch db x).2 = epochOf (paperDocumentEpoch db x).1 x := by
  refine ⟨⟨⟨hs.congr rfl rfl,.of_store rfl (.refl _) (fun _ _ h => h) (fun _ _ h => h),rfl⟩,rfl,?_⟩,?_⟩
  · exact fun y => insertOrKeep_getD db.documentEpochs x y 1
  · have hself := (insertOrKeep_kept db.documentEpochs x 1).1
    dsimp only [epochOf,paperDocumentEpoch]
    rw [hself,Option.getD_some]

theorem looked_serve (hs : Sound codec bytesPut db) {request : Call} (hobserves : request.observes)
    (hinv : Integrity codec bytesPut (serve codec db.store request).1)
    (hgrows : Grows db.store (serve codec db.store request).1) :
    Looked codec bytesPut db { db with store := (serve codec db.store request).1 } := by
  have hobserved : Workspace.Observed db.store (serve codec db.store request).1 :=
    observed_serve db.store request hobserves
  have hsound : Sound codec bytesPut { db with store := (serve codec db.store request).1 } :=
    hs.observed hinv hobserved rfl
  exact ⟨⟨hsound,.of_store rfl hgrows (fun _ _ h => h) hobserved.snapshots,rfl⟩,rfl,fun _ => rfl⟩

/-- The reads that settle nothing but what they return. -/
theorem StageSound.visits (h : StageSound codec bytesPut visited x db stage) :
    StageSound codec bytesPut (visited ++ [db]) x db stage :=
  h.advances (.refl db) (List.subset_append_left ..) (fun _ => rfl) (fun _ => rfl)

def Concludes (codec : Codec) (visited : List Db) (x : WorkspaceId) (paperId : Uuid) (db : Db)
    (stage : Stage) : Prop :=
  ∀ exact, stage.exactState = some exact → ∃ db₀ ∈ visited, Faithful codec db₀ ⟨paperId,x,exact⟩ ∧
    ∃ m, CapturedAt codec db ⟨paperId,x,exact⟩ m

theorem snapshots_at_head (hfree : CollisionFree codec bytesPut) (hs : Sound codec bytesPut db)
    {epoch : ℕ} (hepoch : epoch = epochOf db x) :
    let p := (snapshotAfterHead codec x (loadHead db.store x)).run
    Origin codec bytesPut (visited ++ [db]) x epoch db db ∧ p.Uses Call.observesTail ∧
      ((Stage.snapshot epoch p).awaitsFiles = true → livePaths db x = livePaths db x) ∧
        Snapshots codec bytesPut x db.store db.store p := by
  have horigin : Origin codec bytesPut (visited ++ [db]) x epoch db db :=
    ⟨List.mem_append_right _ (List.mem_singleton_self _),hs,hepoch,.refl _⟩
  refine ⟨horigin,uses_snapshotAfterHead _,fun _ => rfl,Snapshots.of_holds ?_⟩
  apply (ends_snapshotAfterHead hfree hs.integrity).imp
  intro t r _ h checkpoint hcheckpoint
  obtain ⟨hversion,state,m,hc⟩ := h checkpoint hcheckpoint
  exact ⟨m,hversion,state,hc⟩

theorem snapshots_call {s : Store} (hs : Sound codec bytesPut db) {request : Call}
    {next : request.Reply → Program Call Call.Reply (Except WorkspaceError WorkspaceCheckpoint)}
    (hput : ∀ bytes ∈ request.puts, bytes ∈ bytesPut)
    (huses : (Program.call request next).Uses Call.observesTail)
    (h : Snapshots codec bytesPut x s db.store (.call request next)) :
    Looked codec bytesPut db { db with store := (serve codec db.store request).1 } ∧
      Snapshots codec bytesPut x s (serve codec db.store request).1
        (next (serve codec db.store request).2) := by
  obtain ⟨hinv,hgrows,hnext⟩ := h db.store (.refl _) hs.integrity hput
  exact ⟨looked_serve hs huses.1.1 hinv hgrows,.of_holds hnext⟩

theorem awaitsFiles_call {epoch : ℕ} {request : Call}
    {next : request.Reply → Program Call Call.Reply (Except WorkspaceError WorkspaceCheckpoint)}
    (h : ∀ y, request ≠ .loadHead y) :
    (Stage.snapshot epoch (.call request next)).awaitsFiles = true := by
  cases request with
  | loadHead y => exact absurd rfl (h y)
  | _ => rfl

theorem Shot.loadManifest {s : Store} {checkpoint : WorkspaceCheckpoint} {m m' : WorkspaceManifestV1}
    (h : Shot codec x s db.store checkpoint m) (hload : loadManifest codec db checkpoint = .ok m') :
    m' = m := by
  obtain ⟨_,_,hc⟩ := h
  simp only [Captures.loadManifest,getBlob,bind_ok,mapError_ok,require_ok,ensure_ok,pure_ok] at hload
  obtain ⟨bytes,⟨data,hdata,_,_,rfl⟩,hdecoded⟩ := hload
  rw [hc.manifestBlob,hc.blob,Option.some.injEq] at hdata
  rw [← hdata,canonicalJsonBytes,codec.fromSlice_toVec,Option.bind_some,
    WorkspaceManifestV1.fromValue_toValue,Option.some.injEq] at hdecoded
  exact hdecoded.symm

theorem concludes_assembleState {listed : Listed} (frontMatter : List (String × Value))
    (paperId : Uuid) (horigin : Origin codec bytesPut visited x listed.documentEpoch db₀ db)
    (hshot : Shot codec x db₀.store db.store listed.checkpoint listed.manifest)
    (hidentities : listed.identities = (liveFiles db₀ x).map fileIdentity) :
    Concludes codec visited x paperId db
      (.ended (.ok (assembleState paperId x listed frontMatter))) := by
  intro exact hexact
  cases hexact
  obtain ⟨hfaithful,hcaptured⟩ := faithful_assembleState frontMatter paperId horigin hshot hidentities
  exact ⟨db₀,horigin.visited,hfaithful,listed.manifest,hcaptured⟩

theorem read_sound (hfree : CollisionFree codec bytesPut) (hs : Sound codec bytesPut db)
    (hput : ∀ bytes ∈ stage.puts, bytes ∈ bytesPut) (hended : stage.isEnded = false)
    (h : StageSound codec bytesPut visited x db stage) (paperId : Uuid) (team : Bool)
    (hread : read codec paperId x team db stage = (db',stage')) :
    Looked codec bytesPut db db' ∧ StageSound codec bytesPut (visited ++ [db]) x db' stage' ∧
      Concludes codec (visited ++ [db]) x paperId db' stage' := by
  have hkeeps := h.visits
  have hquiet {stage' : Stage} (hexact : stage'.exactState = none) :
      Concludes codec (visited ++ [db]) x paperId db stage' := by
    intro exact hsome
    rw [hexact] at hsome
    cases hsome
  cases stage with
  | epoch =>
    simp only [read] at hread
    split at hread
    · obtain ⟨hlooked,hepoch⟩ := looked_paperDocumentEpoch (x := x) hs
      cases hread
      exact ⟨hlooked,Or.inl ⟨rfl,hepoch⟩,fun _ hexact => by cases hexact⟩
    · cases hread
      exact ⟨.refl hs,trivial,hquiet rfl⟩
  | snapshot epoch p =>
    cases p with
    | done result =>
      cases result with
      | ok checkpoint =>
        cases hread
        rcases hkeeps with ⟨hp,_⟩ | ⟨db₀,horigin,_,hsame,hshots⟩
        · rw [forceSnapshot_run] at hp
          cases hp
        · exact ⟨.refl hs,⟨db₀,horigin,hsame rfl,hshots checkpoint rfl⟩,hquiet rfl⟩
      | error e =>
        cases hread
        exact ⟨.refl hs,trivial,hquiet rfl⟩
    | call request next =>
      cases hread
      have hrest : Looked codec bytesPut db { db with store := (serve codec db.store request).1 } ∧
          StageSound codec bytesPut (visited ++ [db]) x
            { db with store := (serve codec db.store request).1 }
            (.snapshot epoch (next (serve codec db.store request).2)) := by
        rcases h with ⟨hp,hepoch⟩ | ⟨db₀,horigin,huses,hsame,hholds⟩
        · rw [forceSnapshot_run] at hp
          cases hp
          exact ⟨.refl hs,Or.inr ⟨db,snapshots_at_head hfree hs hepoch⟩⟩
        · obtain ⟨hlooked,hshots⟩ := snapshots_call hs (fun bytes hb => hput bytes (Option.mem_toList.mpr hb))
            huses hholds
          refine ⟨hlooked,Or.inr ⟨db₀,horigin.advances' hlooked.observes.advances
            (List.subset_append_left ..),huses.2 _,?_,hshots⟩⟩
          intro _
          exact (livePaths_congr hlooked.files x).trans (hsame (awaitsFiles_call huses.1.2))
      exact ⟨hrest.1,hrest.2,fun _ hexact => by cases hexact⟩
  | manifest epoch checkpoint =>
    obtain ⟨db₀,horigin,hsame,m,hshot⟩ := hkeeps
    simp only [read] at hread
    split at hread
    · next manifest hload =>
      obtain rfl := hshot.loadManifest hload
      cases hread
      exact ⟨.refl hs,⟨db₀,horigin,hsame,hshot⟩,hquiet rfl⟩
    · cases hread
      exact ⟨.refl hs,trivial,hquiet rfl⟩
  | cutoffs taken =>
    cases hread
    exact ⟨.refl hs,hkeeps,hquiet rfl⟩
  | files taken cutoffs =>
    obtain ⟨db₀,horigin,hsame,hshot⟩ := hkeeps
    cases hread
    refine ⟨.refl hs,⟨db₀,horigin,hshot,?_⟩,hquiet rfl⟩
    rw [List.nil_append,fileIdentities_eq,fileIdentities_eq,hsame]
  | policies listed todo =>
    obtain ⟨db₀,horigin,hshot,hidentities⟩ := hkeeps
    cases todo with
    | cons file todo =>
      cases hread
      refine ⟨.refl hs,⟨db₀,horigin,hshot,?_⟩,hquiet rfl⟩
      rw [← hidentities,List.append_assoc]
      rfl
    | nil =>
      rw [List.map_nil,List.append_nil] at hidentities
      cases team with
      | true =>
        cases hread
        exact ⟨.refl hs,⟨db₀,horigin,hshot,hidentities⟩,hquiet rfl⟩
      | false =>
        cases hread
        exact ⟨.refl hs,trivial,concludes_assembleState [] paperId horigin hshot hidentities⟩
  | frontMatter listed =>
    obtain ⟨db₀,horigin,hshot,hidentities⟩ := hkeeps
    cases hread
    exact ⟨.refl hs,trivial,concludes_assembleState _ paperId horigin hshot hidentities⟩
  | ended result => cases hended

/-! ## Steps -/

/-- No commit changes what a capture is about to read of its paper: the epoch until it has read the
head, and then the paths of the live files until it has listed them. -/
def Undisturbed (codec : Codec) (w : World) : Label → Prop
  | .papers label _ => ∀ c ∈ w.captures,
      (c.stage.awaitsHead = true → epochOf (Papers.act codec w.papers label).db c.workspaceId =
        epochOf w.papers.db c.workspaceId) ∧
      (c.stage.awaitsFiles = true → livePaths (Papers.act codec w.papers label).db c.workspaceId =
        livePaths w.papers.db c.workspaceId)
  | .begin _ | .read _ => True

instance (codec : Codec) (w : World) : (label : Label) → Decidable (Undisturbed codec w label)
  | .papers label _ => inferInstanceAs (Decidable (∀ c ∈ w.captures,
      (c.stage.awaitsHead = true → epochOf (Papers.act codec w.papers label).db c.workspaceId =
        epochOf w.papers.db c.workspaceId) ∧
      (c.stage.awaitsFiles = true → livePaths (Papers.act codec w.papers label).db c.workspaceId =
        livePaths w.papers.db c.workspaceId)))
  | .begin _ | .read _ => isTrue trivial

/-- The tables that a run has visited. -/
def tablesOf (seen : List (World × Label)) : List Db := seen.map (fun e => e.1.papers.db)

structure Consistent (codec : Codec) (bytesPut : Set Bytes) (w : World)
    (seen : List (World × Label)) : Prop where
  governed : Governed codec bytesPut w.papers
  stages : ∀ c ∈ w.captures, StageSound codec bytesPut (tablesOf seen) c.workspaceId w.papers.db c.stage
  faithful : ∀ c ∈ w.papers.captured, ∃ db₀ ∈ tablesOf seen, Faithful codec db₀ c

theorem act_captured {w : Papers.World} {label : Papers.Label} (h : isCapture label = false) :
    (Papers.act codec w label).captured = w.captured := by
  cases label with
  | capture paperId => cases h
  | createManualVersion i actor name id => dsimp only [Papers.act]; split <;> rfl
  | restore i restoration => dsimp only [Papers.act]; split <;> rfl
  | submitV2Build i tenantId userId triggerType compileKey environment facts rank fresh clock =>
    dsimp only [Papers.act]
    split <;> rfl
  | put bytes => rfl
  | request request => rfl
  | queue limits op hop => rfl

theorem tablesOf_append (seen : List (World × Label)) (w : World) (label : Label) :
    tablesOf (seen ++ [(w,label)]) = tablesOf seen ++ [w.papers.db] := by
  rw [tablesOf,List.map_append]
  rfl

theorem Consistent.papers {seen : List (World × Label)} (hc : Consistent codec bytesPut w seen)
    (hfree : CollisionFree codec bytesPut) {label : Papers.Label} (h : isCapture label = false)
    (hput : ∀ bytes ∈ Papers.blobsPut codec w.papers label, bytes ∈ bytesPut)
    (hguard : Undisturbed codec w (.papers label h)) :
    Consistent codec bytesPut (act codec w (.papers label h)) (seen ++ [(w,.papers label h)]) := by
  obtain ⟨hgoverned,hadv⟩ := governed_act hfree hc.governed hput
  refine ⟨hgoverned,?_,?_⟩
  · intro c hmem
    obtain ⟨hepoch,hfiles⟩ := hguard c hmem
    rw [tablesOf_append]
    exact (hc.stages c hmem).advances hadv (List.subset_append_left ..) hepoch hfiles
  · intro c hmem
    dsimp only [act] at hmem
    rw [act_captured h] at hmem
    obtain ⟨db₀,hdb₀,hfaithful⟩ := hc.faithful c hmem
    rw [tablesOf_append]
    exact ⟨db₀,List.mem_append_left _ hdb₀,hfaithful⟩

theorem Consistent.visit {seen : List (World × Label)} (hc : Consistent codec bytesPut w seen)
    (label : Label) : Consistent codec bytesPut w (seen ++ [(w,label)]) where
  governed := hc.governed
  stages := by
    intro c hmem
    rw [tablesOf_append]
    exact (hc.stages c hmem).visits
  faithful := by
    intro c hmem
    obtain ⟨db₀,hdb₀,hfaithful⟩ := hc.faithful c hmem
    rw [tablesOf_append]
    exact ⟨db₀,List.mem_append_left _ hdb₀,hfaithful⟩

theorem Consistent.begin {seen : List (World × Label)} (hc : Consistent codec bytesPut w seen)
    (paperId : Uuid) :
    Consistent codec bytesPut (act codec w (.begin paperId)) (seen ++ [(w,.begin paperId)]) := by
  have hidle := hc.visit (.begin paperId)
  dsimp only [act]
  split
  · exact hidle
  · refine ⟨hidle.governed,?_,hidle.faithful⟩
    intro c hmem
    rcases List.mem_append.mp hmem with hold | hnew
    · exact hidle.stages c hold
    · rw [List.mem_singleton.mp hnew]
      trivial

theorem Consistent.read {seen : List (World × Label)} (hc : Consistent codec bytesPut w seen)
    (hfree : CollisionFree codec bytesPut) {i : ℕ}
    (hput : ∀ bytes ∈ blobsPut codec w (.read i), bytes ∈ bytesPut) :
    Consistent codec bytesPut (act codec w (.read i)) (seen ++ [(w,.read i)]) := by
  have hidle := hc.visit (.read i)
  dsimp only [act,blobsPut] at hput ⊢
  cases hi : w.captures[i]? with
  | none => exact hidle
  | some c =>
    rw [hi,Option.map_some,Option.getD_some] at hput
    dsimp only
    split
    · exact hidle
    · next hended =>
      have hmem := List.mem_of_getElem? hi
      cases hread : c.read codec w.papers.db with
      | mk db stage =>
        obtain ⟨hlooked,hstage,hconcludes⟩ := read_sound hfree hc.governed.sound hput
          (Bool.eq_false_iff.mpr hended) (hc.stages c hmem) c.paperId c.team hread
        rw [readNext,hread]
        have htables := tablesOf_append seen w (.read i)
        have hnew (d : Captured) (hd : d ∈ c.captured stage) :
            (∃ db₀ ∈ tablesOf seen ++ [w.papers.db], Faithful codec db₀ d) ∧
              ∃ m, CapturedAt codec db d m := by
          obtain ⟨exact,hexact,rfl⟩ := Option.map_eq_some_iff.mp (Option.mem_toList.mp hd)
          obtain ⟨db₀,hdb₀,hfaithful,m,hm⟩ := hconcludes exact hexact
          exact ⟨⟨db₀,hdb₀,hfaithful⟩,m,hm⟩
        refine ⟨hc.governed.untouched hlooked.observes ?_,?_,?_⟩
        · intro d hd
          rcases List.mem_append.mp hd with hold | hd
          · exact Or.inl hold
          · exact Or.inr (hnew d hd).2
        · intro d hd
          rw [htables]
          rcases List.mem_or_eq_of_mem_set hd with hold | rfl
          · exact (hc.stages d hold).advances hlooked.observes.advances (List.subset_append_left ..)
              (fun _ => hlooked.epochs _) (fun _ => livePaths_congr hlooked.files _)
          · exact hstage
        · intro d hd
          rw [htables]
          rcases List.mem_append.mp hd with hold | hd
          · obtain ⟨db₀,hdb₀,hfaithful⟩ := hc.faithful d hold
            exact ⟨db₀,List.mem_append_left _ hdb₀,hfaithful⟩
          · exact (hnew d hd).1

/-- The passing of time disturbs no capture. -/
theorem Consistent.tick {seen : List (World × Label)} (hc : Consistent codec bytesPut w seen) :
    Consistent codec bytesPut { w with papers := w.papers.tick } seen := by
  obtain ⟨hgoverned,hadv⟩ := hc.governed.tick
  refine ⟨hgoverned,?_,hc.faithful⟩
  intro c hmem
  exact (hc.stages c hmem).advances hadv (List.Subset.refl _) (fun _ => rfl) (fun _ => rfl)

theorem Consistent.step {seen : List (World × Label)} (hc : Consistent codec bytesPut w seen)
    (hfree : CollisionFree codec bytesPut) {label : Label}
    (hput : ∀ bytes ∈ blobsPut codec w label, bytes ∈ bytesPut) (hguard : Undisturbed codec w label) :
    Consistent codec bytesPut (step codec w label) (seen ++ [(w,label)]) := by
  cases label with
  | papers label h => exact (hc.papers hfree h hput hguard).tick
  | begin paperId => exact (hc.begin paperId).tick
  | read i => exact (hc.read hfree hput).tick

/-! ## Runs -/

def World.initial (tenants : List TenantId) (users : List UserId) (roles : Table UserId GlobalRole)
    (templates : List Uuid) (programmes : List String) (packs : List Uuid) : World :=
  ⟨.initial tenants users roles templates programmes packs,[]⟩

def bytesOf (codec : Codec) (w : World) (labels : List Label) : Set Bytes :=
  {b | b ∈ emitted (step codec) (blobsPut codec) w labels}

/-- In every history in which no commit disturbs a capture, each captured state is that of its paper
at one point: the manifest is that of the state at the source sequence, the file identities are those
of its live files, one for each path of the manifest, and the epoch is the one that it had. -/
theorem captures_are_consistent (codec : Codec) (tenants : List TenantId) (users : List UserId)
    (roles : Table UserId GlobalRole) (templates : List Uuid) (programmes : List String)
    (packs : List Uuid) (labels : List Label)
    (hfree : CollisionFree codec
      (bytesOf codec (.initial tenants users roles templates programmes packs) labels))
    (hguard : Along (step codec) (Undisturbed codec)
      (.initial tenants users roles templates programmes packs) labels) :
    let start := World.initial tenants users roles templates programmes packs
    ∀ c ∈ (run (step codec) start labels).papers.captured, ∃ before after, labels = before ++ after ∧
      Faithful codec (run (step codec) start before).papers.db c := by
  intro start c hmem
  have hputs : Along (step codec) (fun v label => ∀ bytes ∈ blobsPut codec v label,
      bytes ∈ bytesOf codec start labels) start labels :=
    (emitted_forall_iff (fun _ => True) (fun _ _ _ => trivial) (fun _ _ _ => Iff.rfl) trivial
      labels).mp (fun _ h => h)
  have hstart : Consistent codec (bytesOf codec start labels) start [] := {
    governed := governed_initial ..
    stages := by
      intro c hc
      cases hc
    faithful := by
      intro c hc
      cases hc }
  have hconsistent : Consistent codec (bytesOf codec start labels) (run (step codec) start labels)
      (trace (step codec) start labels) :=
    (hputs.and hguard).invariant_emitted (Consistent codec (bytesOf codec start labels))
      (fun v seen label hv h => hv.step hfree h.1 h.2) hstart
  obtain ⟨db₀,hdb₀,hfaithful⟩ := hconsistent.faithful c hmem
  obtain ⟨e,he,rfl⟩ := List.mem_map.mp hdb₀
  obtain ⟨before,after,hlabels,hstate⟩ := mem_trace.mp he
  exact ⟨before,e.2 :: after,hlabels,hstate ▸ hfaithful⟩

def halfCaptured : List Label :=
  [.papers (.put sampleText) rfl,.papers (.request (.setGlobalRole 0 .writer)) rfl,
    .papers (.request (.createInitializedPersonalPaper 0 0 0 "Paper" sampleMain sampleTextDigest 4 50
      60)) rfl,
    .begin 50] ++ List.replicate 7 (.read 0)

def savedRun : List Label :=
  halfCaptured ++ .papers (.request (.saveFile 60 0 1 sampleTextDigest 4)) rfl ::
    List.replicate 4 (.read 0)

theorem captures_are_consistent_saved :
    (run (step paperCodec) (.initial [0] [0] .empty [] [] []) savedRun).papers.captured.length = 1 ∧
      ∀ c ∈ (run (step paperCodec) (.initial [0] [0] .empty [] [] []) savedRun).papers.captured,
        ∃ before after, savedRun = before ++ after ∧ Faithful paperCodec
          (run (step paperCodec) (.initial [0] [0] .empty [] [] []) before).papers.db c := by
  have hfacts : (run (step paperCodec) (.initial [0] [0] .empty [] [] [])
        savedRun).papers.captured.length = 1 ∧
      ((emitted (step paperCodec) (blobsPut paperCodec) (.initial [0] [0] .empty [] [] [])
        savedRun).dedup.map paperCodec.sha256).Nodup ∧
      ∀ e ∈ trace (step paperCodec) (.initial [0] [0] .empty [] [] []) savedRun,
        Undisturbed paperCodec e.1 e.2 := by
    decide +kernel
  obtain ⟨hlength,hdigests,hguard⟩ := hfacts
  refine ⟨hlength,captures_are_consistent paperCodec _ _ _ _ _ _ savedRun ?_
    (along_iff_trace.mpr hguard)⟩
  intro a ha b hb
  exact List.inj_on_of_nodup_map hdigests (List.mem_dedup.mpr ha) (List.mem_dedup.mpr hb)

def renamedRun : List Label :=
  halfCaptured ++ .papers (.request (.renameFile 60 0 1 secondMain 81)) rfl ::
    List.replicate 4 (.read 0)

/-- The capture then has no identity for the file of its own manifest. -/
theorem rename_splits_capture :
    CollisionFree paperCodec (bytesOf paperCodec (.initial [0] [0] .empty [] [] []) renamedRun) ∧
      ¬∀ c ∈ (run (step paperCodec) (.initial [0] [0] .empty [] [] []) renamedRun).papers.captured,
        ∃ before after, renamedRun = before ++ after ∧ Faithful paperCodec
          (run (step paperCodec) (.initial [0] [0] .empty [] [] []) before).papers.db c := by
  have hfacts : ((emitted (step paperCodec) (blobsPut paperCodec) (.initial [0] [0] .empty [] [] [])
        renamedRun).dedup.map paperCodec.sha256).Nodup ∧
      ∃ c ∈ (run (step paperCodec) (.initial [0] [0] .empty [] [] []) renamedRun).papers.captured,
        ((c.exact.manifest.get? "workspace").bind WorkspaceManifestV1.fromValue).map
            (fun m => m.files.contains sampleMain) = some true ∧
          identityOf c.exact.manifest sampleMain = none := by
    decide +kernel
  obtain ⟨hdigests,c,hc,hcontains,hidentity⟩ := hfacts
  refine ⟨?_,?_⟩
  · intro a ha b hb
    exact List.inj_on_of_nodup_map hdigests (List.mem_dedup.mpr ha) (List.mem_dedup.mpr hb)
  · intro h
    obtain ⟨_,_,_,hfaithful⟩ := h c hc
    obtain ⟨_,m,_,_,hworkspace,_,hcovered⟩ := hfaithful.workspace
    rw [hworkspace,Option.bind_some,WorkspaceManifestV1.fromValue_toValue,Option.map_some,
      Option.some.injEq] at hcontains
    obtain ⟨id,hid⟩ := (hcovered sampleMain).mp hcontains
    rw [hidentity] at hid
    cases hid

end LatexCore.Captures
