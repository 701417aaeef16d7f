import LatexCore.Papers.Identity

/-! # What a restoration changes

The inversion of a governed restoration: the event it appends, the snapshot it
records for the new head, the identity rows it writes and the two versions it
inserts. The operations of its event empty the workspace and put the files of the
manifest, so they lead to the state of the manifest.

The tables are sound when the log of every workspace replays and the state that
it replays to tracks the identity table. Every edit, the creation of a workspace
and a governed restoration keep this, so no event that the repository appends is
ever refused, and a workspace can always be restored.
-/
namespace LatexCore.Papers
open Core Foundation Workspace Std

/-! ## Agreement of the identity table and the log -/

section Agreement
variable {codec : Codec} {bytesPut : Set Bytes} {db db' : Db} {x : WorkspaceId}

abbrev HeadState (s : Store) (x : WorkspaceId) (state : WorkspaceState) : Prop :=
  Replayed s x (s.log x).length state

structure Sound (codec : Codec) (bytesPut : Set Bytes) (db : Db) : Prop where
  integrity : Integrity codec bytesPut db.store
  tracks : ∀ y state, HeadState db.store y state → Tracks y state db.files
  housed : ∀ id file, db.files.get? id = some file →
    (db.store.workspaces.get? file.workspaceId).isSome
  headed : ∀ y head, db.store.heads.get? y = some head → (db.store.workspaces.get? y).isSome

theorem apply_valid {state next : WorkspaceState} {mutation : WorkspaceMutationV1}
    {expected : WorkspaceVersion} (h : state.apply mutation expected = .ok next) : next.Valid := by
  simp only [WorkspaceState.apply,bind_ok,ensure_ok,require_ok,pure_ok] at h
  obtain ⟨_,_,candidate,_,_,hvalid,version,_,rfl⟩ := h
  exact WorkspaceState.validate_ok.mp hvalid

theorem Replayed.valid {s : Store} {n : ℕ} {state : WorkspaceState} (h : Replayed s x n state) :
    state.Valid := by
  refine Checkpoint.invariant (fun _ state => state.Valid) (WorkspaceState.empty_valid x) ?_ h
  intro n before event after _ hreplay
  simp only [replayEvent,bind_ok] at hreplay
  obtain ⟨_,_,_,_,_,_,_,_,_,_,_,_,happly⟩ := hreplay
  exact apply_valid happly

theorem apply_of_foldlM {state next : WorkspaceState} {mutation : WorkspaceMutationV1}
    {expected : WorkspaceVersion} (hversion : state.version = expected) (hbound : expected < i64Max)
    (hvalid : state.Valid)
    (h : mutation.operations.foldlM WorkspaceState.applyOperation state = .ok next) :
    state.apply mutation expected = .ok { next with version := expected + 1 } := by
  have hsame := (WorkspaceState.foldlM_same h).2
  have hroom : expected < u64Max := Nat.lt_trans hbound (by decide)
  simp only [WorkspaceState.apply,bind_ok,ensure_ok,require_ok,pure_ok,decide_eq_true_eq,
    checkedNext_eq_some]
  refine ⟨(),hversion,next,h,(),WorkspaceState.validate_ok.mpr (WorkspaceState.foldlM_valid h hvalid),
    expected + 1,⟨?_,?_⟩,rfl⟩
  · rw [hsame,hversion]
    exact hroom
  · rw [hsame,hversion]

/-- What an event appended to the log of a workspace needs: the state at the head accepts it and then
tracks the new table. -/
structure Accepted (db db' : Db) (x : WorkspaceId) (n : ℕ) (mutation : WorkspaceMutationV1)
    (latest : Option ℕ) : Prop where
  logged : Logged db.store db'.store x (recordOf n mutation) latest
  position : n = (db.store.log x).length
  snapshotted : ∀ version, latest = some version →
    ∃ id, db.store.workspaceSnapshots.get? (x,version) = some id
  kept : Kept x db.files db'.files
  accepted : ∀ state, HeadState db.store x state → Tracks x state db.files →
    ∃ next, mutation.operations.foldlM WorkspaceState.applyOperation state = .ok next ∧
      Tracks x next db'.files
  workspaces : ∀ y, (db.store.workspaces.get? y).isSome → (db'.store.workspaces.get? y).isSome
  here : (db'.store.workspaces.get? x).isSome

theorem Accepted.headState {n : ℕ} {mutation : WorkspaceMutationV1} {latest : Option ℕ}
    (h : Accepted db db' x n mutation latest) {state : WorkspaceState}
    (hstate : HeadState db.store x state) (htracks : Tracks x state db.files) :
    ∃ next, replayEvent state (recordOf n mutation) = .ok { next with version := n + 1 } ∧
      HeadState db'.store x { next with version := n + 1 } ∧ Tracks x next db'.files ∧
      mutation.operations.foldlM WorkspaceState.applyOperation state = .ok next := by
  obtain ⟨next,hfold,hnext⟩ := h.accepted state hstate htracks
  have hversion : state.version = n := (Replayed.version hstate).1.trans h.position.symm
  have happly := apply_of_foldlM hversion (Nat.lt_of_succ_le h.logged.bound) (Replayed.valid hstate) hfold
  have hreplay := replayEvent_recordOf happly
  refine ⟨next,hreplay,?_,hnext,hfold⟩
  have hlog : db'.store.log x = db.store.log x ++ [recordOf n mutation] := by
    rw [h.logged.log,if_pos rfl]
  have hlength : (db'.store.log x).length = (db.store.log x).length + 1 := by
    rw [hlog,List.length_append,List.length_singleton]
  have hsnoc := hstate.snoc hreplay
  rw [← hlog,← hlength] at hsnoc
  exact hsnoc

theorem Sound.accepted (hs : Sound codec bytesPut db) {n : ℕ} {mutation : WorkspaceMutationV1}
    {latest : Option ℕ} (h : Accepted db db' x n mutation latest) :
    Sound codec bytesPut db' ∧ Grows db.store db'.store := by
  obtain ⟨hinv,hgrows⟩ := hs.integrity.logged h.logged (by rw [h.position]; rfl)
    (fun state hstate => by
      obtain ⟨next,hreplay,_⟩ := h.headState hstate (hs.tracks x state hstate)
      exact ⟨_,hreplay⟩) h.snapshotted
  refine ⟨?_,hgrows⟩
  exact {
    integrity := hinv
    tracks := by
      intro y state hstate
      by_cases hy : y = x
      · subst hy
        obtain ⟨before,hbefore⟩ := hs.integrity.replays y
        obtain ⟨next,_,hhead,hnext,_⟩ := h.headState hbefore (hs.tracks y before hbefore)
        obtain rfl := hstate.unique hhead
        exact hnext
      · have hlog : db'.store.log y = db.store.log y := by
          rw [h.logged.log,if_neg hy,List.append_nil]
        rw [HeadState,Replayed,hlog] at hstate
        exact h.kept.tracks_other hy (hs.tracks y state hstate)
    housed := by
      intro id file hfile
      by_cases hspace : file.workspaceId = x
      · rw [hspace]
        exact h.here
      · exact h.workspaces _ (hs.housed id file (h.kept.others id file hfile hspace))
    headed := by
      intro y head hhead
      by_cases hy : y = x
      · rw [hy]
        exact h.here
      · rw [h.logged.heads y hy] at hhead
        exact h.workspaces y (hs.headed y head hhead) }

/-! ## Edits -/

theorem Edited.accepted (hs : Sound codec bytesPut db) (h : Edited db db' x) :
    ∃ n mutation latest, Accepted db db' x n mutation latest := by
  obtain ⟨expected,operations,hops,store,files,_,_,_,happended,hedit,rfl⟩ := h.exists_edit
  obtain ⟨head,hhead,hversion,hlogged⟩ := happended.logged
  refine ⟨expected,⟨operations,hops⟩,head.latestSnapshotVersion,?_⟩
  exact {
    logged := hlogged
    position := hversion.symm.trans (hs.integrity.durable x head hhead).1
    snapshotted := fun version hlatest => hs.integrity.latest x head version hhead hlatest
    kept := hedit.rewritten.kept
    accepted := fun state _ htracks => hedit.tracks htracks
    workspaces := by
      intro y hy
      dsimp only
      rw [happended.workspaces]
      exact hy
    here := by
      dsimp only
      rw [happended.workspaces]
      exact hs.headed x head hhead }

/-! ## Creation -/

theorem Seeded.kept {files files' : PaperFiles} {paths : List LogicalPath}
    (h : Seeded x files paths files') : Kept x files files' := by
  induction h with
  | nil files => exact .refl x files
  | cons id path h _ ih => exact (rewritten_insert h).kept.trans ih

theorem Seeded.live {files files' : PaperFiles} {paths : List LogicalPath}
    (h : Seeded x files paths files') (q : LogicalPath) :
    (∃ id, files'.At (x,q) id) ↔ q ∈ paths ∨ ∃ id, files.At (x,q) id := by
  induction h with
  | nil files => simp
  | cons id path h _ ih => rw [ih,live_inserted h,List.mem_cons,← or_assoc,or_comm (a := q ∈ _)]

theorem Seeded.tracks {files files' : PaperFiles} {seeds : List TemplateSeedFile}
    {state : WorkspaceState}
    (h : Seeded x files (seeds.map TemplateSeedFile.path) files') (htracks : Tracks x state files) :
    ∃ next, (seeds.map seedOperation).foldlM WorkspaceState.applyOperation state = .ok next ∧
      Tracks x next files' := by
  induction seeds generalizing state files with
  | nil =>
    cases h
    exact ⟨state,rfl,htracks⟩
  | cons seed rest ih =>
    obtain _ | ⟨id,path,hinsert,hrest⟩ := h
    obtain ⟨middle,hmiddle,htracks'⟩ :=
      (FileEdit.create id seed.path seed.blobHash seed.sizeBytes hinsert).tracks htracks
    obtain ⟨next,hnext,hfinal⟩ := ih hrest htracks'
    refine ⟨next,?_,hfinal⟩
    cases hmiddle
    exact hnext

theorem Founded.accepted (hs : Sound codec bytesPut db) (h : Founded db db' x) :
    ∃ n mutation latest, Accepted db db' x n mutation latest := by
  obtain ⟨seeds,main,hmain,hlogged,hseeded⟩ := h.exists_seeds
  obtain ⟨row,hworkspaces⟩ := h.workspaces
  refine ⟨0,foundingMutation seeds main,none,?_⟩
  exact {
    logged := hlogged
    position := by
      rw [hs.integrity.headless x h.newHead]
      rfl
    snapshotted := by
      intro version hlatest
      cases hlatest
    kept := hseeded.kept
    accepted := by
      intro state _ htracks
      obtain ⟨next,hnext,htracks'⟩ := hseeded.tracks htracks
      obtain ⟨final,hfinal,htracks''⟩ := htracks'.setMain ((hseeded.live main).mpr (Or.inl hmain))
      refine ⟨final,?_,htracks''⟩
      rw [foundingMutation,List.foldlM_append,hnext]
      exact foldlM_single hfinal
    workspaces := by
      intro y hy
      rw [hworkspaces]
      split
      · rfl
      · exact hy
    here := by
      rw [hworkspaces,if_pos rfl]
      rfl }

/-- A transaction that leaves the log and the files alone. -/
theorem Sound.congr (hs : Sound codec bytesPut db) (hstore : db'.store = db.store)
    (hfiles : db'.files = db.files) : Sound codec bytesPut db' where
  integrity := hstore ▸ hs.integrity
  tracks := by
    rw [hstore,hfiles]
    exact hs.tracks
  housed := by
    rw [hstore,hfiles]
    exact hs.housed
  headed := by
    rw [hstore]
    exact hs.headed

end Agreement

/-! ## What a restoration changes -/

variable {codec : Codec} {db db' : Db} {x : WorkspaceId} {actor : UserId} {paperId : Uuid}

/-! ## Frames -/

theorem insertPaperVersion_ok {id : Uuid} {version : Queue.Version}
    (h : insertPaperVersion db id version = .ok db') :
    (db.store.workspaces.get? version.workspaceId).isSome ∧
      ∃ versions, db.queue.versions.insert? id version = some versions ∧
        db' = { db with queue := { db.queue with versions := versions } } := by
  simp only [insertPaperVersion,bind_ok,ensure_ok,mapError_ok,pure_ok] at h
  obtain ⟨_,hspace,_,_,_,_,_,_,_,hqueue,rfl⟩ := h
  obtain ⟨versions,hversions,rfl⟩ := Queue.insertVersion_ok hqueue
  exact ⟨hspace,versions,hversions,rfl⟩

theorem captureExactV2State_frame {codec : Codec} {captured : Except Response ExactRestoreState}
    (h : captureExactV2State codec paperId x db = (db',captured)) :
    ∃ store epochs, Observed db.store store ∧ db' = { db with store := store, documentEpochs := epochs } := by
  unfold captureExactV2State at h
  split at h
  · have hobserved : Observed db.store ((forceSnapshot codec x).run.alone (serve codec) db.store).1 :=
      uses_forceSnapshot.alone_relates Observed .refl .trans observed_serve db.store
    cases hrun : (forceSnapshot codec x).run.alone (serve codec) db.store with
    | mk store r =>
      rw [hrun] at hobserved
      dsimp only [paperDocumentEpoch] at h
      rw [hrun,Prod.mk.injEq] at h
      obtain ⟨rfl,-⟩ := h
      exact ⟨store,_,hobserved,rfl⟩
  · cases h
    exact ⟨_,_,.refl _,rfl⟩

theorem restoreValues_frame {values : List Value} (h : restoreValues actor paperId values db = .ok db') :
    ∃ table, db' = { db with frontMatterValues := table } := by
  induction values generalizing db with
  | nil =>
    cases h
    exact ⟨_,rfl⟩
  | cons value rest ih =>
    simp only [restoreValues,bind_ok] at h
    obtain ⟨_,_,_,_,_,_,_,_,_,_,_,_,hrest⟩ := h
    obtain ⟨table,rfl⟩ := ih hrest
    exact ⟨table,rfl⟩

theorem restoreSections_frame {sections : List Value}
    (h : restoreSections actor paperId sections db = .ok db') :
    ∃ table, db' = { db with frontMatterSections := table } := by
  induction sections generalizing db with
  | nil =>
    cases h
    exact ⟨_,rfl⟩
  | cons value rest ih =>
    simp only [restoreSections,bind_ok] at h
    obtain ⟨_,_,_,_,_,_,_,_,hrest⟩ := h
    obtain ⟨table,rfl⟩ := ih hrest
    exact ⟨table,rfl⟩

theorem insertFrontMatterPin_frame {pin : FrontMatterPin}
    (h : insertFrontMatterPin db paperId pin = .ok db') :
    ∃ pins, db' = { db with frontMatterPins := pins } := by
  simp only [insertFrontMatterPin,bind_ok,pure_ok] at h
  obtain ⟨_,_,_,_,_,_,_,_,_,_,_,_,pins,_,rfl⟩ := h
  exact ⟨pins,rfl⟩

theorem restoreTeamFrontMatter_frame {kind : RestoreKind} {state : Option Value}
    (h : restoreTeamFrontMatter kind actor paperId state db = .ok db') :
    ∃ pins values sections, db' = { db with
      frontMatterPins := pins
      frontMatterValues := values
      frontMatterSections := sections } := by
  cases kind with
  | personal =>
    cases h
    exact ⟨_,_,_,rfl⟩
  | team =>
    simp only [restoreTeamFrontMatter,restoreFrontMatterVersionState] at h
    split at h
    · cases h
      exact ⟨_,_,_,rfl⟩
    · simp only [bind_ok] at h
      obtain ⟨_,_,_,_,_,_,_,_,_,hpin,_,hvalues,hsections⟩ := h
      obtain ⟨pins,rfl⟩ := insertFrontMatterPin_frame hpin
      obtain ⟨values,rfl⟩ := restoreValues_frame hvalues
      obtain ⟨sections,rfl⟩ := restoreSections_frame hsections
      exact ⟨pins,values,sections,rfl⟩

theorem materialize_frame {before : Db} {chosen : Uuid} {path : LogicalPath}
    (h : materialize before x chosen path db = .ok db') : ∃ files, db' = { db with files := files } := by
  unfold materialize at h
  split at h
  · obtain ⟨files,_,rfl⟩ := updateFile_ok h
    exact ⟨files,rfl⟩
  · obtain ⟨files,_,rfl⟩ := insertFile_ok h
    exact ⟨files,rfl⟩

theorem materializeAll_frame {before : Db} {manifest : Value} {fresh : ℕ → Uuid} {n : ℕ}
    {paths : List LogicalPath} (h : materializeAll before x manifest fresh n paths db = .ok db') :
    ∃ files, db' = { db with files := files } := by
  induction paths generalizing db n with
  | nil =>
    cases h
    exact ⟨_,rfl⟩
  | cons path rest ih =>
    rw [materializeAll,bind_ok] at h
    obtain ⟨middle,hstep,hrest⟩ := h
    obtain ⟨_,rfl⟩ := materialize_frame hstep
    obtain ⟨files,rfl⟩ := ih hrest
    exact ⟨files,rfl⟩

/-! ## The identity rows -/

theorem mem_liveFiles {r : Uuid × PaperFile} :
    r ∈ liveFiles db x ↔ db.files.get? r.1 = some r.2 ∧ liveIndex r.1 r.2 = some (x,r.2.path) := by
  rw [liveFiles,List.mem_insertionSort,List.mem_filter,Bool.and_eq_true,beq_iff_eq,Bool.not_eq_true',
    liveIndex_eq]
  exact and_congr Table.mem_rows_iff ⟨fun ⟨h,h'⟩ => ⟨h',h,rfl⟩,fun ⟨h,h',_⟩ => ⟨h',h⟩⟩

theorem liveFiles_nodup (db : Db) (x : WorkspaceId) :
    ((liveFiles db x).map (fun r => r.2.path)).Nodup := by
  refine List.Nodup.map_on ?_ ?_
  · intro r hr r' hr' hpath
    obtain ⟨hfile,hlive⟩ := mem_liveFiles.mp hr
    obtain ⟨hfile',hlive'⟩ := mem_liveFiles.mp hr'
    rw [← hpath] at hlive'
    have hid := db.files.get?_inj hfile hfile' hlive hlive'
    rw [← hid,hfile,Option.some.injEq] at hfile'
    exact Prod.ext hid hfile'
  · rw [liveFiles,(List.perm_insertionSort _ _).nodup_iff]
    exact (List.Nodup.of_map _ db.files.table.distinct).filter _

theorem mem_livePaths {path : LogicalPath} :
    path ∈ (liveFiles db x).map (fun r => r.2.path) ↔ ∃ id, db.files.At (x,path) id := by
  rw [List.mem_map]
  constructor
  · rintro ⟨r,hr,rfl⟩
    obtain ⟨hfile,hlive⟩ := mem_liveFiles.mp hr
    exact ⟨r.1,r.2,hfile,hlive⟩
  · rintro ⟨id,file,hfile,hlive⟩
    obtain ⟨_,_,rfl⟩ := liveIndex_eq.mp hlive
    exact ⟨(id,file),mem_liveFiles.mpr ⟨hfile,hlive⟩,rfl⟩

structure Identified (x : WorkspaceId) (manifest : Value) (files : PaperFiles) : Prop where
  injective : ∀ p q id, identityOf manifest p = some id → identityOf manifest q = some id → p = q
  rows : ∀ p id, identityOf manifest p = some id →
    ∃ file, files.get? id = some file ∧ file.workspaceId = x

theorem Identified.kept {manifest : Value} {files files' : PaperFiles}
    (h : Identified x manifest files) (hkept : ∀ id file, files.get? id = some file →
      ∃ file', files'.get? id = some file' ∧ file'.workspaceId = file.workspaceId) :
    Identified x manifest files' where
  injective := h.injective
  rows := by
    intro p id hid
    obtain ⟨file,hfile,hspace⟩ := h.rows p id hid
    obtain ⟨file',hfile',hspace'⟩ := hkept id file hfile
    exact ⟨file',hfile',hspace'.trans hspace⟩

theorem tombstoneAll_kept (db : Db) (x : WorkspaceId) : Kept x db.files (tombstoneAll db x).files := by
  refine ⟨?_,?_⟩
  · intro id file hfile
    rw [tombstoneAll,Indexed.get?_updateWhere,hfile]
    refine ⟨_,rfl,?_⟩
    dsimp only
    split <;> rfl
  · intro id file' hfile hne
    rw [tombstoneAll,Indexed.get?_updateWhere,Option.map_eq_some_iff] at hfile
    obtain ⟨file,hfile,hsame⟩ := hfile
    split at hsame
    · next hlive =>
      simp only [Bool.and_eq_true,beq_iff_eq] at hlive
      subst hsame
      exact absurd hlive.1 hne
    · rw [← hsame]
      exact hfile

theorem tombstoneAll_at (db : Db) (x : WorkspaceId) (path : LogicalPath) (id : Uuid) :
    ¬(tombstoneAll db x).files.At (x,path) id := by
  rintro ⟨file',hfile,hindex⟩
  obtain ⟨hlive,hspace,_⟩ := liveIndex_eq.mp hindex
  rw [tombstoneAll,Indexed.get?_updateWhere,Option.map_eq_some_iff] at hfile
  obtain ⟨file,_,hsame⟩ := hfile
  split at hsame
  · subst hsame
    cases hlive
  · next hnot =>
    subst hsame
    simp [hspace,hlive] at hnot

theorem materialize_ok {before : Db} {manifest : Value} {path : LogicalPath} {id fresh : Uuid}
    (hidentified : Identified x manifest before.files) (hid : identityOf manifest path = some id)
    (hkept : Kept x before.files db.files)
    (h : materialize before x (chosenIdentity before x manifest path fresh) path db = .ok db') :
    ∃ file', (∀ k, db'.files.get? k = if k = id then some file' else db.files.get? k) ∧
      liveIndex id file' = some (x,path) ∧ Kept x db.files db'.files := by
  have hchosen : chosenIdentity before x manifest path fresh = id := by
    rw [chosenIdentity,hid]
    rfl
  obtain ⟨row,hrow,hspace⟩ := hidentified.rows path id hid
  have hthere : ((before.files.get? id).any (fun f => f.workspaceId == x)) = true := by
    rw [hrow]
    exact beq_iff_eq.mpr hspace
  rw [hchosen,materialize,if_pos hthere] at h
  obtain ⟨files,hfiles,rfl⟩ := updateFile_ok h
  obtain ⟨file,hfile,hsame⟩ := hkept.rows id row hrow
  have hget := Indexed.get?_modify?_of_some hfile hfiles
  have hspace' : file.workspaceId = x := hsame.trans hspace
  refine ⟨_,hget,liveIndex_eq.mpr ⟨rfl,hspace',rfl⟩,?_⟩
  refine Rewritten.kept (Or.inr ⟨id,_,hget,hspace',?_⟩)
  intro old hold
  rw [hfile] at hold
  cases hold
  exact hspace'

theorem materializeAll_ok {before : Db} {manifest : Value} {fresh : ℕ → Uuid} {n : ℕ}
    {paths : List LogicalPath} (hidentified : Identified x manifest before.files)
    (hcovered : ∀ p ∈ paths, ∃ id, identityOf manifest p = some id)
    (hkept : Kept x before.files db.files)
    (h : materializeAll before x manifest fresh n paths db = .ok db') :
    Kept x db.files db'.files ∧ ∀ q id, db'.files.At (x,q) id ↔
      (q ∈ paths ∧ identityOf manifest q = some id) ∨
        (db.files.At (x,q) id ∧ ∀ p ∈ paths, identityOf manifest p ≠ some id) := by
  induction paths generalizing db n with
  | nil =>
    cases h
    exact ⟨.refl x _,fun q id => by simp⟩
  | cons path rest ih =>
    rw [materializeAll,bind_ok] at h
    obtain ⟨middle,hstep,hrest⟩ := h
    obtain ⟨own,hown⟩ := hcovered path (List.mem_cons_self ..)
    obtain ⟨file',hget,hlive,hkept'⟩ := materialize_ok hidentified hown hkept hstep
    obtain ⟨hkept'',hlater⟩ := ih (fun p hp => hcovered p (List.mem_cons_of_mem _ hp))
      (hkept.trans hkept') hrest
    refine ⟨hkept'.trans hkept'',?_⟩
    intro q id
    rw [hlater q id,Indexed.at_replaced hget]
    by_cases hid : id = own
    · subst hid
      have hq : identityOf manifest q = some id ↔ q = path :=
        ⟨fun h => hidentified.injective q path id h hown,fun h => h ▸ hown⟩
      rw [if_pos rfl,hlive,hq]
      constructor
      · rintro (⟨_,rfl⟩ | ⟨he,_⟩)
        · exact Or.inl ⟨List.mem_cons_self ..,rfl⟩
        · cases he
          exact Or.inl ⟨List.mem_cons_self ..,rfl⟩
      · rintro (⟨_,rfl⟩ | ⟨_,hnot⟩)
        · by_cases hmem : q ∈ rest
          · exact Or.inl ⟨hmem,rfl⟩
          · refine Or.inr ⟨rfl,?_⟩
            intro p hp hpid
            exact hmem (hidentified.injective p q id hpid hown ▸ hp)
        · exact absurd hown (hnot path (List.mem_cons_self ..))
    · rw [if_neg hid]
      have hpath : identityOf manifest path ≠ some id := by
        rw [hown]
        exact fun he => hid (Option.some.inj he).symm
      constructor
      · rintro (⟨hmem,hq⟩ | ⟨hat,hnot⟩)
        · exact Or.inl ⟨List.mem_cons_of_mem _ hmem,hq⟩
        · exact Or.inr ⟨hat,List.forall_mem_cons.mpr ⟨hpath,hnot⟩⟩
      · rintro (⟨hmem,hq⟩ | ⟨hat,hnot⟩)
        · refine Or.inl ⟨?_,hq⟩
          rcases List.mem_cons.mp hmem with rfl | hmem
          · exact absurd hq hpath
          · exact hmem
        · exact Or.inr ⟨hat,fun p hp => hnot p (List.mem_cons_of_mem _ hp)⟩

/-! ## The event -/

def manifestFiles (m : WorkspaceManifestV1) : ExtTreeMap LogicalPath WorkspaceFile :=
  m.files.map (fun _ e => ⟨e.blobHash,e.sizeBytes⟩)

theorem map_entries (files : ExtTreeMap LogicalPath FileEntryV1) :
    (files.map (fun _ e => (⟨e.blobHash,e.sizeBytes⟩ : WorkspaceFile))).map
      (fun _ f => (⟨f.blobHash,f.sizeBytes⟩ : FileEntryV1)) = files := by
  apply ExtTreeMap.ext_getElem?
  intro q
  rw [ExtTreeMap.getElem?_map,ExtTreeMap.getElem?_map,Option.map_map]
  cases files[q]? <;> rfl

theorem toManifest_ok {state : WorkspaceState} {m : WorkspaceManifestV1} :
    state.toManifest = .ok m ↔ state.mainFile = some m.mainFile ∧ state.files = manifestFiles m := by
  constructor
  · intro h
    have hback := WorkspaceState.fromManifest_toManifest h
    simp only [WorkspaceState.fromManifest,bind_ok,pure_ok] at hback
    obtain ⟨_,_,hstate⟩ := hback
    rw [← hstate]
    exact ⟨rfl,rfl⟩
  · rintro ⟨hmain,hfiles⟩
    have hvalid : state.validate = .ok () := by
      rw [WorkspaceState.validate_ok]
      intro main h
      rw [hmain,Option.some.injEq] at h
      rw [hfiles,manifestFiles,ExtTreeMap.contains_map,← h]
      exact m.mainPresent
    simp only [WorkspaceState.toManifest,bind_ok,require_ok,mapError_ok]
    refine ⟨(),hvalid,m.mainFile,hmain,?_⟩
    rw [hfiles,manifestFiles,map_entries,WorkspaceManifestV1.new,dif_pos m.nonempty,
      dif_pos m.mainPresent]

theorem foldlM_delete {paths : List LogicalPath} {state : WorkspaceState} (hnodup : paths.Nodup)
    (hthere : ∀ p ∈ paths, state.files.contains p = true) :
    ∃ next, (paths.map WorkspaceOperationV1.deleteFile).foldlM WorkspaceState.applyOperation state =
      .ok next ∧ ∀ q, next.files.contains q = true ↔ q ∉ paths ∧ state.files.contains q = true := by
  induction paths generalizing state with
  | nil => exact ⟨state,rfl,fun q => by simp⟩
  | cons path rest ih =>
    rw [List.nodup_cons] at hnodup
    let mainFile := if state.mainFile = some path then none else state.mainFile
    let middle : WorkspaceState := { state with files := state.files.erase path, mainFile := mainFile }
    have hstep : state.applyOperation (.deleteFile path) = .ok middle := by
      simp only [WorkspaceState.applyOperation,hthere path (List.mem_cons_self ..)]
      rfl
    have hmiddle : ∀ p ∈ rest, middle.files.contains p = true := by
      intro p hp
      refine contains_erase_iff.mpr ⟨?_,hthere p (List.mem_cons_of_mem _ hp)⟩
      rintro rfl
      exact hnodup.1 hp
    obtain ⟨next,hnext,hfiles⟩ := ih hnodup.2 hmiddle
    refine ⟨next,?_,?_⟩
    · rw [List.map_cons,List.foldlM_cons,hstep]
      exact hnext
    · intro q
      rw [hfiles q,List.mem_cons,not_or]
      exact (and_congr_right fun _ => contains_erase_iff).trans (by tauto)

theorem foldlM_put {entries : List (LogicalPath × FileEntryV1)} (state : WorkspaceState)
    (hnodup : (entries.map Prod.fst).Nodup) :
    ∃ next, (entries.map putEntry).foldlM WorkspaceState.applyOperation state = .ok next ∧
      next.mainFile = state.mainFile ∧
      (∀ e ∈ entries, next.files[e.1]? = some ⟨e.2.blobHash,e.2.sizeBytes⟩) ∧
      ∀ q, q ∉ entries.map Prod.fst → next.files[q]? = state.files[q]? := by
  induction entries generalizing state with
  | nil => exact ⟨state,rfl,rfl,fun e he => by simp at he,fun q _ => rfl⟩
  | cons entry rest ih =>
    rw [List.map_cons,List.nodup_cons] at hnodup
    let file : WorkspaceFile := ⟨entry.2.blobHash,entry.2.sizeBytes⟩
    obtain ⟨next,hnext,hmain,hput,hkept⟩ :=
      ih { state with files := state.files.insert entry.1 file } hnodup.2
    refine ⟨next,hnext,hmain,?_,?_⟩
    · intro e he
      rcases List.mem_cons.mp he with rfl | he
      · rw [hkept e.1 hnodup.1]
        exact ExtTreeMap.getElem?_insert_self
      · exact hput e he
    · intro q hq
      rw [List.map_cons,List.mem_cons,not_or] at hq
      rw [hkept q hq.2,ExtTreeMap.getElem?_insert,if_neg]
      rw [Std.LawfulEqCmp.compare_eq_iff_eq]
      exact fun he => hq.1 he.symm

theorem foldlM_restoreOperations {before : Db} {m : WorkspaceManifestV1} {state : WorkspaceState}
    (htracks : Tracks x state before.files) :
    ∃ next, (restoreOperations before x m).foldlM WorkspaceState.applyOperation state = .ok next ∧
      next.mainFile = some m.mainFile ∧ next.files = manifestFiles m := by
  obtain ⟨emptied,hdelete,hempty⟩ := foldlM_delete (liveFiles_nodup before x)
    (fun p hp => (htracks p).mpr (mem_livePaths.mp hp))
  have hnone (q : LogicalPath) : emptied.files[q]? = none := by
    apply ExtTreeMap.getElem?_eq_none_of_contains_eq_false
    rw [Bool.eq_false_iff]
    intro hq
    obtain ⟨hnot,hthere⟩ := (hempty q).mp hq
    exact hnot (mem_livePaths.mpr ((htracks q).mp hthere))
  have hkeys : (m.files.toList.map Prod.fst).Nodup := by
    rw [ExtTreeMap.map_fst_toList_eq_keys]
    exact ExtTreeMap.nodup_keys
  obtain ⟨filled,hput,_,hentries,hothers⟩ := foldlM_put emptied hkeys
  have hfiles : filled.files = manifestFiles m := by
    apply ExtTreeMap.ext_getElem?
    intro q
    rw [manifestFiles,ExtTreeMap.getElem?_map]
    cases hq : m.files[q]? with
    | some e =>
      exact hentries (q,e) (ExtTreeMap.mem_toList_iff_getElem?_eq_some.mpr hq)
    | none =>
      refine (hothers q ?_).trans (hnone q)
      rw [ExtTreeMap.map_fst_toList_eq_keys,ExtTreeMap.mem_keys]
      simpa using hq
  refine ⟨{ filled with mainFile := some m.mainFile },?_,rfl,hfiles⟩
  have hmain : filled.applyOperation (.setMainFile m.mainFile) =
      .ok { filled with mainFile := some m.mainFile } := by
    have hthere : filled.files.contains m.mainFile = true := by
      rw [hfiles,manifestFiles,ExtTreeMap.contains_map]
      exact m.mainPresent
    simp only [WorkspaceState.applyOperation,hthere]
    rfl
  rw [restoreOperations,List.foldlM_append,List.foldlM_append]
  have hmap : (liveFiles before x).map (fun r => WorkspaceOperationV1.deleteFile r.2.path) =
      ((liveFiles before x).map (fun r => r.2.path)).map WorkspaceOperationV1.deleteFile := by
    rw [List.map_map]
    rfl
  rw [hmap,hdelete]
  dsimp only [bind,Except.bind]
  rw [hput]
  exact foldlM_single hmain

/-! ## The transaction -/

structure Restored (db db' : Db) (actor : UserId) (paperId : Uuid) (x : WorkspaceId) (target : Uuid)
    (safety : ExactRestoreState) (kind : RestoreKind) (fresh : FreshRestore)
    (applied : RestorationApplied) (head : HeadRow) (version : Queue.Version)
    (m : WorkspaceManifestV1) (epoch : ℕ) : Prop where
  found : db.store.heads.get? x = some head
  current : head.durableVersion = safety.workspaceVersion
  targeted : db.queue.versions.get? target = some version
  paper : version.paperId = paperId
  workspace : version.workspaceId = x
  manifest : (version.manifest.get? "workspace").bind WorkspaceManifestV1.fromValue = some m
  here : (db.store.workspaces.get? x).isSome
  files : ∃ before mid, before.files = db.files ∧ materializeAll before x version.manifest fresh.file 0
    m.files.keys (tombstoneAll before x) = .ok mid ∧ db'.files = mid.files
  store : ∃ hops store, Appended db.store store x head.durableVersion
      ⟨restoreOperations db x m,hops⟩ ∧
    recordRestoredSnapshot store x (head.durableVersion + 1) version.snapshotId = .ok db'.store
  counted : db.documentEpochs.get? x = some epoch
  raised : db'.documentEpochs = db.documentEpochs.modify x (· + 1)
  versions : ∃ versions, db.queue.versions.insert? fresh.safety
      ⟨paperId,x,safety.documentEpoch,Queue.nextVersionNumber db.queue x,.preRestoreSafety,actor,
        head.durableVersion,safety.snapshotId,safety.manifest,safety.stateHash⟩ = some versions ∧
    versions.insert? fresh.applied ⟨paperId,x,epoch + 1,Queue.nextVersionNumber db.queue x + 1,
      kind.versionType,actor,head.durableVersion + 1,version.snapshotId,
      appliedManifest version.manifest (epoch + 1) (head.durableVersion + 1) target,
      version.stateHash⟩ = some db'.queue.versions
  schedulers : db'.queue.schedulers = (desireRestored db.queue x version.stateHash
    (head.durableVersion + 1)).schedulers
  answer : applied = ⟨fresh.applied,fresh.safety,epoch + 1,head.durableVersion + 1⟩
  personalPapers : db'.personalPapers = db.personalPapers
  paperTeams : db'.paperTeams = db.paperTeams

theorem restoreOperations_ne_nil (db : Db) (x : WorkspaceId) (m : WorkspaceManifestV1) :
    restoreOperations db x m ≠ [] := by
  simp [restoreOperations]

theorem targetVersion_ok {target : Uuid} {version : Queue.Version} {m : WorkspaceManifestV1}
    (h : targetVersion db paperId x target = .ok (version,m)) :
    db.queue.versions.get? target = some version ∧ version.paperId = paperId ∧
      version.workspaceId = x ∧
      (version.manifest.get? "workspace").bind WorkspaceManifestV1.fromValue = some m := by
  simp only [targetVersion,bind_ok,require_ok,pure_ok,Option.filter_eq_some_iff,Bool.and_eq_true,
    beq_iff_eq,Prod.mk.injEq] at h
  obtain ⟨_,⟨hversion,hpaper,hspace⟩,value,hvalue,_,hmanifest,rfl,rfl⟩ := h
  exact ⟨hversion,hpaper,hspace,by rw [hvalue,Option.bind_some,hmanifest]⟩

theorem raiseEpoch_ok {epoch : ℕ} (h : raiseEpoch db x = .ok (db',epoch)) :
    ∃ old, db.documentEpochs.get? x = some old ∧ epoch = old + 1 ∧
      db' = { db with documentEpochs := db.documentEpochs.modify x (· + 1) } := by
  simp only [raiseEpoch,bind_ok,require_ok,pure_ok,Prod.mk.injEq] at h
  obtain ⟨old,hold,_,_,rfl,rfl⟩ := h
  exact ⟨old,hold,rfl,rfl⟩

theorem applyRestore_ok {target : Uuid} {safety : ExactRestoreState} {kind : RestoreKind}
    {fresh : FreshRestore} {applied : RestorationApplied}
    (h : applyRestore actor paperId x target safety kind fresh db = .ok (db',applied)) :
    ∃ head version m epoch,
      Restored db db' actor paperId x target safety kind fresh applied head version m epoch := by
  simp only [applyRestore,bind_ok,require_ok,ensure_ok,pure_ok,Prod.exists,decide_eq_true_eq,
    Prod.mk.injEq] at h
  obtain ⟨_,_,head,hhead,_,hcurrent,version,m,htarget,_,_,_,hsafety,before,hfront,mid,hmid,_,hbound,
    store,happend,recorded,hrecorded,_,_,hepoch,_,happlied,rfl,rfl⟩ := h
  obtain ⟨hversion,hpaper,hspace,hmanifest⟩ := targetVersion_ok htarget
  obtain ⟨hhere,versions,hversions,rfl⟩ := insertPaperVersion_ok hsafety
  obtain ⟨_,_,_,hbefore⟩ := restoreTeamFrontMatter_frame hfront
  have hfiles : before.files = db.files := by rw [hbefore]
  subst hbefore
  obtain ⟨files,rfl⟩ := materializeAll_frame hmid
  obtain ⟨epoch,hold,rfl,rfl⟩ := raiseEpoch_ok hepoch
  obtain ⟨_,versions',hversions',rfl⟩ := insertPaperVersion_ok happlied
  have happended : Appended db.store store x head.durableVersion
      ⟨restoreOperations db x m,restoreOperations_ne_nil db x m⟩ :=
    insertNextEvent_ok hhead (Nat.lt_of_succ_le hbound) happend
  refine ⟨head,version,m,epoch,?_⟩
  exact {
    found := hhead
    current := hcurrent
    targeted := hversion
    paper := hpaper
    workspace := hspace
    manifest := hmanifest
    here := hhere
    files := ⟨_,_,hfiles,hmid,rfl⟩
    store := ⟨restoreOperations_ne_nil db x m,store,happended,hrecorded⟩
    counted := hold
    raised := rfl
    versions := ⟨versions,hversions,hversions'⟩
    schedulers := rfl
    answer := rfl
    personalPapers := rfl
    paperTeams := rfl }

end LatexCore.Papers
