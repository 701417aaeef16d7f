import LatexCore.Papers.Numbers

/-! # Restoration requests

A writer asks for a version of the team's paper, and the leader rejects the request or applies
it. In every run a request is decided at most once, its row stays as it was decided, and an
applied one names the reverted version that its leader got for it and nobody else did.
-/
namespace LatexCore.Papers
open Core Foundation Workspace
variable {db db' : Db}

/-- The version of an applied request: the leader's restoration of the target. -/
structure Reverted (db : Db) (row : RestorationRequest) (leader : UserId) (version : Queue.Version) :
    Prop where
  type : version.versionType = .teamRevert
  creator : version.createdByUserId = leader
  paper : version.paperId = row.paperId
  workspace : version.workspaceId = row.workspaceId
  snapshot : ∃ target, db.queue.versions.get? row.targetVersionId = some target ∧
    version.snapshotId = target.snapshotId ∧ version.stateHash = target.stateHash

def Outcome (db : Db) (row : RestorationRequest) : Prop :=
  match row.state with
  | .draft => False
  | .requested => row.leaderWriterUserId = none ∧ row.appliedVersionId = none
  | .leaderRejected => row.leaderWriterUserId.isSome ∧ row.appliedVersionId = none
  | .applied => ∃ leader id version, row.leaderWriterUserId = some leader ∧
      row.appliedVersionId = some id ∧ db.queue.versions.get? id = some version ∧
      Reverted db row leader version

structure Settled (db : Db) (row : RestorationRequest) : Prop where
  team : ∃ team, db.paperTeams.get? row.paperId = some team ∧ team.workspaceId = row.workspaceId
  target : ∃ version, db.queue.versions.get? row.targetVersionId = some version ∧
    version.paperId = row.paperId ∧ version.workspaceId = row.workspaceId
  outcome : Outcome db row

/-- The requests of a run that is at these tables. -/
structure Requested (db : Db) : Prop where
  settled : ∀ id row, db.requests.get? id = some row → Settled db row
  distinct : ∀ id id' row row' version, db.requests.get? id = some row →
    db.requests.get? id' = some row' → row.appliedVersionId = some version →
    row'.appliedVersionId = some version → id = id'

theorem Settled.mono {row : RestorationRequest} (h : Settled db row)
    (hteams : Housed db.paperTeams db'.paperTeams) (hversions : Recorded db.queue db'.queue) :
    Settled db' row := by
  obtain ⟨⟨team,hteam,hspace⟩,⟨target,htarget,hrest⟩,houtcome⟩ := h
  obtain ⟨team',hteam',hspace'⟩ := hteams _ team hteam
  refine ⟨⟨team',hteam',hspace'.trans hspace⟩,⟨target,hversions.kept htarget,hrest⟩,?_⟩
  unfold Outcome at houtcome ⊢
  split at houtcome
  · exact houtcome
  · exact houtcome
  · exact houtcome
  · obtain ⟨leader,id,version,hleader,hid,hversion,hreverted⟩ := houtcome
    obtain ⟨source,hsource,hsame⟩ := hreverted.snapshot
    exact ⟨leader,id,version,hleader,hid,hversions.kept hversion,hreverted.type,hreverted.creator,
      hreverted.paper,hreverted.workspace,source,hversions.kept hsource,hsame⟩

/-- What a step may do to the requests: one row is new, or was undecided and is decided. -/
inductive Progress (db db' : Db) : Prop
  | same (h : db'.requests = db.requests)
  | changed (id : Uuid) (row : RestorationRequest)
      (hopen : ∀ old, db.requests.get? id = some old → old.state = .requested)
      (hget : ∀ k, db'.requests.get? k = if k = id then some row else db.requests.get? k)
      (hsettled : Requested db → Settled db' row)
      (hfresh : Requested db → ∀ version, row.appliedVersionId = some version →
        db.queue.versions.get? version = none)

theorem Progress.requested (h : Progress db db') (hr : Requested db)
    (hteams : Housed db.paperTeams db'.paperTeams) (hversions : Recorded db.queue db'.queue) :
    Requested db' := by
  cases h with
  | same h =>
    constructor
    · rw [h]
      exact fun id row hrow => (hr.settled id row hrow).mono hteams hversions
    · rw [h]
      exact hr.distinct
  | changed id row hopen hget hsettled hfresh =>
    have hold : ∀ k old version, db.requests.get? k = some old → old.appliedVersionId = some version →
        row.appliedVersionId ≠ some version := by
      intro k old version hk hversion hsame
      have houtcome := (hr.settled k old hk).outcome
      have hnone := hfresh hr version hsame
      unfold Outcome at houtcome
      split at houtcome <;> simp_all
    constructor
    · intro k found hk
      rw [hget] at hk
      split at hk
      · cases hk
        exact hsettled hr
      · exact (hr.settled k found hk).mono hteams hversions
    · intro k k' found found' version hk hk' hversion hversion'
      rw [hget] at hk hk'
      split at hk <;> split at hk'
      · next heq heq' => exact heq.trans heq'.symm
      · cases hk
        exact absurd hversion (hold k' found' version hk' hversion')
      · cases hk'
        exact absurd hversion' (hold k found version hk hversion)
      · exact hr.distinct k k' found found' version hk hk' hversion hversion'

theorem Progress.final (h : Progress db db') {id : Uuid} {row : RestorationRequest}
    (hrow : db.requests.get? id = some row) (hstate : row.state ≠ .requested) :
    db'.requests.get? id = some row := by
  cases h with
  | same h => rwa [h]
  | changed other new hopen hget =>
    rw [hget,if_neg,hrow]
    rintro rfl
    exact hstate (hopen row hrow)

theorem createRestorationRequest_progress {writer : UserId} {paperId target id answer : Uuid}
    {reason : Option String}
    (h : createRestorationRequest writer paperId target reason id db = .ok (db',answer)) :
    Progress db db' ∧ db'.paperTeams = db.paperTeams := by
  simp only [createRestorationRequest,bind_ok,require_ok,ensure_ok,pure_ok,Prod.mk.injEq,
    Option.filter_eq_some_iff,Option.any_eq_true,Bool.and_eq_true,beq_iff_eq] at h
  obtain ⟨_,_,_,_,team,⟨hteam,_⟩,_,⟨version,hversion,hpaper,hspace⟩,requests,hinsert,rfl,_⟩ := h
  refine ⟨.changed id _ ?_ (Table.get?_insert? hinsert) ?_ (by simp),rfl⟩
  · intro old hold
    simp [(Table.insert?_eq_some hinsert).1] at hold
  · exact fun _ => ⟨⟨team,hteam,rfl⟩,⟨version,hversion,hpaper,hspace⟩,rfl,rfl⟩

theorem Progress.decided {id : Uuid} {row : RestorationRequest}
    {f : RestorationRequest → RestorationRequest} (hrow : db.requests.get? id = some row)
    (hstate : row.state = .requested) (h : db'.requests = db.requests.modify id f)
    (hsettled : Requested db → Settled db' (f row)) (hfresh : Requested db → ∀ version,
      (f row).appliedVersionId = some version → db.queue.versions.get? version = none) :
    Progress db db' := by
  refine .changed id (f row) ?_ ?_ hsettled hfresh
  · intro old hold
    rw [hrow,Option.some.injEq] at hold
    exact hold ▸ hstate
  · intro k
    rw [h,Table.get?_modify]
    split
    · next hk => rw [hk,hrow,Option.map_some]
    · rfl

theorem leaderRejectRestoration_progress {leader : UserId} {id : Uuid} {note : Option String} {u : Unit}
    (h : leaderRejectRestoration leader id note db = .ok (db',u)) :
    Progress db db' ∧ db'.paperTeams = db.paperTeams := by
  simp only [leaderRejectRestoration,bind_ok,require_ok,pure_ok,Prod.mk.injEq,
    Option.filter_eq_some_iff,beq_iff_eq] at h
  obtain ⟨_,_,_,_,row,⟨hrow,hstate⟩,_,_,rfl,_⟩ := h
  have hnone (hr : Requested db) : row.appliedVersionId = none := by
    have houtcome := (hr.settled id row hrow).outcome
    rw [Outcome,hstate] at houtcome
    exact houtcome.2
  refine ⟨.decided (f := fun r => { r with
    state := .leaderRejected
    leaderWriterUserId := some leader
    leaderDecisionNote := trimmedNote note }) hrow hstate rfl ?_ ?_,rfl⟩
  · exact fun hr => ⟨(hr.settled id row hrow).team,(hr.settled id row hrow).target,rfl,hnone hr⟩
  · intro hr version hversion
    rw [hnone hr] at hversion
    cases hversion

theorem applyRestoration_progress {c : Captured} {restoration : Restoration}
    {applied : RestorationApplied} (h : applyRestoration c restoration db = .ok (db',applied)) :
    Progress db db' ∧ db'.paperTeams = db.paperTeams := by
  obtain ⟨_,_,⟨mid,hrestorative,hdb⟩,hdecides⟩ := applyRestoration_allowed h
  have hteams : db'.paperTeams = db.paperTeams := by
    rw [hdb]
    exact congrArg Governance.paperTeams hrestorative.governance
  refine ⟨?_,hteams⟩
  cases restoration with
  | directTeam | personal => exact .same hdecides
  | team leader id note fresh =>
    have hversions := applyRestoration_recorded h
    obtain ⟨row,mid,hrow,hstate,hrestore,hqueue,hrequests⟩ := hdecides
    obtain ⟨head,version,m,epoch,hr⟩ := applyRestore_ok hrestore
    obtain ⟨versions,hsafety,happlied⟩ := hr.versions
    have hfresh : db.queue.versions.get? fresh.applied = none := by
      by_contra hsome
      obtain ⟨old,hold⟩ := Option.ne_none_iff_exists'.mp hsome
      have hkept := Table.kept_insert? hsafety hold
      simp [(Table.insert?_eq_some happlied).1] at hkept
    refine .decided hrow hstate hrequests ?_ ?_
    · intro hreq
      obtain ⟨team,target,-⟩ := (hreq.settled id row hrow).mono (hteams ▸ .refl _) hversions
      have hversion := (Table.get?_insert? happlied fresh.applied).trans (if_pos rfl)
      rw [← hqueue] at hversion
      obtain rfl := hr.answer
      exact ⟨team,target,leader,fresh.applied,_,rfl,rfl,hversion,rfl,rfl,rfl,rfl,version,
        hversions.kept hr.targeted,rfl,rfl⟩
    · intro _ version hversion
      obtain rfl := Option.some.inj hversion
      rwa [hr.answer]

theorem step_progress (codec : Codec) (w : World) (label : Label) :
    Progress w.db (step codec w label).db ∧
      Housed w.db.paperTeams (step codec w label).db.paperTeams := by
  have hacted := step_acted codec w label
  generalize (step codec w label).db = db at hacted
  have hstays {db : Db} (h : Progress w.db db ∧ db.paperTeams = w.db.paperTeams) (now : Timestamp) :
      Progress w.db { db with now := now } ∧ Housed w.db.paperTeams db.paperTeams := by
    obtain ⟨hprogress,hteams⟩ := h
    refine ⟨?_,hteams ▸ .refl _⟩
    cases hprogress with
    | same h => exact .same h
    | changed id row hopen hget hsettled hfresh =>
      exact .changed id row hopen hget (fun hr => (hsettled hr).mono (.refl _) .refl) hfresh
  cases hacted with
  | observed | queued => exact ⟨.same rfl,.refl _⟩
  | versioned i actor name id now h =>
    obtain ⟨_,_,rfl,_⟩ := createManualVersion_ok h
    exact ⟨.same rfl,.refl _⟩
  | restored i restoration now hc h => exact hstays (applyRestoration_progress h) now
  | served request now h =>
    cases h with
    | refused | policed => exact ⟨.same rfl,.refl _⟩
    | ruled _ g hlawful hhoused => exact ⟨.same rfl,hhoused⟩
    | founded _ x actor role hopens hrole hsigned hlawful hhoused hqueue hrequests =>
      exact ⟨.same hrequests,hhoused⟩
    | edited _ x actor hactor hsigned hedited =>
      obtain ⟨_,_,_,_,_,_,_,_,_,_,rfl⟩ := hedited.exists_edit
      exact ⟨.same rfl,.refl _⟩
    | flushed x fileId documentEpoch inputs blobHash sizeBytes hflushed hedited =>
      obtain ⟨_,_,_,_,_,_,_,_,_,_,rfl⟩ := hedited.exists_edit
      exact ⟨.same rfl,.refl _⟩
    | asked writer paperId target reason id requests h => exact hstays (createRestorationRequest_progress h) now
    | rejected leader id note requests h => exact hstays (leaderRejectRestoration_progress h) now

/-- What is decided at some point of a run stays decided in the same way. -/
structure DecidedOnce (codec : Codec) (w : World) (labels : List Label) : Prop where
  requested : Requested (run (step codec) w labels).db
  final : ∀ id row more, (run (step codec) w labels).db.requests.get? id = some row →
    row.state ≠ .requested → (run (step codec) w (labels ++ more)).db.requests.get? id = some row

theorem requests_decided_once (codec : Codec) (tenants : List TenantId) (users : List UserId)
    (roles : Table UserId GlobalRole) (templates : List Uuid) (programmes : List String)
    (packs : List Uuid) (labels : List Label) :
    DecidedOnce codec (.initial tenants users roles templates programmes packs) labels where
  requested := by
    refine run_invariant (fun w : World => Requested w.db) (fun w label hr => ?_) ?_ labels
    · obtain ⟨hprogress,hteams⟩ := step_progress codec w label
      exact hprogress.requested hr hteams (step_recorded codec w label)
    · constructor
      · intro id row hrow
        cases hrow
      · intro id id' row row' version hrow
        cases hrow
  final := by
    intro id row more hrow hstate
    rw [run_append]
    exact run_invariant (fun w : World => w.db.requests.get? id = some row)
      (fun w label h => (step_progress codec w label).1.final h hstate) hrow more

end LatexCore.Papers
