import LatexCore.Papers.Served

/-! # Authority over the papers

Whoever an event names had the right to add it at that moment: as the founder of the paper, as
one of its writers while it is active, through a live document of the current epoch, or as the
one who may restore it. The leadership that this rests on is kept by every step.
-/
namespace LatexCore.Papers
open Core Foundation Workspace
open Collaboration (CollaborationUpdateInput)
variable {db db' : Db} {x : WorkspaceId}

/-! ## Leadership -/

theorem Served.lawful {request : Request} (h : Served db request db') (hw : db.governance.Lawful) :
    db'.governance.Lawful := by
  cases h with
  | refused | policed | asked | rejected => exact hw
  | ruled _ g hlawful => exact hlawful hw
  | founded _ x actor role hopens hrole hsigned hlawful => exact hlawful hw
  | edited _ x actor hactor hsigned hedited =>
    obtain ⟨_,_,_,_,_,_,_,_,_,_,rfl⟩ := hedited.exists_edit
    exact hw
  | flushed x fileId documentEpoch inputs blobHash sizeBytes hflushed hedited =>
    obtain ⟨_,_,_,_,_,_,_,_,_,_,rfl⟩ := hedited.exists_edit
    exact hw

theorem step_lawful (codec : Codec) {w : World} (hw : w.db.governance.Lawful) (label : Label) :
    (step codec w label).db.governance.Lawful := by
  have hacted := step_acted codec w label
  generalize (step codec w label).db = db at hacted
  cases hacted with
  | observed | queued => exact hw
  | served request now h => exact h.lawful hw
  | versioned i actor name id now h =>
    obtain ⟨_,_,rfl,_⟩ := createManualVersion_ok h
    exact hw
  | restored i restoration now hc h =>
    obtain ⟨_,_,⟨mid,hrestorative,hdb⟩,_⟩ := applyRestoration_allowed h
    rw [hdb]
    exact hrestorative.governance ▸ hw

/-- In every run every active team has exactly one leader, and everybody has the role of their part. -/
theorem leadership_lawful (codec : Codec) (tenants : List TenantId) (users : List UserId)
    (roles : Table UserId GlobalRole) (templates : List Uuid) (programmes : List String)
    (packs : List Uuid) (labels : List Label) :
    (run (step codec) (.initial tenants users roles templates programmes packs)
      labels).db.governance.Lawful := by
  refine run_invariant (fun w : World => w.db.governance.Lawful)
    (fun w label hw => step_lawful codec hw label) ?_ labels
  constructor
  · intro team user member hm
    cases hm
  · rintro team user ⟨member,hm,-⟩
    cases hm
  · intro id team hteam
    cases hteam
  · intro id paper hpaper
    cases hpaper

/-! ## The audit trail -/

/-- Who may add an event to a workspace, and with which step. -/
inductive Authorised (w : World) (x : WorkspaceId) (actor : UserId) : Label → Prop
  | founder (request : Request) (role : GlobalRole) (hopens : request.opens = some (x,actor,role))
      (hrole : w.db.roles.get? actor = some role) : Authorised w x actor (.request request)
  | editor (request : Request) (hactor : request.editor? = some actor)
      (hrole : w.db.roles.get? actor = some .writer)
      (hstatus : writerPaperStatus w.db actor x = some .active) : Authorised w x actor (.request request)
  | collaborator (fileId : Uuid) (documentEpoch : ℕ) (inputs : List (CollaborationUpdateInput Bytes))
      (blobHash : BlobHash) (sizeBytes : UInt64) (file : PaperFile)
      (hactor : inputs.getLast?.map CollaborationUpdateInput.actorUserId = some actor)
      (hfile : w.db.files.get? fileId = some file)
      (hlive : file.tombstoned = false ∧ file.workspaceId = x)
      (hpolicy : ((w.db.policies.get? fileId).getD .editable).contentEditable = true)
      (hepoch : w.db.documentEpochs.get? x = some documentEpoch) : Authorised w x actor
        (.request (.collaborationBatch x fileId documentEpoch inputs blobHash sizeBytes))
  | restorer (i : ℕ) (c : Captured) (restoration : Restoration) (hc : w.captured[i]? = some c)
      (hspace : c.workspaceId = x) (hactor : restoration.actor = actor)
      (hrole : w.db.roles.get? actor = some .writer) (hallowed : restoration.Allowed w.db c) :
      Authorised w x actor (.restore i restoration)

theorem step_events (codec : Codec) (w : World) (label : Label) :
    (step codec w label).db.store.events = w.db.store.events ∨ ∃ x actor,
      Signed w.db.store (step codec w label).db.store x actor ∧ Authorised w x actor label := by
  have hacted := step_acted codec w label
  generalize (step codec w label).db = db at hacted
  cases hacted with
  | observed _ now store documentEpochs h => exact Or.inl h
  | queued => exact Or.inl rfl
  | versioned i actor name id now h =>
    obtain ⟨_,_,rfl,_⟩ := createManualVersion_ok h
    exact Or.inl rfl
  | restored i restoration now hc h =>
    obtain ⟨hallowed,hrole,⟨mid,hrestorative,hdb⟩,_⟩ := applyRestoration_allowed h
    rw [hdb]
    exact Or.inr ⟨_,_,hrestorative.signed,.restorer i _ restoration hc rfl rfl hrole hallowed⟩
  | served request now h =>
    cases h with
    | refused | ruled | policed | asked | rejected => exact Or.inl rfl
    | founded _ x actor role hopens hrole hsigned =>
      exact Or.inr ⟨x,actor,hsigned,.founder request role hopens hrole⟩
    | edited _ y actor hactor hsigned =>
      obtain ⟨x,haccess,hsigned,_⟩ := hsigned
      simp only [requireWriterWorkspaceAccess,bind_ok,require_ok,ensure_ok,decide_eq_true_eq] at haccess
      obtain ⟨_,hrole,_,hstatus,rfl⟩ := haccess
      exact Or.inr ⟨x,actor,hsigned,.editor request hactor (requireRole_single hrole) hstatus⟩
    | flushed x fileId documentEpoch inputs blobHash sizeBytes hflushed =>
      obtain ⟨file,hfile,hlive⟩ := hflushed.live
      obtain ⟨last,hlast,hsigned⟩ := hflushed.signed
      exact Or.inr ⟨x,_,hsigned,.collaborator fileId documentEpoch inputs blobHash sizeBytes file
        (congrArg (Option.map CollaborationUpdateInput.actorUserId) hlast) hfile hlive hflushed.policy
        hflushed.epoch⟩

theorem step_keeps_events (codec : Codec) (w : World) (label : Label) (k : WorkspaceId × ℕ)
    (row : EventRow) (h : w.db.store.events.get? k = some row) :
    (step codec w label).db.store.events.get? k = some row := by
  rcases step_events codec w label with hsame | ⟨x,actor,⟨n,new,_,hinsert⟩,_⟩
  · rw [hsame]
    exact h
  · rw [Table.get?_insert? hinsert,if_neg,h]
    rintro rfl
    simp [(Table.insert?_eq_some hinsert).1] at h

/-- Every event was added once, by a step that its actor was allowed, and stays as it is. -/
def Audited (codec : Codec) (w : World) (labels : List Label) : Prop :=
  ∀ x n row, (run (step codec) w labels).db.store.events.get? (x,n) = some row →
    ∃ before label after, labels = before ++ label :: after ∧
      (run (step codec) w before).db.store.events.get? (x,n) = none ∧
      Authorised (run (step codec) w before) x row.createdByUserId label ∧
      ∀ more, (run (step codec) w (before ++ label :: more)).db.store.events.get? (x,n) = some row

theorem audit_trail (codec : Codec) (tenants : List TenantId) (users : List UserId)
    (roles : Table UserId GlobalRole) (templates : List Uuid) (programmes : List String)
    (packs : List Uuid) (labels : List Label) :
    Audited codec (.initial tenants users roles templates programmes packs) labels := by
  intro x n row hrow
  obtain ⟨before,label,after,hlabels,hbefore,hafter⟩ := run_crossing
    (fun w : World => w.db.store.events.get? (x,n) = some row) (fun hnone => by cases hnone) hrow
  refine ⟨before,label,after,hlabels,?_⟩
  rcases step_events codec (run (step codec) _ before) label with
    hsame | ⟨y,actor,⟨m,new,hactor,hinsert⟩,hallowed⟩
  · exact absurd (hsame ▸ hafter) hbefore
  · have hget := hafter
    rw [Table.get?_insert? hinsert] at hget
    split at hget
    · next hk =>
      cases hk
      cases hget
      refine ⟨(Table.insert?_eq_some hinsert).1,hactor ▸ hallowed,?_⟩
      intro more
      rw [run_append,run_cons]
      exact run_relates (fun v v' : World => ∀ k row, v.db.store.events.get? k = some row →
        v'.db.store.events.get? k = some row) (fun _ _ _ h => h) (fun h h' k row hk => h' k row (h k row hk))
        (fun v label => step_keeps_events codec v label) _ more _ _ hafter
    · exact absurd hget hbefore

end LatexCore.Papers
