import LatexCore.Papers.Served

/-! # Updates of the documents

The updates of all documents lie in one table. Only a batch of a live document adds to it, and
only restorations raise the epoch of a workspace. Between any two points of a run the table has
grown at its end, and no update that came in between is of an epoch that was over before.
-/
namespace LatexCore.Papers
open Core Foundation Workspace
open Collaboration (UpdateRow)
variable {db db' : Db}

/-- The later of two updates has the higher number, and no earlier epoch of the workspace. -/
def Precedes (u v : UpdateRow Bytes) : Prop :=
  u.id < v.id ∧ (u.document.room.workspaceId = v.document.room.workspaceId →
    u.document.documentEpoch ≤ v.document.documentEpoch)

/-- An update that was added between the two tables. -/
structure Between (db db' : Db) (u : UpdateRow Bytes) : Prop where
  number : db.nextUpdateId ≤ u.id ∧ u.id < db'.nextUpdateId
  fresh : ∀ epoch, db.documentEpochs.get? u.document.room.workspaceId = some epoch →
    epoch ≤ u.document.documentEpoch
  current : ∃ epoch, db'.documentEpochs.get? u.document.room.workspaceId = some epoch ∧
    u.document.documentEpoch ≤ epoch

structure Follows (db db' : Db) : Prop where
  next : db.nextUpdateId ≤ db'.nextUpdateId
  epochs : ∀ x epoch, db.documentEpochs.get? x = some epoch →
    ∃ epoch', db'.documentEpochs.get? x = some epoch' ∧ epoch ≤ epoch'
  updates : ∃ added, db'.updates = db.updates ++ added ∧ added.Pairwise Precedes ∧
    ∀ u ∈ added, Between db db' u

theorem Follows.of_epochs (hupdates : db'.updates = db.updates) (hnext : db'.nextUpdateId = db.nextUpdateId)
    (hepochs : ∀ x epoch, db.documentEpochs.get? x = some epoch →
      ∃ epoch', db'.documentEpochs.get? x = some epoch' ∧ epoch ≤ epoch') : Follows db db' :=
  ⟨hnext.ge,hepochs,[],by rw [hupdates,List.append_nil],.nil,by simp⟩

theorem Quiet.follows (h : Quiet db db') : Follows db db' :=
  .of_epochs h.1 h.2.1 (fun _ epoch hx => ⟨epoch,h.2.2 ▸ hx,Nat.le_refl _⟩)

theorem Follows.trans {db'' : Db} (h : Follows db db') (h' : Follows db' db'') : Follows db db'' := by
  obtain ⟨added,hadded,hsorted,hbetween⟩ := h.updates
  obtain ⟨more,hmore,hsorted',hbetween'⟩ := h'.updates
  have hnext := h.next
  have hnext' := h'.next
  refine ⟨Nat.le_trans hnext hnext',?_,added ++ more,?_,?_,?_⟩
  · intro x epoch hx
    obtain ⟨_,hx,hle⟩ := h.epochs x epoch hx
    obtain ⟨_,hx,hle'⟩ := h'.epochs x _ hx
    exact ⟨_,hx,Nat.le_trans hle hle'⟩
  · rw [hmore,hadded,List.append_assoc]
  · refine List.pairwise_append.mpr ⟨hsorted,hsorted',?_⟩
    intro u hu v hv
    refine ⟨Nat.lt_of_lt_of_le (hbetween u hu).number.2 (hbetween' v hv).number.1,?_⟩
    intro hspace
    obtain ⟨epoch,hepoch,hle⟩ := (hbetween u hu).current
    exact Nat.le_trans hle ((hbetween' v hv).fresh epoch (hspace ▸ hepoch))
  · refine List.forall_mem_append.mpr ⟨?_,?_⟩
    · intro u hu
      obtain ⟨⟨hlow,hhigh⟩,hfresh,epoch,hepoch,hle⟩ := hbetween u hu
      obtain ⟨epoch',hepoch',hle'⟩ := h'.epochs _ epoch hepoch
      exact ⟨⟨hlow,Nat.lt_of_lt_of_le hhigh hnext'⟩,hfresh,epoch',hepoch',Nat.le_trans hle hle'⟩
    · intro u hu
      obtain ⟨⟨hlow,hhigh⟩,hfresh,hcurrent⟩ := hbetween' u hu
      refine ⟨⟨Nat.le_trans hnext hlow,hhigh⟩,?_,hcurrent⟩
      intro epoch hepoch
      obtain ⟨epoch',hepoch',hle⟩ := h.epochs _ epoch hepoch
      exact Nat.le_trans hle (hfresh epoch' hepoch')

theorem Flushed.follows {x : WorkspaceId} {fileId : Uuid} {documentEpoch : ℕ}
    {inputs : List (Collaboration.CollaborationUpdateInput Bytes)}
    (h : Flushed db db' x fileId documentEpoch inputs) : Follows db db' := by
  refine ⟨h.updates.1 ▸ Nat.le_add_right _ _,fun y epoch hy => ⟨epoch,h.epochs ▸ hy,Nat.le_refl _⟩,_,h.updates.2,?_,?_⟩
  · rw [List.pairwise_iff_getElem]
    intro i j hi hj hij
    simp only [List.getElem_mapIdx]
    exact ⟨by simpa using hij,fun _ => Nat.le_refl _⟩
  · intro u hu
    obtain ⟨n,hn,rfl⟩ := List.mem_mapIdx.mp hu
    refine ⟨⟨by simp,by simp [h.updates.1,hn]⟩,?_,documentEpoch,h.epochs ▸ h.epoch,Nat.le_refl _⟩
    intro epoch hepoch
    rw [h.epoch,Option.some.injEq] at hepoch
    exact hepoch.ge

theorem step_follows (codec : Codec) (w : World) (label : Label) :
    Follows w.db (step codec w label).db := by
  have hacted := step_acted codec w label
  generalize (step codec w label).db = db at hacted
  cases hacted with
  | observed _ now store documentEpochs h hepochs =>
    exact .of_epochs rfl rfl (fun x epoch hx => ⟨epoch,hepochs x epoch hx,Nat.le_refl _⟩)
  | queued => exact Quiet.follows ⟨rfl,rfl,rfl⟩
  | versioned i actor name id now h =>
    obtain ⟨_,_,rfl,_⟩ := createManualVersion_ok h
    exact Quiet.follows ⟨rfl,rfl,rfl⟩
  | restored i restoration now hc h =>
    obtain ⟨_,_,⟨mid,hrestorative,hdb⟩,_⟩ := applyRestoration_allowed h
    rw [hdb]
    refine .of_epochs hrestorative.updates.1 hrestorative.updates.2 ?_
    intro y epoch hy
    dsimp only
    rw [hrestorative.epochs,Table.get?_modify,hy]
    split
    · exact ⟨epoch + 1,rfl,Nat.le_succ _⟩
    · exact ⟨epoch,rfl,Nat.le_refl _⟩
  | served request now h =>
    cases h with
    | refused | ruled | policed | asked | rejected => exact Quiet.follows ⟨rfl,rfl,rfl⟩
    | founded _ x actor role hopens hrole hsigned hlawful hhoused hqueue hrequests hquiet =>
      exact Quiet.follows hquiet
    | edited _ x actor hactor hsigned =>
      obtain ⟨_,_,_,hquiet⟩ := hsigned
      exact Quiet.follows hquiet
    | flushed x fileId documentEpoch inputs blobHash sizeBytes hflushed =>
      exact hflushed.follows.trans (Quiet.follows ⟨rfl,rfl,rfl⟩)

/-- Whatever happens between two points of a run, the updates of the later one follow. -/
theorem updates_follow (codec : Codec) (w : World) (labels : List Label) :
    Follows w.db (run (step codec) w labels).db :=
  run_relates (fun w w' : World => Follows w.db w'.db) (fun _ => Quiet.follows ⟨rfl,rfl,rfl⟩)
    Follows.trans (fun w label => step_follows codec w label) w labels

end LatexCore.Papers
