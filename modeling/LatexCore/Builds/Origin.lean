import LatexCore.Builds.Simulation

/-! # Where builds come from

Every build and every pending state of a workspace stems from an admitted
submission for that workspace: a call keeps the workspace and the state of an
old build, and a new one is enqueued from the pending state or from the request
of the call itself.
-/
namespace LatexCore.Builds
open Core Foundation Queue
variable {limits : QueueLimits} {db db' : Db} {op : QueueOp}

def KeptBuild (db : Db) (b : Uuid) (row' : Build) : Prop :=
  ∃ row, db.builds.get? b = some row ∧ row.workspaceId = row'.workspaceId ∧
    row.stateHash = row'.stateHash

def CreatedBuild (sources : WorkspaceId → PendingBuild → Prop) (db' : Db) (b : Uuid) (row' : Build) :
    Prop :=
  ∃ source now, sources row'.workspaceId source ∧ row'.stateHash = source.stateHash ∧
    db'.jobs.get? b = some (snapshotJob row'.workspaceId source b now)

structure Descends (sources : WorkspaceId → PendingBuild → Prop) (db db' : Db) : Prop where
  builds : ∀ b row', db'.builds.get? b = some row' →
    KeptBuild db b row' ∨ CreatedBuild sources db' b row'
  pending : ∀ w p, pendingOf db' w = some p → sources w p

/-- The sources of a finalization. -/
abbrev Pendings (db : Db) (w : WorkspaceId) (p : PendingBuild) : Prop := pendingOf db w = some p

theorem Descends.refl (db : Db) : Descends (Pendings db) db db :=
  ⟨fun _ row' h => Or.inl ⟨row',h,rfl,rfl⟩,fun _ _ h => h⟩

theorem Descends.trans {sources : WorkspaceId → PendingBuild → Prop} {a b c : Db}
    (hab : Descends sources a b) (hbc : Descends (Pendings b) b c) (hext : JobsExtend b c) :
    Descends sources a c := by
  refine ⟨?_,fun w p h => hab.pending w p (hbc.pending w p h)⟩
  intro k row' hrow'
  rcases hbc.builds k row' hrow' with ⟨row,hrow,hw,hh⟩ | ⟨source,now,hsource,hhash,hjob⟩
  · rcases hab.builds k row hrow with ⟨row₀,hrow₀,hw₀,hh₀⟩ | ⟨source,now,hsource,hhash,hjob⟩
    · exact Or.inl ⟨row₀,hrow₀,hw₀.trans hw,hh₀.trans hh⟩
    · rw [hw] at hsource hjob
      exact Or.inr ⟨source,now,hsource,hh ▸ hhash,hext.kept hjob⟩
  · exact Or.inr ⟨source,now,hab.pending _ _ hsource,hhash,hjob⟩

theorem Descends.mono {sources more : WorkspaceId → PendingBuild → Prop}
    (h : Descends sources db db') (hm : ∀ w p, sources w p → more w p) : Descends more db db' := by
  refine ⟨?_,fun w p hp => hm w p (h.pending w p hp)⟩
  intro b row' hrow'
  refine (h.builds b row' hrow').imp_right ?_
  rintro ⟨source,now,hsource,hrest⟩
  exact ⟨source,now,hm _ _ hsource,hrest⟩

theorem Enqueued.descends {w : WorkspaceId} {paper : Uuid} {source : PendingBuild} {fresh : FreshIds}
    {now : Timestamp} (he : Enqueued w paper source fresh now db db') {b : Uuid} {row' : Build}
    (hrow' : db'.builds.get? b = some row') :
    db.builds.get? b = some row' ∨ (row'.workspaceId = w ∧ row'.stateHash = source.stateHash ∧
      db'.jobs.get? b = some (snapshotJob w source b now)) := by
  rw [he.builds b] at hrow'
  split at hrow'
  · next hb =>
    cases hrow'
    exact Or.inr ⟨rfl,rfl,by rw [he.jobs b,if_pos hb,hb]⟩
  · exact Or.inl hrow'

theorem pendingOf_setActive {w v : WorkspaceId} {next : Option Uuid} {p : PendingBuild}
    (h : pendingOf (setActive db w next) v = some p) : pendingOf db v = some p := by
  obtain ⟨s',hs',hp⟩ := Option.bind_eq_some_iff.mp h
  by_cases hv : v = w
  · subst hv
    rw [setActive,Table.get?_modify_self] at hs'
    obtain ⟨s,-,rfl⟩ := Option.map_eq_some_iff.mp hs'
    cases hp
  · rw [setActive,Table.get?_modify_of_ne _ hv] at hs'
    exact Option.bind_eq_some_iff.mpr ⟨s',hs',hp⟩

theorem pendingOf_settleBuild (db : Db) (id : Uuid) (build : Build) (s : Scheduler) (ok : Bool)
    (now : Timestamp) (v : WorkspaceId) :
    pendingOf (settleBuild db id build s ok now) v = pendingOf db v := by
  simp only [pendingOf,settleBuild_schedulers]
  cases db.schedulers.get? v with
  | none => rfl
  | some row =>
    simp only [Option.map_some,Option.bind_some]
    split <;> rfl

theorem finalize_descends {job : JobId} {ok : Bool} {fresh : FreshIds} {clock : Clock}
    (h : finalizeV2Build db job ok fresh clock = .ok db') : Descends (Pendings db) db db' := by
  rcases finalizeV2Build_ok h with ⟨-,rfl⟩ | ⟨id,build,s,hsome,hs,ha⟩
  · exact .refl _
  · obtain ⟨hb,-⟩ := buildOf_some hsome
    obtain ⟨promotedAt,hget⟩ := get?_settleBuild hb s ok clock.finished
    have hkept : ∀ b row', (settleBuild db id build s ok clock.finished).builds.get? b = some row' →
        KeptBuild db b row' := by
      intro b row' hrow'
      rw [hget b] at hrow'
      split at hrow'
      · next hk =>
        cases hrow'
        exact ⟨build,hk ▸ hb,rfl,rfl⟩
      · exact ⟨row',hrow',rfl,rfl⟩
    rcases activatePending_ok ha with ⟨-,rfl⟩ | ⟨source,mid,hp,he,rfl⟩
    · refine ⟨fun b row' hrow' => Or.inl (hkept b row' hrow'),fun w p hw => ?_⟩
      have hpending := pendingOf_setActive hw
      rwa [pendingOf_settleBuild] at hpending
    · have hpending : pendingOf mid = pendingOf (settleBuild db id build s ok clock.finished) := by
        funext v
        simp [pendingOf,he.schedulers]
      refine ⟨?_,fun w p hw => ?_⟩
      · intro b row' hrow'
        rcases Enqueued.descends he hrow' with hold | ⟨hw,hh,hjob⟩
        · exact Or.inl (hkept b row' hold)
        · exact Or.inr ⟨source,clock.started,by simp [Pendings,hw,pendingOf,hs,hp],hh,hw ▸ hjob⟩
      · have hw := pendingOf_setActive hw
        rwa [hpending,pendingOf_settleBuild] at hw

theorem finalizeFailed_descends {fresh : JobId → FreshIds} {clock : Clock} {todo : List JobId}
    (h : finalizeFailed fresh clock todo db = .ok db') : Descends (Pendings db) db db' := by
  induction todo generalizing db with
  | nil =>
    cases h
    exact .refl _
  | cons job rest ih =>
    simp only [finalizeFailed,bind_ok] at h
    obtain ⟨mid,hm,h⟩ := h
    exact (finalize_descends hm).trans (ih h) (finalizeFailed_extend h).1

/-- What a call may enqueue for a workspace: its pending state, or the state that the call
itself submits. -/
def Sources (db : Db) (op : QueueOp) (w : WorkspaceId) (p : PendingBuild) : Prop :=
  pendingOf db w = some p ∨ ∃ request facts rank fresh clock mid,
    op = .submitV2Build request facts rank fresh clock ∧
      admitSubmission db request facts = .ok mid ∧ w = request.workspaceId ∧ p = request.pending

theorem submitted_descends {request : V2BuildRequest} {facts : SubmitFacts} {rank : Uuid → ℕ}
    {fresh : FreshIds} {clock : Clock} {answer : V2BuildSubmission}
    (hd : Submitted request facts rank fresh clock db db' answer) :
    Descends (fun w p => pendingOf db w = some p ∨ w = request.workspaceId ∧ p = request.pending)
      db db' := by
  have hpending : ∀ (f : Scheduler → Scheduler) {v p} {t : Table WorkspaceId Scheduler}
      (ht : t = db.schedulers) (hf : ∀ s, (f s).pending = s.pending ∨ (f s).pending = none ∨
        (f s).pending = some request.pending),
      ((t.modify request.workspaceId f).get? v).bind Scheduler.pending = some p →
      pendingOf db v = some p ∨ v = request.workspaceId ∧ p = request.pending := by
    rintro f v p t rfl hf hp
    obtain ⟨s',hs',hp⟩ := Option.bind_eq_some_iff.mp hp
    by_cases hv : v = request.workspaceId
    · subst hv
      rw [Table.get?_modify_self] at hs'
      obtain ⟨s,hs,rfl⟩ := Option.map_eq_some_iff.mp hs'
      rcases hf s with he | he | he
      · exact Or.inl (Option.bind_eq_some_iff.mpr ⟨s,hs,he ▸ hp⟩)
      · rw [he] at hp
        cases hp
      · rw [he,Option.some.injEq] at hp
        exact Or.inr ⟨rfl,hp.symm⟩
    · rw [Table.get?_modify_of_ne _ hv] at hs'
      exact Or.inl (Option.bind_eq_some_iff.mpr ⟨s',hs',hp⟩)
  cases hd with
  | reused id row hreuse =>
    refine ⟨?_,fun w p hp => hpending _ rfl (fun _ => Or.inr (Or.inl rfl)) hp⟩
    intro b row' hrow'
    simp only [clearPendingAndPromote,Table.get?_modify] at hrow'
    split at hrow'
    · obtain ⟨row₀,hrow₀,rfl⟩ := Option.map_eq_some_iff.mp hrow'
      exact Or.inl ⟨row₀,hrow₀,rfl,rfl⟩
    · exact Or.inl ⟨row',hrow',rfl,rfl⟩
  | joined id row j hnone ha hb =>
    exact ⟨fun b row' hrow' => Or.inl ⟨row',hrow',rfl,rfl⟩,
      fun w p hp => hpending _ rfl (fun _ => Or.inr (Or.inl rfl)) hp⟩
  | parked id row j hnone ha hb =>
    exact ⟨fun b row' hrow' => Or.inl ⟨row',hrow',rfl,rfl⟩,
      fun w p hp => hpending _ rfl (fun _ => Or.inr (Or.inr rfl)) hp⟩
  | started _ hnone ha hstart =>
    obtain ⟨mid,he,rfl⟩ := startBuild_ok hstart
    refine ⟨?_,fun w p hp => hpending
      (fun s => { s with activeBuildId := some fresh.build }) he.schedulers (fun _ => Or.inl rfl) hp⟩
    intro b row' hrow'
    rcases Enqueued.descends he hrow' with hold | ⟨hw,hh,hjob⟩
    · exact Or.inl ⟨row',hold,rfl,rfl⟩
    · exact Or.inr ⟨request.pending,clock.started,Or.inr ⟨hw,rfl⟩,hh,hw ▸ hjob⟩

/-- Every build and pending state after a call stems from what the call may enqueue. -/
theorem step_descends (limits : QueueLimits) (db : Db) (op : QueueOp) :
    Descends (Sources db op) db (step limits db op) := by
  have hsame : ∀ {last : Db}, last.builds = db.builds → last.schedulers = db.schedulers →
      Descends (Sources db op) db last := by
    intro last hb hs
    refine ⟨fun b row' hrow' => Or.inl ⟨row',hb ▸ hrow',rfl,rfl⟩,fun w p hp => Or.inl ?_⟩
    simpa [pendingOf,hs] using hp
  have hstep := step_stepped limits db op
  generalize step limits db op = last at hstep
  cases hstep with
  | idle => exact hsame rfl rfl
  | enqueued j hnew jobs hi => exact hsame rfl rfl
  | claimed id j hj hq leaseMillis hglobal huser =>
    refine ⟨?_,fun w p hp => Or.inl hp⟩
    intro b row' hrow'
    simp only [claimRow,Table.get?_updateWhere] at hrow'
    obtain ⟨row,hrow,rfl⟩ := Option.map_eq_some_iff.mp hrow'
    refine Or.inl ⟨row,hrow,?_⟩
    split <;> exact ⟨rfl,rfl⟩
  | renewed j hj hheld leaseMillis => exact hsame rfl rfl
  | cancellationRequested j hj ho hr => exact hsame rfl rfl
  | @recovered rank fresh clock hmax todo htodo _ hf =>
    have hd := (finalizeFailed_descends hf).mono
      (fun w p hp => (Or.inl hp : Sources db (.recoverExpiredLeases rank fresh clock) w p))
    exact ⟨hd.builds,hd.pending⟩
  | completed job worker fresh clock hop _ hd =>
    cases hd with
    | cancelled j hj hc hheld hstill => exact hsame rfl rfl
    | requeued j hj hc hheld ha error => exact hsame rfl rfl
    | settled j hj hc hheld state hs errorClass error cacheSource artifacts rows hrows cache _ hf =>
      have hd := (finalize_descends hf).mono (fun w p hp => (Or.inl hp : Sources db op w p))
      exact ⟨hd.builds,hd.pending⟩
  | evicted cache => exact hsame rfl rfl
  | @submitted request facts rank fresh clock mid ha _ answer hd =>
    obtain ⟨schedulers,rfl,hself,hother⟩ := admitSubmission_ok ha
    have hslot : ∀ v, pendingOf { db with schedulers } v = pendingOf db v := by
      intro v
      by_cases hv : v = request.workspaceId
      · subst hv
        cases hs : db.schedulers.get? request.workspaceId <;>
          simp [pendingOf,hself,hs,Scheduler.new]
      · simp [pendingOf,hother v hv]
    have hm : ∀ w p, (pendingOf { db with schedulers } w = some p ∨
        w = request.workspaceId ∧ p = request.pending) →
        Sources db (.submitV2Build request facts rank fresh clock) w p := by
      rintro w p (hp | ⟨hw,hp⟩)
      · exact Or.inl (hslot w ▸ hp)
      · exact Or.inr ⟨request,facts,rank,fresh,clock,_,rfl,ha,hw,hp⟩
    have hd := (submitted_descends hd).mono hm
    exact ⟨hd.builds,hd.pending⟩

end LatexCore.Builds
