import LatexCore.Builds.SingleFlight

/-! # Reuse of exact states

The scheduler identifies a build by its workspace and its state hash, the queue
identifies work by the compile inputs. A run whose requests give one state of a
workspace always the same inputs reuses builds of exactly the requested inputs,
and any two requests that do not can be mixed up.
-/
namespace LatexCore.Builds
open Core Foundation Queue
variable {limits : QueueLimits} {db db' : Db} {op : QueueOp}

/-- A submission that is answered with a reused build gets one whose job has the requested
compile key and the requested inputs of that key. -/
def ReuseExact (db : Db) : QueueOp → Prop
  | .submitV2Build request facts rank fresh clock => ∀ db' answer,
    submitV2Build db request facts rank fresh clock = .ok (db',answer) → answer.reused = true →
      ∃ b row j, answer.buildId = some b ∧ db.builds.get? b = some row ∧
        db.jobs.get? row.compileJobId = some j ∧ j.inputs = request.inputs
  | _ => True

/-- Every submission of the calls is one of the requests. -/
def SubmitsOnly (requests : Set V2BuildRequest) (ops : List QueueOp) : Prop :=
  ∀ op ∈ ops, ∀ request facts rank fresh clock,
    op = .submitV2Build request facts rank fresh clock → request ∈ requests

def Determined (requests : Set V2BuildRequest) : Prop :=
  ∀ r ∈ requests, ∀ r' ∈ requests, r.workspaceId = r'.workspaceId → r.stateHash = r'.stateHash →
    r.inputs = r'.inputs

structure StemsFrom (requests : Set V2BuildRequest) (db : Db) : Prop where
  builds : ∀ b row, db.builds.get? b = some row → ∃ r ∈ requests, ∃ j,
    r.workspaceId = row.workspaceId ∧ r.stateHash = row.stateHash ∧ db.jobs.get? b = some j ∧
      j.inputs = r.inputs
  pending : ∀ w p, pendingOf db w = some p → ∃ r ∈ requests, r.workspaceId = w ∧ p = r.pending

theorem stemsFrom_empty (requests : Set V2BuildRequest) : StemsFrom requests .empty :=
  ⟨fun _ _ hb => (by cases hb),fun _ _ hp => (by cases hp)⟩

theorem step_inputs (limits : QueueLimits) (op : QueueOp) {k : JobId} {j : Job}
    (hj : db.jobs.get? k = some j) :
    ∃ j', (step limits db op).jobs.get? k = some j' ∧ j'.inputs = j.inputs := by
  rcases (step_stepped limits db op).rows with hrows | ⟨id,q,worker,leaseMillis,now,hq,-,-,-,hclaim⟩
  · obtain ⟨j',hj',-,hinputs⟩ := (hj ▸ hrows k).origin
    exact ⟨j',hj',hinputs⟩
  · rw [hclaim,claimRow,Table.get?_modify,hj]
    split
    · exact ⟨_,rfl,rfl⟩
    · exact ⟨j,rfl,rfl⟩

theorem stemsFrom_step {requests : Set V2BuildRequest} (h : StemsFrom requests db)
    (hop : ∀ request facts rank fresh clock,
      op = .submitV2Build request facts rank fresh clock → request ∈ requests) :
    StemsFrom requests (step limits db op) := by
  have hdescends := step_descends limits db op
  have hsource : ∀ w p, Sources db op w p → ∃ r ∈ requests, r.workspaceId = w ∧ p = r.pending := by
    rintro w p (hp | ⟨request,facts,rank,fresh,clock,-,hsubmit,-,hw,hp⟩)
    · exact h.pending w p hp
    · exact ⟨request,hop request facts rank fresh clock hsubmit,hw.symm,hp⟩
  refine ⟨?_,fun w p hp => hsource w p (hdescends.pending w p hp)⟩
  intro b row' hrow'
  rcases hdescends.builds b row' hrow' with ⟨row,hrow,hw,hh⟩ | ⟨source,now,hs,hh,hjob⟩
  · obtain ⟨r,hr,j,hrw,hrh,hj,hinputs⟩ := h.builds b row hrow
    obtain ⟨j',hj',hsame⟩ := step_inputs limits op hj
    exact ⟨r,hr,j',hrw.trans hw,hrh.trans hh,hj',hsame.trans hinputs⟩
  · obtain ⟨r,hr,hrw,rfl⟩ := hsource _ _ hs
    exact ⟨r,hr,_,hrw,hh.symm,hjob,rfl⟩

theorem StemsFrom.reuseExact {requests : Set V2BuildRequest} (hc : Consistent db)
    (h : StemsFrom requests db) (hd : Determined requests)
    (hop : ∀ request facts rank fresh clock,
      op = .submitV2Build request facts rank fresh clock → request ∈ requests) : ReuseExact db op := by
  cases op with
  | submitV2Build request facts rank fresh clock =>
    intro last answer hsubmit hreused
    have hmem := hop request facts rank fresh clock rfl
    obtain ⟨mid,ha,hs⟩ := submitV2Build_ok hsubmit
    obtain ⟨hcm,hview,-⟩ := admitted_refines hc ha
    obtain ⟨schedulers,rfl,-,-⟩ := admitSubmission_ok ha
    have hexact : ∀ b row, db.builds.get? b = some row → row.workspaceId = request.workspaceId →
        row.stateHash = request.stateHash →
        ∃ j, db.jobs.get? row.compileJobId = some j ∧ j.inputs = request.inputs := by
      intro b row hrow hw hh
      obtain ⟨r,hr,j,hrw,hrh,hj,hinputs⟩ := h.builds b row hrow
      refine ⟨j,by rw [hc.keyed b row hrow]; exact hj,hinputs.trans ?_⟩
      exact hd r hr request hmem (hrw.trans hw) (hrh.trans hh)
    cases hs with
    | reused id row hreuse =>
      obtain ⟨hrow,hmatch⟩ := Table.best_mem hreuse
      simp only [reusable,Bool.and_eq_true,beq_iff_eq] at hmatch
      obtain ⟨j,hj,hinputs⟩ := hexact id row hrow hmatch.1.1.1.1.1 hmatch.1.1.1.1.2
      exact ⟨id,row,j,rfl,hrow,hj,hinputs⟩
    | joined id row j hnone hactive hh =>
      have hcases := activeBuild_eq hcm request.workspaceId
      rw [hactive] at hcases
      obtain ⟨s,hs,hb⟩ := Option.bind_eq_some_iff.mp hcases.1
      obtain ⟨row',hrow',hw⟩ := hcm.active _ s id hs hb
      rw [hcases.2] at hrow'
      cases hrow'
      obtain ⟨j',hj',hinputs⟩ := hexact id row hcases.2 hw hh
      exact ⟨id,row,j',rfl,hcases.2,hj',hinputs⟩
    | parked id row j hnone hactive hh => cases hreused
    | started _ hnone hactive hstart => cases hreused
  | enqueue | claim | renewLease | requestCancellation | recoverExpiredLeases | completeSuccess |
    completeCachedSuccess | completeCompileFailure | completeInfrastructureFailure | evictCache =>
    trivial

/-- A request that passes every check of a submission into an empty database. -/
structure Submittable (r : V2BuildRequest) : Prop where
  valid : validateBuildRequest r = .ok ()
  sequence : r.sourceSequence ≤ i64Max
  epoch : 1 ≤ r.documentEpoch ∧ r.documentEpoch ≤ i64Max
  manifest : r.manifest.isObject = true

def grantedFacts : SubmitFacts := ⟨some "active",true⟩

theorem Submittable.admitted {r : V2BuildRequest} (h : Submittable r)
    (hpaper : ∀ s, db.schedulers.get? r.workspaceId = some s → s.paperId = r.paperId) :
    ∃ mid, admitSubmission db r grantedFacts = .ok mid := by
  have haccess : requireBuildAccess grantedFacts = .ok () := rfl
  have hsequence : toI64 r.sourceSequence "source sequence" = .ok () := by
    simp [toI64,h.sequence]
  cases hs : db.schedulers.get? r.workspaceId with
  | none =>
    obtain ⟨t,ht⟩ := Table.insert?_isSome hs (Scheduler.new r.paperId)
    have hget := Table.get?_insert? ht r.workspaceId
    have hlock : lockScheduler db r.paperId r.workspaceId = .ok { db with schedulers := t } := by
      simp only [lockScheduler,ht,Option.getD_some,hget,if_true,bind_ok,require_ok,ensure_ok,pure_ok]
      exact ⟨_,rfl,(),by simp [Scheduler.new],trivial⟩
    exact ⟨_,by simp only [admitSubmission,h.valid,haccess,hlock,hsequence,bind,Except.bind]; rfl⟩
  | some s =>
    have hfull : db.schedulers.insert? r.workspaceId (.new r.paperId) = none := by
      cases hi : db.schedulers.insert? r.workspaceId (.new r.paperId) with
      | none => rfl
      | some t => simp [(Table.insert?_eq_some hi).1] at hs
    have hlock : lockScheduler db r.paperId r.workspaceId = .ok db := by
      simp only [lockScheduler,hfull,Option.getD_none,hs,bind_ok,require_ok,ensure_ok,pure_ok]
      exact ⟨s,rfl,(),by simp [hpaper s hs],trivial⟩
    exact ⟨_,by simp only [admitSubmission,h.valid,haccess,hlock,hsequence,bind,Except.bind]; rfl⟩

theorem freshFor_empty (fresh : FreshIds) : FreshFor .empty fresh := by
  constructor <;> simp [Db.empty]

theorem second_joins_first (limits : QueueLimits) {r r' : V2BuildRequest} (hr : Submittable r) (hr' : Submittable r')
    (hw : r.workspaceId = r'.workspaceId) (hp : r.paperId = r'.paperId)
    (hh : r.stateHash = r'.stateHash) (fresh : FreshIds) (rank : Uuid → ℕ) (clock : Clock) :
    ∃ first last status, step limits .empty (.submitV2Build r grantedFacts rank fresh clock) = first ∧
      submitV2Build first r' grantedFacts rank fresh clock =
        .ok (last,⟨some fresh.build,some fresh.build,r'.stateHash,status,true⟩) ∧
      ∀ b row j, first.builds.get? b = some row → first.jobs.get? row.compileJobId = some j →
        j.inputs = r.inputs := by
  have hempty : Consistent .empty := unscheduled_empty.consistent
  have hadmissible : Admissible .empty r grantedFacts fresh :=
    ⟨hr.admitted (fun s hs => by cases hs),rfl,hr.epoch,hr.manifest,freshFor_empty fresh⟩
  obtain ⟨mid,first,hmid,he,hsubmit⟩ := submit_into_idle hempty hadmissible rfl
    (fun b row hb => by cases hb) rank clock
  obtain ⟨schedulers,rfl,hself,-⟩ := admitSubmission_ok hmid
  have hstep : step limits .empty (.submitV2Build r grantedFacts rank fresh clock) =
      setActiveBuild first r.workspaceId fresh.build := by
    rw [step]
    exact commit_ok hsubmit
  have hbuild : ∀ b row, first.builds.get? b = some row →
      row = snapshotBuild r.workspaceId r.paperId r.pending fresh clock.started := by
    intro b row hrow
    rw [he.builds b] at hrow
    split at hrow
    · exact (Option.some.inj hrow).symm
    · cases hrow
  have hconsistent := consistent_step limits hempty (.submitV2Build r grantedFacts rank fresh clock)
  rw [hstep] at hconsistent
  have hpaper : ∀ s, (setActiveBuild first r.workspaceId fresh.build).schedulers.get? r'.workspaceId =
      some s → s.paperId = r'.paperId := by
    intro s hs
    rw [← hw,setActiveBuild,Table.get?_modify_self,he.schedulers,hself,Option.map_some,
      Option.some.injEq] at hs
    exact hs ▸ hp
  obtain ⟨mid',hmid'⟩ := hr'.admitted hpaper
  obtain ⟨hcm,hview,-⟩ := admitted_refines hconsistent hmid'
  have hactive : activeOf mid' r'.workspaceId = some fresh.build := by
    refine (congrArg Flight.active (hview r'.workspaceId)).trans ?_
    simp [flight,activeOf,setActiveBuild,← hw,he.schedulers,hself]
  obtain ⟨schedulers',rfl,-,-⟩ := admitSubmission_ok hmid'
  have hreuse : reusableBuild { setActiveBuild first r.workspaceId fresh.build with
      schedulers := schedulers' } r'.workspaceId r'.stateHash rank = none := by
    cases hbest : reusableBuild { setActiveBuild first r.workspaceId fresh.build with
      schedulers := schedulers' } r'.workspaceId r'.stateHash rank with
    | none => rfl
    | some found =>
      obtain ⟨hrow,hmatch⟩ := Table.best_mem hbest
      simp [reusable,hbuild _ _ hrow,snapshotBuild] at hmatch
  have hcases := activeBuild_eq hcm r'.workspaceId
  cases hjoin : activeBuild { setActiveBuild first r.workspaceId fresh.build with
    schedulers := schedulers' } r'.workspaceId with
  | none =>
    rw [hjoin,hactive] at hcases
    cases hcases
  | some found =>
    obtain ⟨id,row,j⟩ := found
    rw [hjoin,hactive] at hcases
    obtain ⟨hid,hrow⟩ := hcases
    cases hid
    have hhash : row.stateHash = r'.stateHash := by rw [hbuild _ _ hrow]; exact hh
    refine ⟨_,clearPending { setActiveBuild first r.workspaceId fresh.build with
      schedulers := schedulers' } r'.workspaceId,j.state.text,hstep,?_,?_⟩
    · simp only [submitV2Build,bind_ok]
      refine ⟨_,hmid',?_⟩
      rw [hreuse]
      dsimp only
      rw [hjoin]
      dsimp only
      rw [if_pos hhash]
      rfl
    · intro b row' j' hrow' hj'
      have hj' : first.jobs.get? row'.compileJobId = some j' := hj'
      have hkey : (snapshotBuild r.workspaceId r.paperId r.pending fresh clock.started).compileJobId =
          fresh.build := rfl
      rw [hbuild b row' hrow',he.jobs,if_pos hkey] at hj'
      cases hj'
      rfl

/-- Requests that determine their inputs are always answered by exact builds, and two requests
of one state of a paper with different inputs are not. -/
theorem reuse_exactness (limits : QueueLimits) (requests : Set V2BuildRequest) :
    (Determined requests → ∀ ops, SubmitsOnly requests ops →
      Along (step limits) ReuseExact .empty ops) ∧
    ((∀ ops, SubmitsOnly requests ops → Along (step limits) ReuseExact .empty ops) →
      ∀ r ∈ requests, ∀ r' ∈ requests, Submittable r → Submittable r' → r.paperId = r'.paperId →
        r.workspaceId = r'.workspaceId → r.stateHash = r'.stateHash → r.inputs = r'.inputs) := by
  constructor
  · intro hd ops hops
    have hguard : Along (step limits) (fun _ op => ∀ request facts rank fresh clock,
        op = .submitV2Build request facts rank fresh clock → request ∈ requests) .empty ops :=
      along_of_forall (fun _ op hop => hops op hop) _
    refine hguard.of_invariant (fun db => Consistent db ∧ StemsFrom requests db) ?_ ?_ ?_
    · rintro db op ⟨hc,hs⟩ hop
      exact ⟨consistent_step limits hc op,stemsFrom_step hs hop⟩
    · rintro db op ⟨hc,hs⟩ hop
      exact hs.reuseExact hc hd hop
    · exact ⟨unscheduled_empty.consistent,stemsFrom_empty requests⟩
  · intro h r hr r' hr' hs hs' hp hw hh
    obtain ⟨first,last,status,hstep,hsubmit,hinputs⟩ := second_joins_first limits hs hs' hw hp hh
      ⟨1,2⟩ id ⟨0,0,0⟩
    have hrun := h [.submitV2Build r grantedFacts id ⟨1,2⟩ ⟨0,0,0⟩,
      .submitV2Build r' grantedFacts id ⟨1,2⟩ ⟨0,0,0⟩] (by
        intro op hop request facts rank fresh clock heq
        subst heq
        rcases List.mem_cons.mp hop with hfirst | hrest
        · cases hfirst
          exact hr
        · cases List.mem_singleton.mp hrest
          exact hr')
    have hexact := hrun.2.1
    rw [hstep] at hexact
    obtain ⟨b,row,j,-,hrow,hj,hsame⟩ := hexact last _ hsubmit rfl
    exact (hinputs b row j hrow hj).symm.trans hsame

/-- One request, submitted before and after its build succeeds, is reused exactly. -/
theorem reuse_exactness_one_request :
    Along (step sampleLimits) ReuseExact .empty
      [sampleSubmit zeroDigest 1 0,.claim 5 [] (sampleClock 1),sampleSuccess 1 5 50 2,
        sampleSubmit zeroDigest 3 3] := by
  refine (reuse_exactness sampleLimits {sampleRequest zeroDigest}).1 ?_ _ ?_
  · rintro r rfl r' rfl - -
    rfl
  · simp only [SubmitsOnly,sampleSubmit,sampleSuccess]
    intro op hop request facts rank fresh clock heq
    subst heq
    simp only [List.mem_cons,QueueOp.submitV2Build.injEq,reduceCtorEq,List.not_mem_nil,or_false,
      false_or] at hop
    rcases hop with ⟨rfl,-⟩ | ⟨rfl,-⟩ <;> rfl

def relabelledRequest : V2BuildRequest :=
  { sampleRequest zeroDigest with
    inputs := { sampleInputs zeroDigest with engine := .luaLatex, compileKey := oneDigest } }

/-- A request for another engine is answered with the PDF that the first engine made. -/
theorem reuse_ignores_settings : ¬∀ (limits : QueueLimits) (ops : List QueueOp),
    Along (step limits) ReuseExact .empty ops := by
  intro h
  have hrun := h sampleLimits
    [sampleSubmit zeroDigest 1 0,.claim 5 [] (sampleClock 1),sampleSuccess 1 5 50 2,
      .submitV2Build relabelledRequest grantedFacts id ⟨2,102⟩ (sampleClock 3)]
  obtain ⟨b,row,j,hanswer,hrow,hj,hsame⟩ := hrun.2.2.2.1 _ ⟨some 1,none,zeroDigest.toHex,"succeeded",true⟩
    rfl rfl
  cases hanswer
  have hkey : ((step sampleLimits (step sampleLimits (step sampleLimits .empty
      (sampleSubmit zeroDigest 1 0)) (.claim 5 [] (sampleClock 1))) (sampleSuccess 1 5 50 2)).builds.get?
      1).bind (fun row => ((step sampleLimits (step sampleLimits (step sampleLimits .empty
      (sampleSubmit zeroDigest 1 0)) (.claim 5 [] (sampleClock 1))) (sampleSuccess 1 5 50 2)).jobs.get?
      row.compileJobId).map (fun j => j.inputs.engine)) = some .pdfLatex := by decide
  rw [hrow,Option.bind_some,hj,Option.map_some,hsame] at hkey
  cases hkey

end LatexCore.Builds
