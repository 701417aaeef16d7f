import LatexCore.Mail.Deliveries

/-! # The loop of a mail worker

Runs of `run_mail_worker` on one outbox, with anything else happening to the
outbox between their statements. A claim commits its rows before it decodes
them, and an error ends the loop: a row that does not decode takes the rest of
its batch with it. Without such rows every claimed delivery is reported by the
worker that claimed it.
-/
namespace LatexCore.Mail
open Core Foundation

/-- Where a run of `run_mail_worker` stands. -/
inductive WorkerLoop
  | starting | checking | claiming
  | delivering (batch : List ClaimedCredentialEmail)
  | reporting (delivery : ClaimedCredentialEmail) (result : Except MailFailure Unit)
      (batch : List ClaimedCredentialEmail)
  | stopped (result : Except MailOutboxError Unit)

/-- The workers on an outbox, with the decodable rows that the claims of each have moved to `SENDING`
and those that it has reported. -/
structure Fleet where
  db : Db
  loops : ℕ → WorkerLoop
  moved : ℕ → List Uuid
  settled : ℕ → List Uuid

/-- A step of a worker with what it reads from outside, a worker that is started again, or any change of
the outbox by others. -/
inductive FleetLabel
  | step (worker : ℕ) (shutdown : Bool) (locked : List Uuid) (result : Except MailFailure Unit)
  | restart (worker : ℕ)
  | outside (db : Db)

variable (config : MailOutboxConfig) (maxAttempts : ℕ) (batchSize : ℤ)

def decodable (outbox : Table Uuid EmailRow) (id : Uuid) : Bool :=
  (outbox.get? id).any (fun row => (decodeClaim config id row).isOk)

def Fleet.setLoop (f : Fleet) (worker : ℕ) (loop : WorkerLoop) : Fleet :=
  { f with loops := Function.update f.loops worker loop }

def afterClaim : Except MailOutboxError (List ClaimedCredentialEmail) → WorkerLoop
  | .error e => .stopped (.error e)
  | .ok [] => .checking
  | .ok (delivery :: batch) => .delivering (delivery :: batch)

def Fleet.work (f : Fleet) (worker : ℕ) (shutdown : Bool) (locked : List Uuid)
    (result : Except MailFailure Unit) : Fleet :=
  match f.loops worker with
  | .starting => { f.setLoop worker .checking with db := recoverStaleClaims f.db }
  | .checking =>
    if shutdown then f.setLoop worker (.stopped (.ok ()))
    else { f.setLoop worker .claiming with db := Mail.expire f.db }
  | .claiming =>
    let claim := claimBatch config batchSize locked f.db
    let moved := (candidates batchSize locked f.db).filter (decodable config f.db.outbox)
    { f.setLoop worker (afterClaim claim.2) with
      db := claim.1
      moved := Function.update f.moved worker (f.moved worker ++ moved) }
  | .delivering [] => f.setLoop worker .checking
  | .delivering (delivery :: batch) => f.setLoop worker (.reporting delivery result batch)
  | .reporting delivery result batch =>
    { f.setLoop worker (.delivering batch) with
      db := reportDelivery maxAttempts delivery result f.db
      settled := Function.update f.settled worker (f.settled worker ++ [delivery.id]) }
  | .stopped _ => f

def WorkerLoop.isStopped : WorkerLoop → Bool
  | .stopped _ => true
  | _ => false

def Fleet.step (f : Fleet) : FleetLabel → Fleet
  | .step worker shutdown locked result => f.work config maxAttempts batchSize worker shutdown locked result
  | .restart worker => if (f.loops worker).isStopped then f.setLoop worker .starting else f
  | .outside db => { f with db := db }

def Fleet.start (db : Db) : Fleet := ⟨db,fun _ => .starting,fun _ => [],fun _ => []⟩

def WorkerLoop.hand : WorkerLoop → List Uuid
  | .delivering batch => batch.map ClaimedCredentialEmail.id
  | .reporting delivery _ batch => delivery.id :: batch.map ClaimedCredentialEmail.id
  | _ => []

/-- The steps that a worker takes for them. -/
def WorkerLoop.remaining : WorkerLoop → ℕ
  | .delivering batch => 2 * batch.length
  | .reporting _ _ batch => 2 * batch.length + 1
  | _ => 0

def FleetLabel.isOf (worker : ℕ) : FleetLabel → Bool
  | .step w _ _ _ => w == worker
  | _ => false

structure LoopStep (f : Fleet) (label : FleetLabel) : Prop where
  returned : ∀ worker shutdown locked result, label = .step worker shutdown locked result →
    f.loops worker = .claiming → ∀ id ∈ candidates batchSize locked f.db,
      decodable config f.db.outbox id = true → ∃ claims, (claimBatch config batchSize locked f.db).2 = .ok claims ∧
        id ∈ claims.map ClaimedCredentialEmail.id
  unchanged : ∀ worker shutdown locked result, label = .step worker shutdown locked result →
    f.loops worker = .claiming → ∀ e, (claimBatch config batchSize locked f.db).2 = .error e →
      (claimBatch config batchSize locked f.db).1 = f.db
  reported : ∀ worker shutdown locked result, label = .step worker shutdown locked result →
    ∀ delivery answer batch, f.loops worker = .reporting delivery answer batch → ∀ row,
      (f.step config maxAttempts batchSize label).db.outbox.get? delivery.id = some row → row.status ≠ .sending

/-- No row stops the others: claims are whole or change nothing, no worker ends in an error, and a worker
that has done its steps has reported every decodable row that it moved. -/
structure LoopContract (f : Fleet) (ops : List FleetLabel) : Prop where
  steps : Along (Fleet.step config maxAttempts batchSize) (LoopStep config maxAttempts batchSize) f ops
  running : ∀ pre post, ops = pre ++ post → ∀ worker e,
    (run (Fleet.step config maxAttempts batchSize) f pre).loops worker ≠ .stopped (.error e)
  settled : ∀ pre mid post, ops = pre ++ (mid ++ post) → ∀ worker,
    ((run (Fleet.step config maxAttempts batchSize) f pre).loops worker).remaining ≤
      mid.countP (FleetLabel.isOf worker) →
    ∀ id ∈ (run (Fleet.step config maxAttempts batchSize) f pre).moved worker,
      id ∈ (run (Fleet.step config maxAttempts batchSize) f (pre ++ mid)).settled worker

def Legible (f : Fleet) : FleetLabel → Prop
  | .step worker _ locked _ => f.loops worker = .claiming →
    ∀ id ∈ candidates batchSize locked f.db, decodable config f.db.outbox id = true
  | _ => True

/-! ## Claims -/

variable {config maxAttempts batchSize} {f : Fleet} {label : FleetLabel} {worker : ℕ}

theorem decodeClaim_claim (id : Uuid) (row : EmailRow) (now : Timestamp) :
    (decodeClaim config id (row.claim now)).isOk = (decodeClaim config id row).isOk := by
  unfold decodeClaim EmailRow.claim
  cases row.secret with
  | none => rfl
  | some secret =>
    change (Except.bind (config.cipher.decrypt id row.recipientEmail row.credentialRole secret) _).isOk =
      (Except.bind (config.cipher.decrypt id row.recipientEmail row.credentialRole secret) _).isOk
    cases config.cipher.decrypt id row.recipientEmail row.credentialRole secret <;> rfl

theorem decodeClaims_isOk {outbox : Table Uuid EmailRow} {ids : List Uuid} :
    (decodeClaims config outbox ids).isOk = true ↔ ∀ id ∈ ids, decodable config outbox id = true := by
  induction ids with
  | nil => simp [decodeClaims,Except.isOk,Except.toBool]
  | cons id rest ih =>
    rw [List.forall_mem_cons,← ih,decodeClaims,decodable]
    cases outbox.get? id with
    | none => simp [require,bind,Except.bind,Except.isOk,Except.toBool]
    | some row =>
      rw [Option.any_some]
      change (Except.bind (decodeClaim config id row) _).isOk = true ↔ _
      cases decodeClaim config id row with
      | error e => simp [Except.bind,Except.isOk,Except.toBool]
      | ok claim =>
        change (Except.bind (decodeClaims config outbox rest) _).isOk = true ↔ _
        cases decodeClaims config outbox rest with
        | error e => simp [Except.bind,Except.isOk,Except.toBool]
        | ok claims => simp [Except.bind,Except.isOk,Except.toBool,pure,Except.pure]

/-- A claim succeeds exactly when all its rows decode. -/
theorem claimBatch_isOk {limit : ℤ} {locked : List Uuid} {db : Db} :
    (claimBatch config limit locked db).2.isOk = true ↔
      ∀ id ∈ candidates limit locked db, decodable config db.outbox id = true := by
  rw [claimBatch,decodeClaims_isOk]
  refine forall₂_congr ?_
  intro id hid
  obtain ⟨row,hrow,-⟩ := mem_candidates hid
  have hclaimed : (db.outbox.updateWhere (fun id _ => (candidates limit locked db).contains id)
      (EmailRow.claim db.now)).get? id = some (row.claim db.now) := by
    rw [get?_updated hrow,if_pos (List.contains_iff_mem.mpr hid)]
  rw [decodable,decodable,hclaimed,hrow,Option.any_some,Option.any_some,decodeClaim_claim]

theorem claimBatch_changes {limit : ℤ} {locked : List Uuid} {db : Db} {id : Uuid}
    (hid : id ∈ candidates limit locked db) : (claimBatch config limit locked db).1 ≠ db := by
  intro hsame
  obtain ⟨row,hrow,hdue⟩ := mem_candidates hid
  have hclaimed : (claimBatch config limit locked db).1.outbox.get? id = some (row.claim db.now) := by
    have hget := get?_updated (p := fun id _ => (candidates limit locked db).contains id)
      (f := EmailRow.claim db.now) hrow
    rw [if_pos (List.contains_iff_mem.mpr hid)] at hget
    exact hget
  rw [hsame,hrow,Option.some.injEq] at hclaimed
  have hstatus := congrArg EmailRow.status hclaimed
  simp only [EmailRow.due,Bool.and_eq_true,beq_iff_eq] at hdue
  rw [hdue.1.1.1] at hstatus
  cases hstatus

theorem Legible.claims {shutdown : Bool} {locked : List Uuid} {result : Except MailFailure Unit}
    (h : Legible config batchSize f (.step worker shutdown locked result))
    (hclaiming : f.loops worker = .claiming) : ∃ claims,
      (claimBatch config batchSize locked f.db).2 = .ok claims ∧
        claims.map ClaimedCredentialEmail.id = candidates batchSize locked f.db := by
  have hok := claimBatch_isOk.mpr (h hclaiming)
  cases hclaims : (claimBatch config batchSize locked f.db).2 with
  | error e =>
    rw [hclaims] at hok
    cases hok
  | ok claims => exact ⟨claims,rfl,decodeClaims_ids hclaims⟩

theorem mem_candidates_of_room {limit : ℤ} {locked : List Uuid} {db : Db} {id : Uuid} {row : EmailRow}
    (hroom : db.outbox.rows.length ≤ (max 1 (min 100 limit)).toNat) (hrow : (id,row) ∈ db.outbox.rows)
    (hdue : row.due db.now = true) (hfree : id ∉ locked) : id ∈ candidates limit locked db := by
  have hlength := (List.length_filter_le (fun r : Uuid × EmailRow => r.2.due db.now && !locked.contains r.1)
    db.outbox.rows).trans hroom
  rw [candidates,List.take_of_length_le (by rw [List.length_map,List.length_mergeSort]; exact hlength)]
  refine List.mem_map.mpr ⟨(id,row),List.mem_mergeSort.mpr (List.mem_filter.mpr ⟨hrow,?_⟩),rfl⟩
  simp [hdue,hfree]

/-! ## Steps -/

theorem report_settles {delivery : ClaimedCredentialEmail} {result : Except MailFailure Unit} {db : Db}
    {row' : EmailRow} (h : (reportDelivery maxAttempts delivery result db).outbox.get? delivery.id = some row') :
    row'.status ≠ .sending := by
  have hupdated : ∀ g : EmailRow → EmailRow, (∀ row, (g row).status ≠ .sending) →
      (db.outbox.updateWhere delivery.matches g).get? delivery.id = some row' → row'.status ≠ .sending := by
    intro g hg hget
    cases hold : db.outbox.get? delivery.id with
    | none =>
      rw [Table.get?_updateWhere,hold] at hget
      cases hget
    | some row =>
      rw [get?_updated hold,Option.some.injEq] at hget
      rw [← hget]
      split
      · exact hg row
      · next hmatch =>
        intro hsending
        exact hmatch (by simp [ClaimedCredentialEmail.matches,hsending])
  cases result with
  | ok u => exact hupdated (EmailRow.markSent db.now) (fun row => by simp [EmailRow.markSent]) h
  | error failure =>
    simp only [reportDelivery,Mail.markFailed] at h
    refine hupdated _ (fun row => ?_) (by split at h <;> exact h)
    simp only [EmailRow.markFailed]
    split <;> simp

theorem Legible.loopStep (h : Legible config batchSize f label) :
    LoopStep config maxAttempts batchSize f label := by
  refine ⟨?_,?_,?_⟩
  · rintro worker shutdown locked result rfl hclaiming id hid -
    obtain ⟨claims,hclaims,hids⟩ := h.claims hclaiming
    refine ⟨claims,hclaims,?_⟩
    rw [hids]
    exact hid
  · rintro worker shutdown locked result rfl hclaiming e herror
    obtain ⟨claims,hclaims,-⟩ := h.claims hclaiming
    rw [hclaims] at herror
    cases herror
  · rintro worker shutdown locked result rfl delivery answer batch hreporting row hrow
    rw [Fleet.step,Fleet.work,hreporting] at hrow
    exact report_settles hrow

theorem LoopStep.legible (h : LoopStep config maxAttempts batchSize f label) : Legible config batchSize f label := by
  cases label with
  | restart worker => trivial
  | outside db => trivial
  | step worker shutdown locked result =>
    intro hclaiming
    rw [← claimBatch_isOk]
    cases hclaims : (claimBatch config batchSize locked f.db).2 with
    | ok claims => rfl
    | error e =>
      have hsame := h.unchanged worker shutdown locked result rfl hclaiming e hclaims
      cases hids : candidates batchSize locked f.db with
      | nil =>
        have hok : (claimBatch config batchSize locked f.db).2.isOk = true := by
          rw [claimBatch_isOk,hids]
          simp
        rw [hclaims] at hok
        cases hok
      | cons id rest =>
        refine absurd hsame (@claimBatch_changes config batchSize locked f.db id ?_)
        rw [hids]
        exact List.mem_cons_self ..

/-! ## Runs -/

structure Held (f : Fleet) : Prop where
  running : ∀ worker e, f.loops worker ≠ .stopped (.error e)
  moved : ∀ worker, ∀ id ∈ f.moved worker, id ∈ f.settled worker ∨ id ∈ (f.loops worker).hand

theorem held_start (db : Db) : Held (Fleet.start db) := by
  refine ⟨?_,?_⟩
  · intro worker e h
    cases h
  · intro worker id h
    cases h

theorem Held.setLoop (h : Held f) {loop : WorkerLoop} (hrunning : ∀ e, loop ≠ .stopped (.error e))
    (hhand : ∀ id ∈ (f.loops worker).hand, id ∈ loop.hand) (db : Db) :
    Held { f.setLoop worker loop with db := db } := by
  refine ⟨?_,?_⟩
  · intro w e
    dsimp only [Fleet.setLoop]
    rw [Function.update_apply]
    split
    · exact hrunning e
    · exact h.running w e
  · intro w id hid
    dsimp only [Fleet.setLoop] at hid ⊢
    rw [Function.update_apply]
    split
    · next hw =>
      subst hw
      exact (h.moved w id hid).imp_right (hhand id)
    · exact h.moved w id hid

theorem afterClaim_running (claims : List ClaimedCredentialEmail) (e : MailOutboxError) :
    afterClaim (.ok claims) ≠ .stopped (.error e) := by
  cases claims <;> simp [afterClaim]

theorem hand_afterClaim (claims : List ClaimedCredentialEmail) :
    (afterClaim (.ok claims)).hand = claims.map ClaimedCredentialEmail.id := by
  cases claims <;> rfl

theorem Held.step (h : Held f) (hlegible : Legible config batchSize f label) :
    Held (f.step config maxAttempts batchSize label) := by
  cases label with
  | outside db => exact ⟨h.running,h.moved⟩
  | restart worker =>
    rw [Fleet.step]
    split
    · next hstopped =>
      refine h.setLoop (by simp) ?_ f.db
      intro id hid
      cases hloop : f.loops worker with
      | stopped result =>
        rw [hloop] at hid
        cases hid
      | _ =>
        rw [hloop] at hstopped
        cases hstopped
    · exact h
  | step worker shutdown locked result =>
    rw [Fleet.step,Fleet.work]
    cases hloop : f.loops worker with
    | starting => exact h.setLoop (by simp) (by rw [hloop]; exact fun _ hid => hid) _
    | checking =>
      dsimp only
      split
      · exact h.setLoop (by simp) (by rw [hloop]; exact fun _ hid => hid) f.db
      · exact h.setLoop (by simp) (by rw [hloop]; exact fun _ hid => hid) _
    | stopped answer => exact h
    | delivering batch =>
      cases batch with
      | nil => exact h.setLoop (by simp) (by rw [hloop]; exact fun _ hid => hid) f.db
      | cons delivery batch => exact h.setLoop (by simp) (by rw [hloop]; exact fun _ hid => hid) f.db
    | claiming =>
      obtain ⟨claims,hclaims,hids⟩ := hlegible.claims hloop
      dsimp only
      rw [hclaims]
      refine ⟨?_,?_⟩
      · intro w e
        dsimp only [Fleet.setLoop]
        rw [Function.update_apply]
        split
        · exact afterClaim_running claims e
        · exact h.running w e
      · intro w id hid
        dsimp only [Fleet.setLoop] at hid ⊢
        rw [Function.update_apply] at hid ⊢
        split at hid
        · next hw =>
          subst hw
          rw [if_pos rfl,hand_afterClaim,hids]
          have hbefore := h.moved w
          rw [hloop] at hbefore
          rcases List.mem_append.mp hid with hold | hnew
          · exact Or.inl ((hbefore id hold).resolve_right (List.not_mem_nil))
          · exact Or.inr (List.mem_filter.mp hnew).1
        · next hw =>
          rw [if_neg hw]
          exact h.moved w id hid
    | reporting delivery answer batch =>
      refine ⟨?_,?_⟩
      · intro w e
        dsimp only [Fleet.setLoop]
        rw [Function.update_apply]
        split
        · simp
        · exact h.running w e
      · intro w id hid
        dsimp only [Fleet.setLoop] at hid ⊢
        rw [Function.update_apply,Function.update_apply]
        split
        · next hw =>
          subst hw
          have hbefore := h.moved w id hid
          rw [hloop,WorkerLoop.hand,List.mem_cons] at hbefore
          rw [List.mem_append,List.mem_singleton,or_assoc]
          exact hbefore
        · exact h.moved w id hid

/-- What is reported stays reported. -/
theorem settled_step (config : MailOutboxConfig) (maxAttempts : ℕ) (batchSize : ℤ) (label : FleetLabel)
    {id : Uuid} (h : id ∈ f.settled worker) :
    id ∈ (f.step config maxAttempts batchSize label).settled worker := by
  cases label with
  | outside db => exact h
  | restart w =>
    rw [Fleet.step]
    split <;> exact h
  | step w shutdown locked result =>
    rw [Fleet.step,Fleet.work]
    cases hloop : f.loops w with
    | starting => exact h
    | checking =>
      dsimp only
      split <;> exact h
    | claiming => exact h
    | stopped answer => exact h
    | delivering batch => cases batch <;> exact h
    | reporting delivery answer batch =>
      dsimp only
      rw [Function.update_apply]
      split
      · next hw =>
        subst hw
        exact List.mem_append_left _ h
      · exact h

theorem settled_run (config : MailOutboxConfig) (maxAttempts : ℕ) (batchSize : ℤ) (ops : List FleetLabel)
    {id : Uuid} (h : id ∈ f.settled worker) :
    id ∈ (run (Fleet.step config maxAttempts batchSize) f ops).settled worker := by
  refine run_invariant (fun g : Fleet => id ∈ g.settled worker) (fun g label h => ?_) h ops
  exact settled_step config maxAttempts batchSize label h

theorem loops_step (config : MailOutboxConfig) (maxAttempts : ℕ) (batchSize : ℤ)
    (hlabel : label.isOf worker = false) (hhand : (f.loops worker).hand ≠ []) :
    (f.step config maxAttempts batchSize label).loops worker = f.loops worker := by
  cases label with
  | outside db => rfl
  | restart w =>
    rw [Fleet.step]
    split
    · next hstopped =>
      have hw : worker ≠ w := by
        rintro rfl
        cases hloop : f.loops worker with
        | stopped answer =>
          rw [hloop] at hhand
          exact hhand rfl
        | _ =>
          rw [hloop] at hstopped
          cases hstopped
      exact Function.update_of_ne hw ..
    · rfl
  | step w shutdown locked result =>
    have hw : worker ≠ w := fun hw => by
      rw [FleetLabel.isOf,hw,beq_self_eq_true] at hlabel
      cases hlabel
    rw [Fleet.step,Fleet.work]
    cases hloop : f.loops w with
    | starting => exact Function.update_of_ne hw ..
    | checking =>
      dsimp only
      split <;> exact Function.update_of_ne hw ..
    | claiming => exact Function.update_of_ne hw ..
    | stopped answer => rfl
    | delivering batch => cases batch <;> exact Function.update_of_ne hw ..
    | reporting delivery answer batch => exact Function.update_of_ne hw ..

/-- A step of its own brings it closer to the report of each row in its hands. -/
theorem hand_step (config : MailOutboxConfig) (maxAttempts : ℕ) (batchSize : ℤ)
    (hlabel : label.isOf worker = true) {id : Uuid} (hid : id ∈ (f.loops worker).hand) :
    (id ∈ (f.step config maxAttempts batchSize label).settled worker ∨
      id ∈ ((f.step config maxAttempts batchSize label).loops worker).hand) ∧
    ((f.step config maxAttempts batchSize label).loops worker).remaining + 1 = (f.loops worker).remaining := by
  cases label with
  | outside db => cases hlabel
  | restart w => cases hlabel
  | step w shutdown locked result =>
    have hw : w = worker := by simpa [FleetLabel.isOf] using hlabel
    subst hw
    rw [Fleet.step,Fleet.work]
    cases hloop : f.loops w with
    | delivering batch =>
      rw [hloop] at hid
      cases batch with
      | nil => cases hid
      | cons delivery batch =>
        dsimp only [Fleet.setLoop]
        rw [Function.update_self]
        exact ⟨Or.inr hid,by simp only [WorkerLoop.remaining,List.length_cons]; omega⟩
    | reporting delivery answer batch =>
      rw [hloop,WorkerLoop.hand,List.mem_cons] at hid
      dsimp only [Fleet.setLoop]
      rw [Function.update_self,Function.update_self,List.mem_append,List.mem_singleton,or_assoc]
      exact ⟨Or.inr hid,rfl⟩
    | _ =>
      rw [hloop] at hid
      cases hid

theorem hand_settled (config : MailOutboxConfig) (maxAttempts : ℕ) (batchSize : ℤ) {id : Uuid}
    (mid : List FleetLabel) (h : id ∈ f.settled worker ∨ id ∈ (f.loops worker).hand)
    (hsteps : (f.loops worker).remaining ≤ mid.countP (FleetLabel.isOf worker)) :
    id ∈ (run (Fleet.step config maxAttempts batchSize) f mid).settled worker := by
  induction mid generalizing f with
  | nil =>
    rcases h with h | h
    · exact h
    · cases hloop : f.loops worker with
      | delivering batch =>
        rw [hloop] at h hsteps
        cases batch with
        | nil => cases h
        | cons delivery batch =>
          simp only [WorkerLoop.remaining,List.length_cons,List.countP_nil] at hsteps
          omega
      | reporting delivery answer batch =>
        rw [hloop] at hsteps
        simp only [WorkerLoop.remaining,List.countP_nil] at hsteps
        omega
      | _ =>
        rw [hloop] at h
        cases h
  | cons label rest ih =>
    rw [run_cons]
    by_cases hid : id ∈ (f.loops worker).hand
    · cases hlabel : label.isOf worker with
      | true =>
        obtain ⟨hnext,hless⟩ := hand_step config maxAttempts batchSize hlabel hid
        rw [List.countP_cons_of_pos hlabel] at hsteps
        exact ih hnext (by omega)
      | false =>
        have hsame := loops_step config maxAttempts batchSize hlabel (List.ne_nil_of_mem hid)
        rw [List.countP_cons_of_neg (by simp [hlabel]),← hsame] at hsteps
        refine ih (Or.inr ?_) hsteps
        rw [hsame]
        exact hid
    · have hsettled := h.resolve_right hid
      exact settled_run config maxAttempts batchSize rest
        (settled_step config maxAttempts batchSize label hsettled)

/-- In the runs whose claims select legible rows only, and in no others, no row stops the others. -/
theorem rows_delivered_iff (config : MailOutboxConfig) (maxAttempts : ℕ) (batchSize : ℤ) (db : Db)
    (ops : List FleetLabel) : LoopContract config maxAttempts batchSize (Fleet.start db) ops ↔
      Along (Fleet.step config maxAttempts batchSize) (Legible config batchSize) (Fleet.start db) ops := by
  constructor
  · intro h
    exact h.steps.mono (fun _ _ hstep => hstep.legible)
  · intro h
    have hheld : ∀ pre post, ops = pre ++ post →
        Held (run (Fleet.step config maxAttempts batchSize) (Fleet.start db) pre) := by
      rintro pre post rfl
      exact (along_append.mp h).1.invariant Held (fun _ _ hheld hlegible => hheld.step hlegible)
        (held_start db)
    refine ⟨h.mono (fun _ _ hlegible => hlegible.loopStep),?_,?_⟩
    · intro pre post hops worker e
      exact (hheld pre post hops).running worker e
    · intro pre mid post hops worker hsteps id hid
      rw [run_append]
      exact hand_settled config maxAttempts batchSize mid ((hheld pre _ hops).moved worker id hid) hsteps

def sampleRow : EmailRow where
  recipientEmail := "student@example.edu"
  accountUserId := some 11
  credentialRole := .student
  status := .pending
  attempts := 0
  nextAttemptAt := 0
  claimedAt := none
  lastError := none
  secret := (sampleCipher.encrypt sampleNonce 1 "student@example.edu" .student "A2bcDef3").toOption
  createdAt := 0
  sentAt := none
  expiresAt := 259200000

def sampleCopied : Db := ⟨0,⟨[(1,sampleRow),(2,sampleRow)],by decide⟩,[]⟩

/-- The copy takes the decodable row with it. -/
theorem copied_secret_stops_worker : ¬LoopContract sampleConfig 5 20 (Fleet.start sampleCopied)
    [.step 0 false [] (.ok ()),.step 0 false [] (.ok ()),.step 0 false [] (.ok ())] := by
  intro h
  let claiming := run (Fleet.step sampleConfig 5 20) (Fleet.start sampleCopied)
    [.step 0 false [] (.ok ()),.step 0 false [] (.ok ())]
  have hstep : LoopStep sampleConfig 5 20 claiming (.step 0 false [] (.ok ())) := h.steps.2.2.1
  have hselected : ∀ id ∈ [1,2], id ∈ candidates 20 [] claiming.db := by
    intro id hid
    have hdue : ∀ id ∈ [1,2], claiming.db.outbox.rows.any (fun r => r.1 == id && r.2.due claiming.db.now) = true := by
      decide +kernel
    obtain ⟨⟨rowId,row⟩,hrow,hboth⟩ := List.any_eq_true.mp (hdue id hid)
    rw [Bool.and_eq_true,beq_iff_eq] at hboth
    obtain ⟨rfl,hrowDue⟩ := hboth
    exact mem_candidates_of_room (by decide +kernel) hrow hrowDue List.not_mem_nil
  have hgood : decodable sampleConfig claiming.db.outbox 1 = true := by decide +kernel
  have hbad : decodable sampleConfig claiming.db.outbox 2 = false := by decide +kernel
  obtain ⟨claims,hclaims,-⟩ := hstep.returned 0 false [] (.ok ()) rfl rfl 1 (hselected 1 (by decide)) hgood
  have hok : (claimBatch sampleConfig 20 [] claiming.db).2.isOk = true := by
    rw [hclaims]
    rfl
  have hboth := claimBatch_isOk.mp hok 2 (hselected 2 (by decide))
  rw [hbad] at hboth
  cases hboth

end LatexCore.Mail
