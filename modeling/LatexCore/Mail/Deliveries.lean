import LatexCore.Mail.Secrets

/-! # Delivery accounting

What a report may change, and how often a row is handed out. The statements of a
report match a row by its id and its status alone, so the accounting holds for
the runs in which a report comes while its own claim still holds the row, and in
which no row is released that has used up its attempts.
-/
namespace LatexCore.Mail
open Core Foundation
variable {config : MailOutboxConfig} {maxAttempts : ℕ} {w : World} {label : Label} {id : Uuid}
  {row row' : EmailRow}

def ClaimedCredentialEmail.holds (delivery : ClaimedCredentialEmail) (row : EmailRow) : Prop :=
  row.status = .sending ∧ row.attempts = delivery.attempt

/-- The row is `SENT`. -/
def World.isSent (w : World) (id : Uuid) : Bool :=
  (w.db.outbox.get? id).any (fun row => row.status == .sent)

def World.sentAudits (w : World) (id : Uuid) : ℕ :=
  w.db.audits.countP (fun event => event.kind == .sent && event.resourceId == id)

structure DeliveryStep (config : MailOutboxConfig) (maxAttempts : ℕ) (w : World) (label : Label) : Prop where
  owner : ∀ worker, label = .report worker → ∀ id row row', w.db.outbox.get? id = some row →
    (w.step config maxAttempts label).db.outbox.get? id = some row' → row'.status ≠ row.status →
    ∃ delivery result, (w.workers worker).sent = some (delivery,result) ∧ delivery.id = id ∧
      delivery.holds row
  final : ∀ id, w.isSent id = true → (w.step config maxAttempts label).isSent id = true
  audited : ∀ id, (w.step config maxAttempts label).sentAudits id = w.sentAudits id +
    if (w.step config maxAttempts label).isSent id && !w.isSent id then 1 else 0

structure DeliveryContract (config : MailOutboxConfig) (maxAttempts : ℕ) (w : World) (ops : List Label) :
    Prop where
  steps : Along (World.step config maxAttempts) (DeliveryStep config maxAttempts) w ops
  sentOnce : ∀ id, (emitted (World.step config maxAttempts) (fun w label =>
    if (w.step config maxAttempts label).isSent id && !w.isSent id then [id] else []) w ops).length ≤ 1
  handed : ∀ id, (run (World.step config maxAttempts) w ops).handed.countP (fun claim => claim.id == id) ≤
    maxAttempts + (run (World.step config maxAttempts) w ops).retried.count id

/-- A success is reported while its claim holds the row, a failure not while another claim does, and
no row is released that has used up its attempts and retries. -/
def World.timely (maxAttempts : ℕ) (w : World) : Label → Prop
  | .report worker => ∀ delivery result, (w.workers worker).sent = some (delivery,result) →
    match result with
    | .ok _ => ∃ row, w.db.outbox.get? delivery.id = some row ∧ delivery.holds row
    | .error _ => ∀ row, w.db.outbox.get? delivery.id = some row → row.status = .sending →
      row.attempts = delivery.attempt
  | .recoverStaleClaims => ∀ id row, w.db.outbox.get? id = some row → row.stale w.db.now = true →
    row.attempts < maxAttempts + w.retried.count id
  | _ => True

/-! ## Steps -/

theorem isSent_iff : w.isSent id = true ↔ ∃ row, w.db.outbox.get? id = some row ∧ row.status = .sent := by
  rw [World.isSent,Option.any_eq_true]
  simp

theorem RowStep.report_owner {worker : ℕ} (h : RowStep maxAttempts w id row (.report worker) row')
    (htimely : w.timely maxAttempts (.report worker)) (hrow : w.db.outbox.get? id = some row)
    (hchanged : row'.status ≠ row.status) : ∃ delivery result,
      (w.workers worker).sent = some (delivery,result) ∧ delivery.id = id ∧ delivery.holds row := by
  cases h with
  | same => exact absurd rfl hchanged
  | sent _ delivery h hid hstatus =>
    subst hid
    obtain ⟨held,hheld,hholds⟩ := htimely delivery (.ok ()) h
    rw [hrow] at hheld
    cases hheld
    exact ⟨delivery,_,h,rfl,hholds⟩
  | failed _ delivery failure _ _ h hid hstatus =>
    subst hid
    exact ⟨delivery,_,h,rfl,hstatus,htimely delivery (.error failure) h row hrow hstatus⟩

theorem isSent_step (config : MailOutboxConfig) (maxAttempts : ℕ) (label : Label)
    (h : w.isSent id = true) : (w.step config maxAttempts label).isSent id = true := by
  obtain ⟨row,hrow,hstatus⟩ := isSent_iff.mp h
  obtain ⟨row',hrow',hstep⟩ := step_row config maxAttempts label hrow
  have hsame := hstep.final (by rw [hstatus]; rfl)
  exact isSent_iff.mpr ⟨row',hrow',hsame ▸ hstatus⟩

/-- A row that turns `SENT` is the row of a reported success. -/
theorem turnsSent (hbefore : w.isSent id = false)
    (hafter : (w.step config maxAttempts label).isSent id = true) :
    ∃ worker delivery, label = .report worker ∧ (w.workers worker).sent = some (delivery,.ok ()) ∧
      id = delivery.id := by
  obtain ⟨row',hrow',hstatus⟩ := isSent_iff.mp hafter
  cases hold : w.db.outbox.get? id with
  | none =>
    obtain ⟨_,_,_,_,_,_,_,_,_,_,rfl,_⟩ := step_new hold hrow'
    cases hstatus
  | some row =>
    obtain ⟨row'',hrow'',hstep⟩ := step_row config maxAttempts label hold
    rw [hrow'] at hrow''
    cases hrow''
    have hnot : row.status ≠ .sent := by
      intro hs
      rw [isSent_iff.mpr ⟨row,hold,hs⟩] at hbefore
      cases hbefore
    cases hstep with
    | same => exact absurd hstatus hnot
    | sent worker delivery h hid => exact ⟨worker,delivery,rfl,h,hid⟩
    | failed _ _ _ again =>
      cases again <;> cases hstatus
    | released => cases hstatus
    | expired => cases hstatus
    | claimed => cases hstatus
    | retried => cases hstatus

theorem sentAudits_step (config : MailOutboxConfig) (maxAttempts : ℕ) (w : World) (label : Label)
    (id : Uuid) : (w.step config maxAttempts label).sentAudits id = w.sentAudits id ∨
      ∃ worker delivery, label = .report worker ∧ (w.workers worker).sent = some (delivery,.ok ()) := by
  cases label with
  | tick millis => exact Or.inl rfl
  | enqueue started new nonce actor accountUserId recipient role password =>
    rw [World.step]
    split
    · exact Or.inl rfl
    · next db' _ h =>
      obtain ⟨_,_,_,_,_,haudits⟩ := enqueue_ok h
      left
      simp [World.sentAudits,haudits]
  | recoverStaleClaims => exact Or.inl rfl
  | expire => exact Or.inl rfl
  | claimBatch worker limit locked =>
    rw [World.step]
    split
    · dsimp only
      split <;> exact Or.inl rfl
    · exact Or.inl rfl
  | send worker index result =>
    rw [World.step]
    split <;> exact Or.inl rfl
  | report worker =>
    rw [World.step]
    split
    · exact Or.inl rfl
    · next delivery result h =>
      cases result with
      | ok u => exact Or.inr ⟨worker,delivery,rfl,h⟩
      | error failure =>
        left
        simp only [World.sentAudits,reportDelivery,Mail.markFailed]
        split
        · rfl
        · simp [auditDelivery]
  | retry target actor =>
    rw [World.step]
    split
    · exact Or.inl rfl
    · next db' _ h =>
      obtain ⟨_,_,_,_,_,_,haudits⟩ := retry_ok h
      left
      simp [World.sentAudits,haudits]
  | crash worker => exact Or.inl rfl

/-- The report of a success writes one event, and turns its row `SENT` where its claim holds it. -/
theorem report_sent {worker : ℕ} {delivery : ClaimedCredentialEmail}
    (h : (w.workers worker).sent = some (delivery,.ok ())) (id : Uuid) :
    (w.step config maxAttempts (.report worker)).sentAudits id =
      w.sentAudits id + if delivery.id = id then 1 else 0 := by
  rw [World.step,h]
  simp [World.sentAudits,reportDelivery,Mail.markSent,auditDelivery]

theorem report_isSent {worker : ℕ} {delivery : ClaimedCredentialEmail}
    (h : (w.workers worker).sent = some (delivery,.ok ())) (hrow : w.db.outbox.get? delivery.id = some row)
    (hstatus : row.status = .sending) :
    (w.step config maxAttempts (.report worker)).isSent delivery.id = true := by
  rw [World.step,h]
  refine isSent_iff.mpr ⟨_,get?_updated hrow,?_⟩
  rw [if_pos (by simp [ClaimedCredentialEmail.matches,hstatus])]
  rfl

theorem DeliveryStep.of_timely (htimely : w.timely maxAttempts label) :
    DeliveryStep config maxAttempts w label := by
  refine ⟨?_,fun id h => isSent_step config maxAttempts label h,?_⟩
  · rintro worker rfl id row row' hrow hrow' hchanged
    obtain ⟨row'',hrow'',hstep⟩ := step_row config maxAttempts (.report worker) hrow
    rw [hrow'] at hrow''
    cases hrow''
    exact hstep.report_owner htimely hrow hchanged
  · intro id
    by_cases hsuccess : ∃ worker delivery, label = .report worker ∧
        (w.workers worker).sent = some (delivery,.ok ())
    · obtain ⟨worker,delivery,rfl,h⟩ := hsuccess
      rw [report_sent h id]
      obtain ⟨row,hrow,hstatus,_⟩ := htimely delivery (.ok ()) h
      by_cases hid : delivery.id = id
      · subst hid
        have hbefore : w.isSent delivery.id = false := by
          simp [World.isSent,hrow,hstatus]
        rw [if_pos rfl,report_isSent h hrow hstatus,hbefore]
        rfl
      · rw [if_neg hid,if_neg]
        intro hturns
        rw [Bool.and_eq_true,Bool.not_eq_true'] at hturns
        obtain ⟨worker',delivery',hlabel,h',hid'⟩ := turnsSent hturns.2 hturns.1
        cases hlabel
        rw [h] at h'
        cases h'
        exact hid hid'.symm
    · rcases sentAudits_step config maxAttempts w label id with hsame | hreport
      · have hstays : ¬((w.step config maxAttempts label).isSent id && !w.isSent id) = true := by
          intro hturns
          rw [Bool.and_eq_true,Bool.not_eq_true'] at hturns
          obtain ⟨worker,delivery,hlabel,h,_⟩ := turnsSent hturns.2 hturns.1
          exact hsuccess ⟨worker,delivery,hlabel,h⟩
        rw [hsame,if_neg hstays,Nat.add_zero]
      · exact absurd hreport hsuccess

/-! ## Attempts -/

structure Budget (maxAttempts : ℕ) (w : World) (id : Uuid) : Prop where
  handed : w.handed.countP (fun claim => claim.id == id) ≤
    ((w.db.outbox.get? id).map EmailRow.attempts).getD 0
  within : ∀ row, w.db.outbox.get? id = some row →
    row.attempts ≤ maxAttempts + w.retried.count id ∧
      (row.status = .pending → row.attempts < maxAttempts + w.retried.count id)

theorem decodeClaims_ids {outbox : Table Uuid EmailRow} {ids : List Uuid}
    {claims : List ClaimedCredentialEmail} (h : decodeClaims config outbox ids = .ok claims) :
    claims.map ClaimedCredentialEmail.id = ids := by
  induction ids generalizing claims with
  | nil =>
    cases h
    rfl
  | cons id rest ih =>
    simp only [decodeClaims,bind_ok,require_ok,pure_ok] at h
    obtain ⟨row,_,first,hfirst,others,hothers,rfl⟩ := h
    rw [List.map_cons,ih hothers]
    simp only [decodeClaim,bind_ok,require_ok,pure_ok] at hfirst
    obtain ⟨_,_,_,_,rfl⟩ := hfirst
    rfl

theorem handed_step (config : MailOutboxConfig) (maxAttempts : ℕ) (w : World) (label : Label) :
    (w.step config maxAttempts label).handed = w.handed ∨
      ∃ worker limit locked deliveries, label = .claimBatch worker limit locked ∧
        (w.step config maxAttempts label).handed = w.handed ++ deliveries ∧
        deliveries.map ClaimedCredentialEmail.id = candidates limit locked w.db ∧
        (w.step config maxAttempts label).db = (Mail.claimBatch config limit locked w.db).1 := by
  cases label with
  | tick millis => exact Or.inl rfl
  | enqueue started new nonce actor accountUserId recipient role password =>
    rw [World.step]
    split <;> exact Or.inl rfl
  | recoverStaleClaims => exact Or.inl rfl
  | expire => exact Or.inl rfl
  | claimBatch worker limit locked =>
    rw [World.step]
    split
    · dsimp only
      split
      · exact Or.inl rfl
      · next deliveries h =>
        exact Or.inr ⟨worker,limit,locked,deliveries,rfl,rfl,decodeClaims_ids h,rfl⟩
    · exact Or.inl rfl
  | send worker index result =>
    rw [World.step]
    split <;> exact Or.inl rfl
  | report worker =>
    rw [World.step]
    split <;> exact Or.inl rfl
  | retry target actor =>
    rw [World.step]
    split <;> exact Or.inl rfl
  | crash worker => exact Or.inl rfl

theorem retried_step (config : MailOutboxConfig) (maxAttempts : ℕ) (w : World) (label : Label) (id : Uuid) :
    w.retried.count id ≤ (w.step config maxAttempts label).retried.count id := by
  cases label with
  | tick millis => exact Nat.le_refl _
  | enqueue started new nonce actor accountUserId recipient role password =>
    rw [World.step]
    split <;> exact Nat.le_refl _
  | recoverStaleClaims => exact Nat.le_refl _
  | expire => exact Nat.le_refl _
  | claimBatch worker limit locked =>
    rw [World.step]
    split
    · dsimp only
      split <;> exact Nat.le_refl _
    · exact Nat.le_refl _
  | send worker index result =>
    rw [World.step]
    split <;> exact Nat.le_refl _
  | report worker =>
    rw [World.step]
    split <;> exact Nat.le_refl _
  | retry target actor =>
    rw [World.step]
    split
    · exact Nat.le_refl _
    · exact List.count_le_count_cons ..
  | crash worker => exact Nat.le_refl _

theorem RowStep.within (h : RowStep maxAttempts w id row label row') (htimely : w.timely maxAttempts label)
    (hrow : w.db.outbox.get? id = some row)
    (hbudget : row.attempts ≤ maxAttempts + w.retried.count id ∧
      (row.status = .pending → row.attempts < maxAttempts + w.retried.count id)) :
    row'.attempts ≤ maxAttempts + (w.step config maxAttempts label).retried.count id ∧
      (row'.status = .pending →
        row'.attempts < maxAttempts + (w.step config maxAttempts label).retried.count id) := by
  have hmore := retried_step config maxAttempts w label id
  cases h with
  | same => exact ⟨hbudget.1.trans (by omega),fun hs => (hbudget.2 hs).trans_le (by omega)⟩
  | released h =>
    have hfree := htimely id row hrow h
    exact ⟨hbudget.1.trans (by omega),fun _ => hfree.trans_le (by omega)⟩
  | expired =>
    refine ⟨hbudget.1.trans (by omega),fun hs => ?_⟩
    cases hs
  | claimed _ _ _ _ h =>
    simp only [EmailRow.due,Bool.and_eq_true,beq_iff_eq] at h
    have hfree := hbudget.2 h.1.1.1
    refine ⟨?_,fun hs => ?_⟩
    · exact (Nat.succ_le_of_lt hfree).trans (by omega)
    · cases hs
  | sent =>
    refine ⟨hbudget.1.trans (by omega),fun hs => ?_⟩
    cases hs
  | failed worker delivery failure again next h hid hstatus hagain =>
    subst hid
    refine ⟨hbudget.1.trans (by omega),fun hs => ?_⟩
    have hheld := htimely delivery (.error failure) h row hrow hstatus
    cases again with
    | false => cases hs
    | true =>
      have hless := hagain rfl
      change row.attempts < _
      omega
  | retried actor h hok =>
    obtain ⟨db',hretry⟩ := hok
    have hcount : (w.step config maxAttempts (.retry id actor)).retried.count id =
        w.retried.count id + 1 := by
      rw [World.step,hretry]
      exact List.count_cons_self
    rw [hcount]
    change row.attempts ≤ _ ∧ (_ → row.attempts < _)
    omega

theorem Budget.step (h : Budget maxAttempts w id) (hmax : 0 < maxAttempts)
    (htimely : w.timely maxAttempts label) : Budget maxAttempts (w.step config maxAttempts label) id := by
  constructor
  · have hkeep : ((w.db.outbox.get? id).map EmailRow.attempts).getD 0 ≤
        (((w.step config maxAttempts label).db.outbox.get? id).map EmailRow.attempts).getD 0 := by
      cases hold : w.db.outbox.get? id with
      | none => exact Nat.zero_le _
      | some row =>
        obtain ⟨row',hrow',hstep⟩ := step_row config maxAttempts label hold
        rw [hrow']
        change row.attempts ≤ row'.attempts
        cases hstep <;> first | exact Nat.le_refl _ | exact Nat.le_succ _
    rcases handed_step config maxAttempts w label with hsame | ⟨_,limit,locked,deliveries,_,he,hids,hdb⟩
    · rw [hsame]
      exact h.handed.trans hkeep
    · have hcount : deliveries.countP (fun claim => claim.id == id) =
          (candidates limit locked w.db).count id := by
        rw [← hids,List.count,List.countP_map]
        rfl
      rw [he,List.countP_append,hcount]
      by_cases hmem : id ∈ candidates limit locked w.db
      · obtain ⟨row,hrow,_⟩ := mem_candidates hmem
        have hafter : (w.step config maxAttempts label).db.outbox.get? id =
            some (row.claim w.db.now) := by
          rw [hdb]
          exact (get?_updated hrow).trans (by rw [if_pos (List.contains_iff_mem.mpr hmem)])
        have hhanded := h.handed
        rw [hrow] at hhanded
        rw [hafter,List.count_eq_one_of_mem (candidates_nodup ..) hmem]
        exact Nat.succ_le_succ hhanded
      · rw [List.count_eq_zero_of_not_mem hmem]
        exact h.handed.trans hkeep
  · intro row' hrow'
    cases hold : w.db.outbox.get? id with
    | none =>
      obtain ⟨_,_,_,_,_,_,_,_,_,_,rfl,_⟩ := step_new hold hrow'
      change 0 ≤ _ ∧ (_ → 0 < _)
      omega
    | some row =>
      obtain ⟨row'',hrow'',hstep⟩ := step_row config maxAttempts label hold
      rw [hrow'] at hrow''
      cases hrow''
      exact hstep.within htimely hold (h.within row hold)

/-- In every timely run the outbox is accounted for. -/
theorem outbox_accounts (config : MailOutboxConfig) (maxAttempts : ℕ) (hmax : 0 < maxAttempts)
    (now : Timestamp) (ops : List Label)
    (h : Along (World.step config maxAttempts) (World.timely maxAttempts) (World.start now) ops) :
    DeliveryContract config maxAttempts (World.start now) ops := by
  refine ⟨h.mono (fun _ _ htimely => .of_timely htimely),?_,?_⟩
  · intro id
    have hsent : (emitted (World.step config maxAttempts) (fun w label =>
          if (w.step config maxAttempts label).isSent id && !w.isSent id then [id] else [])
          (World.start now) ops).length ≤
        if (run (World.step config maxAttempts) (World.start now) ops).isSent id then 1 else 0 := by
      refine run_invariant_emitted (fun (w : World) (out : List Uuid) =>
        out.length ≤ if w.isSent id then 1 else 0) (fun w out label hout => ?_) (Nat.zero_le _) ops
      have hstays := @isSent_step w id config maxAttempts label
      cases hbefore : w.isSent id <;> cases hafter : (w.step config maxAttempts label).isSent id <;>
        simp [hbefore,hafter] at hout hstays ⊢
      · simp [hout]
      · simp [hout]
      · exact hout
    exact hsent.trans (by split <;> simp)
  · intro id
    have hbudget : Budget maxAttempts (run (World.step config maxAttempts) (World.start now) ops) id := by
      refine h.invariant (fun w => Budget maxAttempts w id) (fun _ _ hb htimely => hb.step hmax htimely) ?_
      exact ⟨Nat.zero_le _,fun _ hrow => by cases hrow⟩
    refine hbudget.handed.trans ?_
    cases hrow : (run (World.step config maxAttempts) (World.start now) ops).db.outbox.get? id with
    | none => exact Nat.zero_le _
    | some row => exact (hbudget.within row hrow).1

/-! ## Two sample runs -/

def sampleSent : List Label :=
  [.enqueue 0 1 sampleNonce 10 11 "student@example.edu" .student "A2bcDef3",.claimBatch 0 20 [],
    .send 0 0 (.ok ())]

theorem outbox_accounts_sent : DeliveryContract sampleConfig 5 (World.start 0) (sampleSent ++ [.report 0]) := by
  apply outbox_accounts sampleConfig 5 (by decide) 0
  refine ⟨trivial,trivial,trivial,?_,trivial⟩
  intro delivery result h
  have hheld : ((run (World.step sampleConfig 5) (World.start 0) sampleSent).workers 0).sent.all
      (fun s => s.2.isOk && ((run (World.step sampleConfig 5) (World.start 0) sampleSent).db.outbox.get?
        s.1.id).any (fun row => row.status == .sending && row.attempts == s.1.attempt)) = true := by
    decide +kernel
  change ((run (World.step sampleConfig 5) (World.start 0) sampleSent).workers 0).sent = _ at h
  rw [h,Option.all_some,Bool.and_eq_true,Option.any_eq_true] at hheld
  obtain ⟨hok,row,hrow,hholds⟩ := hheld
  rw [Bool.and_eq_true,beq_iff_eq,beq_iff_eq] at hholds
  cases result with
  | error failure => cases hok
  | ok u => exact ⟨row,hrow,hholds⟩

/-- The send takes more than ten minutes: the row is released, and worker 1 claims it. -/
def sampleReclaimed : List Label :=
  sampleSent ++ [.tick 600001,.recoverStaleClaims,.claimBatch 1 20 []]

/-- The late report of worker 0 makes the row `SENT` while the claim of worker 1 holds it. -/
theorem late_report_takes_row :
    ¬DeliveryContract sampleConfig 5 (World.start 0) (sampleReclaimed ++ [.report 0]) := by
  intro h
  have hstep := (along_concat.mp h.steps).2
  have hrow : ((run (World.step sampleConfig 5) (World.start 0) sampleReclaimed).db.outbox.get? 1).any
      (fun row => row.status == .sending && row.attempts == 2) = true := by
    decide +kernel
  have hrow' : (((run (World.step sampleConfig 5) (World.start 0) sampleReclaimed).step sampleConfig 5
      (.report 0)).db.outbox.get? 1).any (fun row => row.status == .sent) = true := by
    decide +kernel
  have hattempt : ((run (World.step sampleConfig 5) (World.start 0) sampleReclaimed).workers 0).sent.all
      (fun s => s.1.attempt == 1) = true := by
    decide +kernel
  rw [Option.any_eq_true] at hrow hrow'
  obtain ⟨row,hget,hstatus⟩ := hrow
  obtain ⟨row',hget',hstatus'⟩ := hrow'
  rw [Bool.and_eq_true,beq_iff_eq,beq_iff_eq] at hstatus
  rw [beq_iff_eq] at hstatus'
  obtain ⟨delivery,result,hsent,_,hholds⟩ := hstep.owner 0 rfl 1 row row' hget hget'
    (by rw [hstatus',hstatus.1]; decide)
  rw [hsent,Option.all_some,beq_iff_eq] at hattempt
  have htwo := hholds.2
  rw [hattempt,hstatus.2] at htwo
  cases htwo

end LatexCore.Mail
