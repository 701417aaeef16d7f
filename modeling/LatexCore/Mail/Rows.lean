import LatexCore.Mail.Outbox

/-! # What a step does to a row of the outbox

Each label changes a row in one way, under the guard of its statement, and only
an enqueue adds a row. The invariants of the outbox are read off these cases.
-/
namespace LatexCore.Mail
open Core Foundation
variable {config : MailOutboxConfig} {maxAttempts : ℕ} {w : World} {label : Label} {id : Uuid}
  {row row' : EmailRow} {db : Db}

inductive RowStep (maxAttempts : ℕ) (w : World) (id : Uuid) (row : EmailRow) : Label → EmailRow → Prop
  | same (label : Label) : RowStep maxAttempts w id row label row
  | released (h : row.stale w.db.now = true) :
    RowStep maxAttempts w id row .recoverStaleClaims (row.release w.db.now)
  | expired (hlive : row.status.live = true) (h : row.expiresAt ≤ w.db.now) :
    RowStep maxAttempts w id row .expire row.expire
  | claimed (worker : ℕ) (limit : ℤ) (locked : List Uuid) (hmem : id ∈ candidates limit locked w.db)
    (h : row.due w.db.now = true) :
    RowStep maxAttempts w id row (.claimBatch worker limit locked) (row.claim w.db.now)
  | sent (worker : ℕ) (delivery : ClaimedCredentialEmail)
    (h : (w.workers worker).sent = some (delivery,.ok ())) (hid : id = delivery.id)
    (hstatus : row.status = .sending) :
    RowStep maxAttempts w id row (.report worker) (row.markSent w.db.now)
  | failed (worker : ℕ) (delivery : ClaimedCredentialEmail) (failure : MailFailure) (again : Bool)
    (next : Timestamp) (h : (w.workers worker).sent = some (delivery,.error failure))
    (hid : id = delivery.id) (hstatus : row.status = .sending)
    (hagain : again = true → delivery.attempt < maxAttempts) :
    RowStep maxAttempts w id row (.report worker) (row.markFailed again failure.category next)
  | retried (actor : UserId) (h : row.retryable w.db.now = true)
    (hok : ∃ db', Mail.retry id actor w.db = .ok (db',())) :
    RowStep maxAttempts w id row (.retry id actor) (row.retry w.db.now)

theorem mem_candidates {limit : ℤ} {locked : List Uuid} (h : id ∈ candidates limit locked db) :
    ∃ row, db.outbox.get? id = some row ∧ row.due db.now = true := by
  have hmem := List.mem_of_mem_take h
  rw [List.mem_map] at hmem
  obtain ⟨⟨id',row⟩,hrow,rfl⟩ := hmem
  rw [List.mem_mergeSort,List.mem_filter,Bool.and_eq_true] at hrow
  exact ⟨row,Table.mem_rows_iff.mp hrow.1,hrow.2.1⟩

theorem candidates_nodup (limit : ℤ) (locked : List Uuid) (db : Db) :
    (candidates limit locked db).Nodup := by
  have hperm := (List.mergeSort_perm (db.outbox.rows.filter
    (fun r => r.2.due db.now && !locked.contains r.1)) claimBefore).map Prod.fst
  have hnodup : ((db.outbox.rows.filter
      (fun r => r.2.due db.now && !locked.contains r.1)).map Prod.fst).Nodup :=
    db.outbox.distinct.sublist (List.filter_sublist.map Prod.fst)
  exact (hperm.nodup_iff.mpr hnodup).sublist (List.take_sublist ..)

theorem enqueue_ok {started : Timestamp} {nonce : Nonce} {actor accountUserId : UserId}
    {recipient : String} {role : CredentialRole} {password : String} {db' : Db} {new : Uuid}
    (h : enqueueTemporaryCredential config started id nonce actor accountUserId recipient role password
      db = .ok (db',new)) :
    db.outbox.get? id = none ∧ db'.now = db.now ∧ ∃ secret,
      config.cipher.encrypt nonce id recipient role password = .ok secret ∧
      (∀ k, db'.outbox.get? k = if k = id then
        some (queuedRow config started accountUserId recipient role secret db.now)
        else db.outbox.get? k) ∧
      db'.audits = db.audits ++ [⟨some actor,.queued,id,some accountUserId,none,none⟩] := by
  simp only [enqueueTemporaryCredential,bind_ok,ensure_ok,require_ok,pure_ok,Prod.mk.injEq] at h
  obtain ⟨secret,hsecret,_,_,outbox,houtbox,rfl,_⟩ := h
  exact ⟨(Table.insert?_eq_some houtbox).1,rfl,secret,hsecret,Table.get?_insert? houtbox,rfl⟩

theorem retry_ok {actor : UserId} {db' : Db} (h : Mail.retry id actor db = .ok (db',())) :
    ∃ row userId, db.outbox.get? id = some row ∧ row.retryable db.now = true ∧ db'.now = db.now ∧
      db'.outbox = db.outbox.modify id (EmailRow.retry db.now) ∧
      db'.audits = db.audits ++ [⟨some actor,.retried,id,some userId,none,none⟩] := by
  simp only [Mail.retry,bind_ok,ensure_ok,require_ok,pure_ok,Prod.mk.injEq] at h
  obtain ⟨row,hrow,_,hretryable,userId,_,rfl,_⟩ := h
  exact ⟨row,userId,hrow,hretryable,rfl,rfl,rfl⟩

theorem get?_updated {t : Table Uuid EmailRow} {p : Uuid → EmailRow → Bool} {f : EmailRow → EmailRow}
    (hrow : t.get? id = some row) :
    (t.updateWhere p f).get? id = some (if p id row then f row else row) := by
  rw [Table.get?_updateWhere,hrow,Option.map_some]

theorem step_row (config : MailOutboxConfig) (maxAttempts : ℕ) (label : Label)
    (hrow : w.db.outbox.get? id = some row) :
    ∃ row', (w.step config maxAttempts label).db.outbox.get? id = some row' ∧
      RowStep maxAttempts w id row label row' := by
  cases label with
  | tick millis => exact ⟨row,hrow,.same _⟩
  | enqueue started new nonce actor accountUserId recipient role password =>
    refine ⟨row,?_,.same _⟩
    rw [World.step]
    split
    · exact hrow
    · next db' _ h =>
      obtain ⟨hnew,_,secret,_,hget,_⟩ := enqueue_ok h
      dsimp only
      rw [hget,if_neg]
      · exact hrow
      · rintro rfl
        rw [hnew] at hrow
        cases hrow
  | recoverStaleClaims =>
    refine ⟨_,get?_updated hrow,?_⟩
    split
    · next h => exact .released h
    · exact .same _
  | expire =>
    refine ⟨_,get?_updated hrow,?_⟩
    split
    · next h =>
      rw [Bool.and_eq_true,decide_eq_true_eq] at h
      exact .expired h.1 h.2
    · exact .same _
  | claimBatch worker limit locked =>
    have hclaim : ∃ row', (Mail.claimBatch config limit locked w.db).1.outbox.get? id = some row' ∧
        RowStep maxAttempts w id row (.claimBatch worker limit locked) row' := by
      refine ⟨_,get?_updated hrow,?_⟩
      split
      · next h =>
        have hmem : id ∈ candidates limit locked w.db := List.contains_iff_mem.mp h
        obtain ⟨row',hrow',hdue⟩ := mem_candidates hmem
        rw [hrow] at hrow'
        cases hrow'
        exact .claimed worker limit locked hmem hdue
      · exact .same _
    rw [World.step]
    split
    · dsimp only
      split
      · exact hclaim
      · exact hclaim
    · exact ⟨row,hrow,.same _⟩
  | send worker index result =>
    refine ⟨row,?_,.same _⟩
    rw [World.step]
    split
    · exact hrow
    · exact hrow
  | report worker =>
    rw [World.step]
    split
    · exact ⟨row,hrow,.same _⟩
    · next delivery result h =>
      cases result with
      | ok u =>
        refine ⟨_,get?_updated hrow,?_⟩
        split
        · next hm =>
          simp only [ClaimedCredentialEmail.matches,Bool.and_eq_true,beq_iff_eq] at hm
          exact .sent worker delivery h hm.1 hm.2
        · exact .same _
      | error failure =>
        have hfail : (reportDelivery maxAttempts delivery (.error failure) w.db).outbox.get? id =
            some (if delivery.matches id row then row.markFailed
              (failure == .transient && delivery.attempt < maxAttempts) failure.category
              (w.db.now + retryDelaySeconds delivery.attempt * 1000) else row) := by
          simp only [reportDelivery,Mail.markFailed]
          split
          · exact get?_updated hrow
          · exact get?_updated hrow
        refine ⟨_,hfail,?_⟩
        split
        · next hm =>
          simp only [ClaimedCredentialEmail.matches,Bool.and_eq_true,beq_iff_eq] at hm
          refine .failed worker delivery failure _ _ h hm.1 hm.2 ?_
          intro hagain
          rw [Bool.and_eq_true,decide_eq_true_eq] at hagain
          exact hagain.2
        · exact .same _
  | retry target actor =>
    rw [World.step]
    split
    · exact ⟨row,hrow,.same _⟩
    · next db' _ h =>
      obtain ⟨old,_,hold,hretryable,_,houtbox,_⟩ := retry_ok h
      dsimp only
      rw [houtbox,Table.get?_modify]
      by_cases hid : id = target
      · subst hid
        rw [hrow] at hold
        cases hold
        rw [if_pos rfl,hrow]
        exact ⟨_,rfl,.retried actor hretryable ⟨db',h⟩⟩
      · rw [if_neg hid]
        exact ⟨row,hrow,.same _⟩
  | crash worker => exact ⟨row,hrow,.same _⟩

theorem step_new (hnone : w.db.outbox.get? id = none)
    (hrow : (w.step config maxAttempts label).db.outbox.get? id = some row) :
    ∃ started nonce actor accountUserId recipient role password secret,
      label = .enqueue started id nonce actor accountUserId recipient role password ∧
      config.cipher.encrypt nonce id recipient role password = .ok secret ∧
      row = queuedRow config started accountUserId recipient role secret w.db.now ∧
      (w.step config maxAttempts label).enqueued = ⟨id,recipient,role,password⟩ :: w.enqueued := by
  have hsame : ∀ {p : Uuid → EmailRow → Bool} {f : EmailRow → EmailRow},
      (w.db.outbox.updateWhere p f).get? id ≠ some row := by
    intro p f h
    rw [Table.get?_updateWhere,hnone] at h
    cases h
  have habsurd : w.db.outbox.get? id ≠ some row := by
    rw [hnone]
    simp
  cases label with
  | tick millis => exact absurd hrow habsurd
  | enqueue started new nonce actor accountUserId recipient role password =>
    rw [World.step] at hrow ⊢
    split at hrow
    · exact absurd hrow habsurd
    · next db' _ h =>
      obtain ⟨_,_,secret,hsecret,hget,_⟩ := enqueue_ok h
      dsimp only at hrow
      rw [hget] at hrow
      split at hrow
      · next hid =>
        subst hid
        cases hrow
        exact ⟨started,nonce,actor,accountUserId,recipient,role,password,secret,rfl,hsecret,rfl,rfl⟩
      · exact absurd hrow habsurd
  | recoverStaleClaims => exact absurd hrow hsame
  | expire => exact absurd hrow hsame
  | claimBatch worker limit locked =>
    rw [World.step] at hrow
    split at hrow
    · dsimp only at hrow
      split at hrow
      · exact absurd hrow hsame
      · exact absurd hrow hsame
    · exact absurd hrow habsurd
  | send worker index result =>
    rw [World.step] at hrow
    split at hrow
    · exact absurd hrow habsurd
    · exact absurd hrow habsurd
  | report worker =>
    rw [World.step] at hrow
    split at hrow
    · exact absurd hrow habsurd
    · next delivery result h =>
      cases result with
      | ok u => exact absurd hrow hsame
      | error failure =>
        simp only [reportDelivery,Mail.markFailed] at hrow
        split at hrow
        · exact absurd hrow hsame
        · exact absurd hrow hsame
  | retry target actor =>
    rw [World.step] at hrow
    split at hrow
    · exact absurd hrow habsurd
    · next db' _ h =>
      obtain ⟨_,_,_,_,_,houtbox,_⟩ := retry_ok h
      dsimp only at hrow
      rw [houtbox] at hrow
      exact absurd hrow hsame
  | crash worker => exact absurd hrow habsurd

/-- The clock does not go back. -/
theorem step_now (config : MailOutboxConfig) (maxAttempts : ℕ) (w : World) (label : Label) :
    w.db.now ≤ (w.step config maxAttempts label).db.now := by
  cases label with
  | tick millis => exact Nat.le_add_right ..
  | enqueue started new nonce actor accountUserId recipient role password =>
    rw [World.step]
    split
    · exact Nat.le_refl _
    · next db' _ h => exact (enqueue_ok h).2.1.ge
  | recoverStaleClaims => exact Nat.le_refl _
  | expire => exact Nat.le_refl _
  | claimBatch worker limit locked =>
    rw [World.step]
    split
    · dsimp only
      split <;> exact Nat.le_refl _
    · exact Nat.le_refl _
  | send worker index result =>
    rw [World.step]
    split <;> exact Nat.le_refl _
  | report worker =>
    rw [World.step]
    split
    · exact Nat.le_refl _
    · next delivery result h =>
      cases result with
      | ok u => exact Nat.le_refl _
      | error failure =>
        simp only [reportDelivery,Mail.markFailed]
        split <;> exact Nat.le_refl _
  | retry target actor =>
    rw [World.step]
    split
    · exact Nat.le_refl _
    · next db' _ h =>
      obtain ⟨_,_,_,_,hnow,_⟩ := retry_ok h
      exact hnow.ge
  | crash worker => exact Nat.le_refl _

end LatexCore.Mail
