import LatexCore.Mail.Rows

/-! # Secrets of the outbox

A row holds its secret exactly while it can still be delivered: a secret goes
when the row is sent or expires, and comes back in no way. What a claim decrypts
is what was enqueued under the row's id, recipient and role.
-/
namespace LatexCore.Mail
open Core Foundation
variable {config : MailOutboxConfig} {maxAttempts : ℕ} {w : World} {label : Label} {id : Uuid}
  {row row' : EmailRow}

def Stored (config : MailOutboxConfig) (enqueued : List Credential) (id : Uuid) (row : EmailRow) : Prop :=
  ∀ secret, row.secret = some secret → ∃ password,
    (⟨id,row.recipientEmail,row.credentialRole,password⟩ : Credential) ∈ enqueued ∧
    config.cipher.decrypt id row.recipientEmail row.credentialRole secret = .ok password

/-- What every state of the outbox keeps. -/
structure Kept (config : MailOutboxConfig) (w : World) : Prop where
  live : ∀ id row, w.db.outbox.get? id = some row → row.secret.isSome = row.status.live
  stored : ∀ id row, w.db.outbox.get? id = some row → Stored config w.enqueued id row
  erased : ∀ id row, w.db.outbox.get? id = some row → row.expiresAt ≤ w.expiredAt → row.secret = none
  clock : w.expiredAt ≤ w.db.now
  known : ∀ c ∈ w.enqueued, ∃ row, w.db.outbox.get? c.id = some row
  unique : (w.enqueued.map Credential.id).Nodup

theorem RowStep.frame (h : RowStep maxAttempts w id row label row') :
    row'.recipientEmail = row.recipientEmail ∧ row'.credentialRole = row.credentialRole ∧
      row'.expiresAt = row.expiresAt ∧ (row'.secret = row.secret ∨ row'.secret = none) := by
  cases h with
  | same => exact ⟨rfl,rfl,rfl,Or.inl rfl⟩
  | released => exact ⟨rfl,rfl,rfl,Or.inl rfl⟩
  | expired => exact ⟨rfl,rfl,rfl,Or.inr rfl⟩
  | claimed => exact ⟨rfl,rfl,rfl,Or.inl rfl⟩
  | sent => exact ⟨rfl,rfl,rfl,Or.inr rfl⟩
  | failed => exact ⟨rfl,rfl,rfl,Or.inl rfl⟩
  | retried => exact ⟨rfl,rfl,rfl,Or.inl rfl⟩

theorem RowStep.live (h : RowStep maxAttempts w id row label row')
    (hlive : row.secret.isSome = row.status.live) : row'.secret.isSome = row'.status.live := by
  cases h with
  | same => exact hlive
  | released h =>
    simp only [EmailRow.stale,Bool.and_eq_true,beq_iff_eq] at h
    rw [h.1] at hlive
    exact hlive
  | expired => rfl
  | claimed _ _ _ _ h =>
    simp only [EmailRow.due,Bool.and_eq_true] at h
    exact h.2
  | sent => rfl
  | failed _ _ _ again _ _ _ hstatus _ =>
    rw [hstatus] at hlive
    cases again
    · exact hlive
    · exact hlive
  | retried _ h =>
    simp only [EmailRow.retryable,Bool.and_eq_true] at h
    exact h.2

/-- A row that was sent or has expired stays as it is. -/
theorem RowStep.final (h : RowStep maxAttempts w id row label row') (hdead : row.status.live = false) :
    row' = row := by
  cases h with
  | same => rfl
  | released h =>
    simp only [EmailRow.stale,Bool.and_eq_true,beq_iff_eq] at h
    rw [h.1] at hdead
    cases hdead
  | expired hlive => rw [hlive] at hdead; cases hdead
  | claimed _ _ _ _ h =>
    simp only [EmailRow.due,Bool.and_eq_true,beq_iff_eq] at h
    rw [h.1.1.1] at hdead
    cases hdead
  | sent _ _ _ _ hstatus => rw [hstatus] at hdead; cases hdead
  | failed _ _ _ _ _ _ _ hstatus => rw [hstatus] at hdead; cases hdead
  | retried _ h =>
    simp only [EmailRow.retryable,Bool.and_eq_true,beq_iff_eq] at h
    rw [h.1.1] at hdead
    cases hdead

theorem enqueued_step (config : MailOutboxConfig) (maxAttempts : ℕ) (w : World) (label : Label) :
    (w.step config maxAttempts label).enqueued = w.enqueued ∨
      ∃ c, w.db.outbox.get? c.id = none ∧
        (w.step config maxAttempts label).enqueued = c :: w.enqueued ∧
        ∃ row, (w.step config maxAttempts label).db.outbox.get? c.id = some row := by
  cases label with
  | tick millis => exact Or.inl rfl
  | enqueue started new nonce actor accountUserId recipient role password =>
    rw [World.step]
    split
    · exact Or.inl rfl
    · next db' _ h =>
      obtain ⟨hnew,_,_,_,hget,_⟩ := enqueue_ok h
      exact Or.inr ⟨_,hnew,rfl,_,(hget new).trans (if_pos rfl)⟩
  | recoverStaleClaims => exact Or.inl rfl
  | expire => exact Or.inl rfl
  | claimBatch worker limit locked =>
    rw [World.step]
    split
    · dsimp only
      split <;> exact Or.inl rfl
    · exact Or.inl rfl
  | send worker index result =>
    rw [World.step]
    split <;> exact Or.inl rfl
  | report worker =>
    rw [World.step]
    split <;> exact Or.inl rfl
  | retry target actor =>
    rw [World.step]
    split <;> exact Or.inl rfl
  | crash worker => exact Or.inl rfl

theorem enqueued_subset {c : Credential} (h : c ∈ w.enqueued) :
    c ∈ (w.step config maxAttempts label).enqueued := by
  rcases enqueued_step config maxAttempts w label with he | ⟨_,_,he,_⟩
  · rw [he]
    exact h
  · rw [he]
    exact List.mem_cons_of_mem _ h

theorem expiredAt_step (config : MailOutboxConfig) (maxAttempts : ℕ) (w : World) (label : Label) :
    (label = .expire ∧ (w.step config maxAttempts label).expiredAt = w.db.now) ∨
    (w.step config maxAttempts label).expiredAt = w.expiredAt := by
  cases label with
  | tick millis => exact Or.inr rfl
  | enqueue started new nonce actor accountUserId recipient role password =>
    rw [World.step]
    split <;> exact Or.inr rfl
  | recoverStaleClaims => exact Or.inr rfl
  | expire => exact Or.inl ⟨rfl,rfl⟩
  | claimBatch worker limit locked =>
    rw [World.step]
    split
    · dsimp only
      split <;> exact Or.inr rfl
    · exact Or.inr rfl
  | send worker index result =>
    rw [World.step]
    split <;> exact Or.inr rfl
  | report worker =>
    rw [World.step]
    split <;> exact Or.inr rfl
  | retry target actor =>
    rw [World.step]
    split <;> exact Or.inr rfl
  | crash worker => exact Or.inr rfl

theorem kept_start (now : Timestamp) : Kept config (World.start now) where
  live := fun _ _ h => by cases h
  stored := fun _ _ h => by cases h
  erased := fun _ _ h => by cases h
  clock := Nat.zero_le _
  known := fun _ h => by cases h
  unique := List.nodup_nil

theorem expire_erases (hlive : row.secret.isSome = row.status.live)
    (hrow : w.db.outbox.get? id = some row)
    (hget : (w.step config maxAttempts .expire).db.outbox.get? id = some row')
    (hexpires : row.expiresAt ≤ w.db.now) : row'.secret = none := by
  have hafter : (w.step config maxAttempts .expire).db.outbox.get? id = _ := get?_updated hrow
  rw [hget,Option.some.injEq] at hafter
  rw [hafter]
  by_cases hl : row.status.live = true
  · rw [if_pos (by rw [hl,Bool.true_and,decide_eq_true_eq]; exact hexpires)]
    rfl
  · have hnone : row.secret = none := by
      rw [← Option.not_isSome_iff_eq_none,hlive]
      exact hl
    split
    · rfl
    · exact hnone

theorem Kept.step (h : Kept config w) (hcipher : config.cipher.Opens) (maxAttempts : ℕ) (label : Label) :
    Kept config (w.step config maxAttempts label) := by
  have hnow := step_now config maxAttempts w label
  have hclock : (w.step config maxAttempts label).expiredAt ≤ w.db.now := by
    rcases expiredAt_step config maxAttempts w label with ⟨_,he⟩ | he
    · exact he.le
    · exact he.trans_le h.clock
  constructor
  · intro id row' hget
    cases hold : w.db.outbox.get? id with
    | none =>
      obtain ⟨_,_,_,_,_,_,_,_,_,_,rfl,_⟩ := step_new hold hget
      rfl
    | some row =>
      obtain ⟨row'',hrow,hstep⟩ := step_row config maxAttempts label hold
      rw [hget] at hrow
      cases hrow
      exact hstep.live (h.live id row hold)
  · intro id row' hget secret hsecret
    cases hold : w.db.outbox.get? id with
    | none =>
      obtain ⟨_,_,_,_,_,_,password,sealed,_,hencrypt,rfl,henqueued⟩ := step_new hold hget
      cases hsecret
      refine ⟨password,?_,hcipher.decrypt hencrypt⟩
      rw [henqueued]
      exact List.mem_cons_self ..
    | some row =>
      obtain ⟨row'',hrow,hstep⟩ := step_row config maxAttempts label hold
      rw [hget] at hrow
      cases hrow
      obtain ⟨hrecipient,hrole,_,hkept | hgone⟩ := hstep.frame
      · rw [hkept] at hsecret
        obtain ⟨password,hmem,hdecrypt⟩ := h.stored id row hold secret hsecret
        rw [hrecipient,hrole]
        exact ⟨password,enqueued_subset hmem,hdecrypt⟩
      · rw [hgone] at hsecret
        cases hsecret
  · intro id row' hget hexpires
    cases hold : w.db.outbox.get? id with
    | none =>
      obtain ⟨_,_,_,_,_,_,_,_,_,_,rfl,_⟩ := step_new hold hget
      have hlater : w.db.now < w.db.now + config.lifetimeSeconds * 1000 :=
        Nat.lt_add_of_pos_right (Nat.mul_pos config.positive (by decide))
      exact absurd (hexpires.trans hclock) (Nat.not_le.mpr hlater)
    | some row =>
      obtain ⟨row'',hrow,hstep⟩ := step_row config maxAttempts label hold
      rw [hget] at hrow
      cases hrow
      obtain ⟨_,_,hsame,hsecret⟩ := hstep.frame
      rw [hsame] at hexpires
      rcases expiredAt_step config maxAttempts w label with ⟨hlabel,he⟩ | he
      · subst hlabel
        exact expire_erases (h.live id row hold) hold hget (hexpires.trans hclock)
      · rw [he] at hexpires
        have hnone := h.erased id row hold hexpires
        rcases hsecret with hs | hs
        · rw [hs,hnone]
        · exact hs
  · exact hclock.trans hnow
  · intro c hc
    have hold : ∀ {c}, c ∈ w.enqueued →
        ∃ row, (w.step config maxAttempts label).db.outbox.get? c.id = some row := by
      intro c hc
      obtain ⟨row,hrow⟩ := h.known c hc
      obtain ⟨row',hrow',_⟩ := step_row config maxAttempts label hrow
      exact ⟨row',hrow'⟩
    rcases enqueued_step config maxAttempts w label with he | ⟨new,_,he,hrow⟩
    · rw [he] at hc
      exact hold hc
    · rw [he] at hc
      rcases List.mem_cons.mp hc with rfl | hc
      · exact hrow
      · exact hold hc
  · rcases enqueued_step config maxAttempts w label with he | ⟨new,hnew,he,_⟩
    · rw [he]
      exact h.unique
    · rw [he,List.map_cons,List.nodup_cons]
      refine ⟨?_,h.unique⟩
      intro hmem
      obtain ⟨c,hc,hid⟩ := List.mem_map.mp hmem
      obtain ⟨row,hrow⟩ := h.known c hc
      rw [hid,hnew] at hrow
      cases hrow

/-! ## Claims -/

theorem mem_decodeClaims {outbox : Table Uuid EmailRow} {ids : List Uuid}
    {claims : List ClaimedCredentialEmail} (h : decodeClaims config outbox ids = .ok claims)
    {claim : ClaimedCredentialEmail} (hclaim : claim ∈ claims) :
    ∃ id row, id ∈ ids ∧ outbox.get? id = some row ∧ decodeClaim config id row = .ok claim := by
  induction ids generalizing claims with
  | nil =>
    cases h
    cases hclaim
  | cons id rest ih =>
    simp only [decodeClaims,bind_ok,require_ok,pure_ok] at h
    obtain ⟨row,hrow,first,hfirst,others,hothers,rfl⟩ := h
    rcases List.mem_cons.mp hclaim with rfl | hclaim
    · exact ⟨id,row,List.mem_cons_self ..,hrow,hfirst⟩
    · obtain ⟨id',row',hid',hrest⟩ := ih hothers hclaim
      exact ⟨id',row',List.mem_cons_of_mem _ hid',hrest⟩

theorem Kept.claimed (h : Kept config w) {limit : ℤ} {locked : List Uuid}
    {claims : List ClaimedCredentialEmail}
    (hclaims : (Mail.claimBatch config limit locked w.db).2 = .ok claims)
    {claim : ClaimedCredentialEmail} (hclaim : claim ∈ claims) :
    ∃ row, w.db.outbox.get? claim.id = some row ∧ w.db.now < row.expiresAt ∧
      claim.recipientEmail = row.recipientEmail ∧ claim.credentialRole = row.credentialRole ∧
      (⟨claim.id,claim.recipientEmail,claim.credentialRole,claim.temporaryPassword⟩ : Credential) ∈
        w.enqueued := by
  obtain ⟨id,row',hid,hrow',hdecode⟩ := mem_decodeClaims hclaims hclaim
  obtain ⟨row,hrow,hdue⟩ := mem_candidates hid
  have hsame : row' = row.claim w.db.now := by
    have hget := get?_updated (p := fun id _ => (candidates limit locked w.db).contains id)
      (f := EmailRow.claim w.db.now) hrow
    rw [if_pos (List.contains_iff_mem.mpr hid)] at hget
    exact Option.some.inj (hrow'.symm.trans hget)
  subst hsame
  simp only [decodeClaim,bind_ok,require_ok,pure_ok] at hdecode
  obtain ⟨secret,hsecret,password,hpassword,rfl⟩ := hdecode
  obtain ⟨enqueued,hmem,hdecrypt⟩ := h.stored id row hrow secret hsecret
  have hequal : password = enqueued := Except.ok.inj (hpassword.symm.trans hdecrypt)
  subst hequal
  simp only [EmailRow.due,Bool.and_eq_true,decide_eq_true_eq] at hdue
  exact ⟨row,hrow,hdue.1.2,rfl,rfl,hmem⟩

structure SecretContract (config : MailOutboxConfig) (maxAttempts : ℕ) (w : World) (ops : List Label) :
    Prop where
  live : ∀ id row, (run (World.step config maxAttempts) w ops).db.outbox.get? id = some row →
    (row.secret.isSome = true ↔ row.status = .pending ∨ row.status = .sending ∨ row.status = .failed)
  claimed : ∀ limit locked claims,
    (Mail.claimBatch config limit locked (run (World.step config maxAttempts) w ops).db).2 = .ok claims →
    ∀ claim ∈ claims, ∃ row,
      (run (World.step config maxAttempts) w ops).db.outbox.get? claim.id = some row ∧
      (run (World.step config maxAttempts) w ops).db.now < row.expiresAt ∧
      claim.recipientEmail = row.recipientEmail ∧ claim.credentialRole = row.credentialRole ∧
      (⟨claim.id,claim.recipientEmail,claim.credentialRole,claim.temporaryPassword⟩ : Credential) ∈
        (run (World.step config maxAttempts) w ops).enqueued
  enqueuedOnce : ((run (World.step config maxAttempts) w ops).enqueued.map Credential.id).Nodup
  erased : ∀ pre post, ops = pre ++ .expire :: post → ∀ id row,
    (run (World.step config maxAttempts) w ops).db.outbox.get? id = some row →
    row.expiresAt ≤ (run (World.step config maxAttempts) w pre).db.now → row.secret = none
  final : ∀ pre post, ops = pre ++ post → ∀ id row,
    (run (World.step config maxAttempts) w pre).db.outbox.get? id = some row →
    row.status = .sent ∨ row.status = .expired →
    (run (World.step config maxAttempts) w ops).db.outbox.get? id = some row

theorem run_kept (hcipher : config.cipher.Opens) (maxAttempts : ℕ) (now : Timestamp) (ops : List Label) :
    Kept config (run (World.step config maxAttempts) (World.start now) ops) :=
  run_invariant (Kept config) (fun _ label h => h.step hcipher maxAttempts label) (kept_start now) ops

theorem run_expiredAt (config : MailOutboxConfig) (maxAttempts : ℕ) (w : World)
    (hclock : w.expiredAt ≤ w.db.now) (ops : List Label) :
    w.expiredAt ≤ (run (World.step config maxAttempts) w ops).expiredAt := by
  have hrun : w.expiredAt ≤ (run (World.step config maxAttempts) w ops).expiredAt ∧
      (run (World.step config maxAttempts) w ops).expiredAt ≤
        (run (World.step config maxAttempts) w ops).db.now := by
    refine run_invariant (fun v : World => w.expiredAt ≤ v.expiredAt ∧ v.expiredAt ≤ v.db.now) ?_
      ⟨Nat.le_refl _,hclock⟩ ops
    intro v label hv
    have hnow := step_now config maxAttempts v label
    rcases expiredAt_step config maxAttempts v label with ⟨_,he⟩ | he
    · rw [he]
      exact ⟨hv.1.trans hv.2,hnow⟩
    · rw [he]
      exact ⟨hv.1,hv.2.trans hnow⟩
  exact hrun.1

/-- Every run keeps secrets exactly as long as they can be delivered, and gives each to the claims of
its own row alone. -/
theorem outbox_keeps_secrets (config : MailOutboxConfig) (hcipher : config.cipher.Opens) (maxAttempts : ℕ)
    (now : Timestamp) (ops : List Label) : SecretContract config maxAttempts (World.start now) ops := by
  have hkept := run_kept hcipher maxAttempts now ops
  refine ⟨?_,fun _ _ _ h _ hclaim => hkept.claimed h hclaim,hkept.unique,?_,?_⟩
  · intro id row hrow
    rw [hkept.live id row hrow]
    simp [EmailStatus.live,or_assoc]
  · rintro pre post rfl id row hrow hexpires
    apply hkept.erased id row hrow
    have hpre := run_kept hcipher maxAttempts now pre
    rw [run_append,run_cons]
    have hexpired := hpre.step hcipher maxAttempts .expire
    exact hexpires.trans (run_expiredAt config maxAttempts _ hexpired.clock post)
  · rintro pre post rfl id row hrow hstatus
    rw [run_append]
    refine run_invariant (fun v : World => v.db.outbox.get? id = some row) (fun v label hv => ?_) hrow post
    obtain ⟨row',hrow',hstep⟩ := step_row config maxAttempts label hv
    have hdead : row.status.live = false := by
      rcases hstatus with hs | hs <;> rw [hs] <;> rfl
    rw [hrow',hstep.final hdead]

/-! ## A sample run -/

/-- The nonce and the associated data in front of the message. -/
def sampleCipher : MailSecretCipher where
  aeadEncrypt := fun nonce message aad => some (nonce ++ aad ++ message)
  aeadDecrypt := fun nonce ciphertext aad =>
    if (nonce ++ aad).isPrefixOf ciphertext then some (ciphertext.drop (nonce ++ aad).length) else none

theorem sampleCipher_opens : sampleCipher.Opens := by
  intro nonce message aad ciphertext h
  cases h
  simp [sampleCipher]

def sampleConfig : MailOutboxConfig := ⟨sampleCipher,259200,by decide⟩

def sampleNonce : Nonce := ⟨List.replicate 12 7,rfl⟩

theorem outbox_keeps_secrets_claimed : SecretContract sampleConfig 5 (World.start 0)
    [.enqueue 0 1 sampleNonce 10 11 "student@example.edu" .student "A2bcDef3",.claimBatch 0 20 [],
      .send 0 0 (.ok ()),.report 0,.expire] :=
  outbox_keeps_secrets sampleConfig sampleCipher_opens 5 0 _

end LatexCore.Mail
