import LatexCore.Core.Types
import LatexCore.Foundation.Table
import LatexCore.Foundation.Transaction
import LatexCore.Foundation.Runs
import Mathlib.Logic.Function.Basic

/-! # The outbox of temporary credentials

A row of the outbox keeps the encrypted password of a new account until it has
been sent or has expired. Each statement changes the rows that meet its guard.
The authenticated encryption is a parameter: what the rows store is what it
seals, with the row's id, recipient and role as associated data.

Any number of workers claim batches, send what they have claimed and report the
outcome of each delivery, beside the maintenance of the outbox, new credentials
and retries. A worker may vanish at any moment with what it holds. The run keeps
what has been enqueued, handed to workers and retried, and the time of the last
expiry.
-/
namespace LatexCore.Mail
open Core Foundation

inductive MailOutboxError
  | encryption | decryption | database | notFound | payloadUnavailable
deriving DecidableEq

inductive CredentialRole
  | student | mentor
deriving DecidableEq

def CredentialRole.text : CredentialRole → String
  | .student => "student"
  | .mentor => "mentor"

/-! ## Secrets -/

/-- AES-GCM under the key of the configuration: a nonce, a message and associated data. -/
structure MailSecretCipher where
  aeadEncrypt : List UInt8 → List UInt8 → List UInt8 → Option (List UInt8)
  aeadDecrypt : List UInt8 → List UInt8 → List UInt8 → Option (List UInt8)

/-- What was sealed is unsealed under the same nonce and associated data. -/
def MailSecretCipher.Opens (cipher : MailSecretCipher) : Prop :=
  ∀ nonce message aad ciphertext, cipher.aeadEncrypt nonce message aad = some ciphertext →
    cipher.aeadDecrypt nonce ciphertext aad = some message

def nonceLength : ℕ := 12

/-- A random nonce of `encrypt`. -/
abbrev Nonce := { bytes : List UInt8 // bytes.length = nonceLength }

structure Secret where
  ciphertext : List UInt8
  nonce : List UInt8
deriving DecidableEq

def utf8 (text : String) : List UInt8 := text.toUTF8.data.toList

def fromUtf8? (bytes : List UInt8) : Option String := String.fromUTF8? ⟨bytes.toArray⟩

def associatedData (id : Uuid) (recipient : String) (role : CredentialRole) : List UInt8 :=
  utf8 s!"latex-core:temporary-credential:{uuidText id}:{recipient}:{role.text}"

def MailSecretCipher.encrypt (cipher : MailSecretCipher) (nonce : Nonce) (id : Uuid)
    (recipient : String) (role : CredentialRole) (plaintext : String) : Except MailOutboxError Secret := do
  let ciphertext ← require (cipher.aeadEncrypt nonce.1 (utf8 plaintext) (associatedData id recipient role))
    .encryption
  pure ⟨ciphertext,nonce.1⟩

def MailSecretCipher.decrypt (cipher : MailSecretCipher) (id : Uuid) (recipient : String)
    (role : CredentialRole) (secret : Secret) : Except MailOutboxError String := do
  ensure (secret.nonce.length == nonceLength) .decryption
  let plaintext ← require (cipher.aeadDecrypt secret.nonce secret.ciphertext (associatedData id recipient role))
    .decryption
  require (fromUtf8? plaintext) .decryption

@[simp] theorem fromUtf8?_utf8 (text : String) : fromUtf8? (utf8 text) = some text := by
  simp only [fromUtf8?,utf8,String.toUTF8_eq_toByteArray,Array.toArray_toList]
  rw [String.fromUTF8?,dif_pos text.isValidUTF8]
  rfl

theorem MailSecretCipher.Opens.decrypt {cipher : MailSecretCipher} (h : cipher.Opens)
    {nonce : Nonce} {id : Uuid} {recipient : String} {role : CredentialRole} {plaintext : String} {secret : Secret}
    (hencrypt : cipher.encrypt nonce id recipient role plaintext = .ok secret) :
    cipher.decrypt id recipient role secret = .ok plaintext := by
  simp only [MailSecretCipher.encrypt,bind_ok,require_ok,pure_ok] at hencrypt
  obtain ⟨ciphertext,hseal,rfl⟩ := hencrypt
  simp only [MailSecretCipher.decrypt,bind_ok,ensure_ok,require_ok,beq_iff_eq]
  exact ⟨(),nonce.2,_,h _ _ _ _ hseal,fromUtf8?_utf8 plaintext⟩

structure MailOutboxConfig where
  cipher : MailSecretCipher
  lifetimeSeconds : ℕ
  positive : 0 < lifetimeSeconds

/-! ## Rows -/

inductive EmailStatus
  | pending | sending | sent | failed | expired
deriving DecidableEq

/-- A row of `email_outbox`; the check `email_outbox_secret_pair` makes ciphertext and nonce one
column. -/
structure EmailRow where
  recipientEmail : String
  accountUserId : Option UserId
  credentialRole : CredentialRole
  status : EmailStatus
  attempts : ℕ
  nextAttemptAt : Timestamp
  claimedAt : Option Timestamp
  lastError : Option String
  secret : Option Secret
  createdAt : Timestamp
  sentAt : Option Timestamp
  expiresAt : Timestamp

inductive AuditKind
  | queued | sent | failed | retried
deriving DecidableEq

/-- An event of the outbox in `audit_events`. -/
structure AuditEvent where
  actor : Option UserId
  kind : AuditKind
  resourceId : Uuid
  userId : Option UserId
  attempt : Option ℕ
  errorCategory : Option String
deriving DecidableEq

structure Db where
  now : Timestamp
  outbox : Table Uuid EmailRow
  /-- The audit events, oldest first. -/
  audits : List AuditEvent

def queuedRow (config : MailOutboxConfig) (started : Timestamp) (accountUserId : UserId)
    (recipient : String) (credentialRole : CredentialRole) (secret : Secret) (now : Timestamp) : EmailRow where
  recipientEmail := recipient
  accountUserId := some accountUserId
  credentialRole := credentialRole
  status := .pending
  attempts := 0
  nextAttemptAt := started
  claimedAt := none
  lastError := none
  secret := some secret
  createdAt := started
  sentAt := none
  expiresAt := now + config.lifetimeSeconds * 1000

/-- `enqueue_temporary_credential_tx` of a transaction that started at the given time. -/
def enqueueTemporaryCredential (config : MailOutboxConfig) (started : Timestamp) (id : Uuid)
    (nonce : Nonce) (actor accountUserId : UserId) (recipient : String)
    (credentialRole : CredentialRole) (temporaryPassword : String) (db : Db) :
    Except MailOutboxError (Db × Uuid) := do
  let secret ← config.cipher.encrypt nonce id recipient credentialRole temporaryPassword
  ensure (3 ≤ recipient.length && recipient.length ≤ 320) .database
  let outbox ← require (db.outbox.insert? id (queuedRow config started accountUserId recipient
    credentialRole secret db.now)) .database
  pure ({ db with
    outbox := outbox
    audits := db.audits ++ [⟨some actor,.queued,id,some accountUserId,none,none⟩] },id)

/-! ## Claims -/

structure ClaimedCredentialEmail where
  id : Uuid
  recipientEmail : String
  accountUserId : Option UserId
  credentialRole : CredentialRole
  temporaryPassword : String
  attempt : ℕ
deriving DecidableEq

/-- `interval '10 minutes'`. -/
def staleMillis : ℕ := 600000

def EmailRow.stale (row : EmailRow) (now : Timestamp) : Bool :=
  row.status == .sending && row.claimedAt.any (fun claimed => claimed + staleMillis < now)

def EmailRow.release (now : Timestamp) (row : EmailRow) : EmailRow :=
  { row with
    status := .pending
    claimedAt := none
    nextAttemptAt := now }

/-- `recover_stale_claims`, and `recover_stale_credential_email_claims` without the key. -/
def recoverStaleClaims (db : Db) : Db :=
  { db with
    outbox := db.outbox.updateWhere (fun _ row => row.stale db.now) (EmailRow.release db.now) }

/-- `status IN ('PENDING','SENDING','FAILED')`. -/
def EmailStatus.live (status : EmailStatus) : Bool :=
  status == .pending || status == .sending || status == .failed

def EmailRow.expire (row : EmailRow) : EmailRow :=
  { row with
    status := .expired
    secret := none
    claimedAt := none
    lastError := some "credential delivery expired" }

/-- `expire`, and `expire_credential_email_payloads` without the key. -/
def expire (db : Db) : Db :=
  { db with
    outbox := db.outbox.updateWhere (fun _ row => row.status.live && row.expiresAt ≤ db.now)
      EmailRow.expire }

def EmailRow.due (row : EmailRow) (now : Timestamp) : Bool :=
  row.status == .pending && row.nextAttemptAt ≤ now && now < row.expiresAt && row.secret.isSome

/-- `ORDER BY next_attempt_at,created_at,id`. -/
def claimBefore (a b : Uuid × EmailRow) : Bool :=
  a.2.nextAttemptAt < b.2.nextAttemptAt || (a.2.nextAttemptAt == b.2.nextAttemptAt &&
    (a.2.createdAt < b.2.createdAt || (a.2.createdAt == b.2.createdAt && a.1 ≤ b.1)))

/-- The rows that a claim selects, those that other transactions have locked left out. -/
def candidates (limit : ℤ) (locked : List Uuid) (db : Db) : List Uuid :=
  (((db.outbox.rows.filter (fun r => r.2.due db.now && !locked.contains r.1)).mergeSort claimBefore).map
    Prod.fst).take (max 1 (min 100 limit)).toNat

def EmailRow.claim (now : Timestamp) (row : EmailRow) : EmailRow :=
  { row with
    status := .sending
    attempts := row.attempts + 1
    claimedAt := some now
    lastError := none }

/-- `decode_claim`; a row without a secret does not decode. -/
def decodeClaim (config : MailOutboxConfig) (id : Uuid) (row : EmailRow) :
    Except MailOutboxError ClaimedCredentialEmail := do
  let secret ← require row.secret .database
  let password ← config.cipher.decrypt id row.recipientEmail row.credentialRole secret
  pure ⟨id,row.recipientEmail,row.accountUserId,row.credentialRole,password,row.attempts⟩

def decodeClaims (config : MailOutboxConfig) (outbox : Table Uuid EmailRow) :
    List Uuid → Except MailOutboxError (List ClaimedCredentialEmail)
  | [] => .ok []
  | id :: rest => do
    let row ← require (outbox.get? id) .database
    let claim ← decodeClaim config id row
    let claims ← decodeClaims config outbox rest
    pure (claim :: claims)

/-- `claim_batch`: the statement commits whatever decoding makes of its rows. -/
def claimBatch (config : MailOutboxConfig) (limit : ℤ) (locked : List Uuid) (db : Db) :
    Db × Except MailOutboxError (List ClaimedCredentialEmail) :=
  let ids := candidates limit locked db
  let outbox := db.outbox.updateWhere (fun id _ => ids.contains id) (EmailRow.claim db.now)
  ({ db with outbox := outbox },decodeClaims config outbox ids)

/-! ## Completion -/

def auditDelivery (delivery : ClaimedCredentialEmail) (kind : AuditKind) (category : Option String)
    (db : Db) : Db :=
  { db with
    audits := db.audits ++ [⟨none,kind,delivery.id,delivery.accountUserId,some delivery.attempt,category⟩] }

/-- `id=$1 AND status='SENDING'`. -/
def ClaimedCredentialEmail.matches (delivery : ClaimedCredentialEmail) (id : Uuid) (row : EmailRow) : Bool :=
  id == delivery.id && row.status == .sending

def EmailRow.markSent (now : Timestamp) (row : EmailRow) : EmailRow :=
  { row with
    status := .sent
    sentAt := some now
    claimedAt := none
    lastError := none
    secret := none }

def markSent (delivery : ClaimedCredentialEmail) (db : Db) : Db :=
  auditDelivery delivery .sent none { db with
    outbox := db.outbox.updateWhere delivery.matches (EmailRow.markSent db.now) }

def retryDelaySeconds : ℕ → ℕ
  | 0 | 1 => 60
  | 2 => 5 * 60
  | 3 => 15 * 60
  | _ => 60 * 60

def EmailRow.markFailed (again : Bool) (category : String) (next : Timestamp) (row : EmailRow) : EmailRow :=
  { row with
    status := if again then .pending else .failed
    claimedAt := none
    lastError := some category
    nextAttemptAt := next }

def markFailed (maxAttempts : ℕ) (delivery : ClaimedCredentialEmail) (transient : Bool)
    (category : String) (db : Db) : Db :=
  let again := transient && delivery.attempt < maxAttempts
  let db := { db with
    outbox := db.outbox.updateWhere delivery.matches
      (EmailRow.markFailed again category (db.now + retryDelaySeconds delivery.attempt * 1000)) }
  if again then db else auditDelivery delivery .failed (some category) db

def EmailRow.retryable (row : EmailRow) (now : Timestamp) : Bool :=
  row.status == .failed && now < row.expiresAt && row.secret.isSome

def EmailRow.retry (now : Timestamp) (row : EmailRow) : EmailRow :=
  { row with
    status := .pending
    nextAttemptAt := now
    lastError := none }

def retry (id : Uuid) (actor : UserId) (db : Db) : Except MailOutboxError (Db × Unit) := do
  let row ← require (db.outbox.get? id) .notFound
  ensure (row.retryable db.now) .payloadUnavailable
  let userId ← require row.accountUserId .payloadUnavailable
  pure ({ db with
    outbox := db.outbox.modify id (EmailRow.retry db.now)
    audits := db.audits ++ [⟨some actor,.retried,id,some userId,none,none⟩] },())

/-! ## Workers -/

inductive MailFailure
  | transient | permanent
deriving DecidableEq

def MailFailure.category : MailFailure → String
  | .transient => "smtp_transient"
  | .permanent => "smtp_permanent"

structure MailWorker where
  deliveries : List ClaimedCredentialEmail
  sent : Option (ClaimedCredentialEmail × Except MailFailure Unit)

def MailWorker.idle : MailWorker := ⟨[],none⟩

def MailWorker.isIdle (worker : MailWorker) : Bool := worker.deliveries.isEmpty && worker.sent.isNone

structure Credential where
  id : Uuid
  recipient : String
  role : CredentialRole
  password : String
deriving DecidableEq

structure World where
  db : Db
  workers : ℕ → MailWorker
  enqueued : List Credential
  handed : List ClaimedCredentialEmail
  retried : List Uuid
  expiredAt : Timestamp

inductive Label
  | tick (millis : ℕ)
  | enqueue (started : Timestamp) (id : Uuid) (nonce : Nonce) (actor accountUserId : UserId)
      (recipient : String) (role : CredentialRole) (password : String)
  | recoverStaleClaims
  | expire
  | claimBatch (worker : ℕ) (limit : ℤ) (locked : List Uuid)
  | send (worker index : ℕ) (result : Except MailFailure Unit)
  | report (worker : ℕ)
  | retry (id : Uuid) (actor : UserId)
  | crash (worker : ℕ)

variable (config : MailOutboxConfig) (maxAttempts : ℕ)

/-- `mark_sent` or `mark_failed`, as the transport has answered. -/
def reportDelivery (delivery : ClaimedCredentialEmail) : Except MailFailure Unit → Db → Db
  | .ok _ => markSent delivery
  | .error failure => markFailed maxAttempts delivery (failure == .transient) failure.category

def World.setWorker (w : World) (worker : ℕ) (state : MailWorker) : World :=
  { w with workers := Function.update w.workers worker state }

def World.step (w : World) : Label → World
  | .tick millis => { w with db := { w.db with now := w.db.now + millis } }
  | .enqueue started id nonce actor accountUserId recipient role password =>
    match enqueueTemporaryCredential config started id nonce actor accountUserId recipient role password
      w.db with
    | .error _ => w
    | .ok (db,_) => { w with
        db := db
        enqueued := ⟨id,recipient,role,password⟩ :: w.enqueued }
  | .recoverStaleClaims => { w with db := recoverStaleClaims w.db }
  | .expire => { w with
      db := Mail.expire w.db
      expiredAt := w.db.now }
  | .claimBatch worker limit locked =>
    if (w.workers worker).isIdle then
      let claim := claimBatch config limit locked w.db
      match claim.2 with
      | .error _ => { w with db := claim.1 }
      | .ok deliveries => { w.setWorker worker ⟨deliveries,none⟩ with
          db := claim.1
          handed := w.handed ++ deliveries }
    else w
  | .send worker index result =>
    match (w.workers worker).sent, (w.workers worker).deliveries[index]? with
    | none, some delivery =>
      w.setWorker worker ⟨(w.workers worker).deliveries.eraseIdx index,some (delivery,result)⟩
    | _, _ => w
  | .report worker =>
    match (w.workers worker).sent with
    | none => w
    | some (delivery,result) =>
      { w.setWorker worker ⟨(w.workers worker).deliveries,none⟩ with
        db := reportDelivery maxAttempts delivery result w.db }
  | .retry id actor =>
    match Mail.retry id actor w.db with
    | .error _ => w
    | .ok (db,_) => { w with
        db := db
        retried := id :: w.retried }
  | .crash worker => w.setWorker worker .idle

def World.start (now : Timestamp) : World where
  db := ⟨now,.empty,[]⟩
  workers := fun _ => .idle
  enqueued := []
  handed := []
  retried := []
  expiredAt := 0

end LatexCore.Mail
