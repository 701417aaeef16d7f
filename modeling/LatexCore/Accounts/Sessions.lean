import LatexCore.Institution.Provisioning
import LatexCore.Mail.Outbox

/-! # Sessions and credentials

Logins, password changes, resets and the disabling of accounts, with each call of
the repository in one step and any other steps between two calls of a request. A
run counts the commits that revoke what a user had, keeps the count that each
login has read, and marks the letters that hold the present password of their
account.
-/
namespace LatexCore.Accounts
open Core Foundation
open Institution (Account PasswordHasher normalizedInstitutionEmail temporaryPassword)
open Mail (CredentialRole MailOutboxConfig MailOutboxError Nonce)

/-- A row of `sessions` without its key, the digest of the token. -/
structure Session where
  userId : UserId
  expiresAt : Timestamp

structure Db where
  credentials : Indexed UserId Account String (fun _ account => some account.email)
  roles : Table UserId GlobalRole
  sessions : Table Digest Session

/-- The errors of `AppError` that these calls return. -/
inductive AccountError
  | notFound | conflict | forbidden
  | database (constraint : String)
  | mail (error : MailOutboxError)

structure AppSessionRecord where
  userId : UserId
  email : String
  accountType : AccountType
  globalRole : Option GlobalRole
  mustChangePassword : Bool

/-- `auth::normalized_email` makes the checks of `normalized_institution_email`. -/
def normalizedEmail (value : String) : Option String := normalizedInstitutionEmail value

def hashPassword (hasher : PasswordHasher) (salt : List UInt8) (value : String) : Option String :=
  if 12 ≤ value.utf8ByteSize && value.utf8ByteSize ≤ 256 then hasher.hashUnchecked salt value else none

/-! ## Calls of the repository -/

def userByEmail (email : String) (db : Db) : Option (UserId × Account) :=
  db.credentials.table.rows.find? (fun r => r.2.email == email)

def createSession (now : Timestamp) (digest : Digest) (user : UserId) (expiresSeconds : ℕ) (db : Db) :
    Except AccountError Db := do
  let sessions ← require (db.sessions.insert? digest ⟨user,now + expiresSeconds * 1000⟩)
    (.database "sessions_pkey")
  pure { db with sessions := sessions }

/-- `session`: the row has not expired and its account is enabled. -/
def session (now : Timestamp) (digest : Digest) (db : Db) : Option AppSessionRecord := do
  let row ← db.sessions.get? digest
  let account ← db.credentials.get? row.userId
  if now < row.expiresAt && account.enabled then
    some ⟨row.userId,account.email,account.accountType,db.roles.get? row.userId,account.mustChangePassword⟩
  else none

def deleteSession (digest : Digest) (db : Db) : Db :=
  { db with sessions := db.sessions.deleteWhere (fun key _ => key == digest) }

/-- `DELETE FROM latex_core.sessions WHERE user_id=$1`. -/
def deleteSessions (user : UserId) (db : Db) : Db :=
  { db with sessions := db.sessions.deleteWhere (fun _ row => row.userId == user) }

def updateAccount (user : UserId) (f : Account → Account) (hf : ∀ account, (f account).email = account.email)
    (db : Db) : Db :=
  { db with
    credentials := db.credentials.updateWhere (fun key _ => key == user) f
      (fun _ account => Or.inr (congrArg some (hf account))) }

def Account.enable (enabled : Bool) (account : Account) : Account := { account with enabled := enabled }

def Account.replace (hash : String) (mustChange : Bool) (account : Account) : Account :=
  { account with
    passwordHash := hash
    mustChangePassword := mustChange }

@[simp] theorem Account.enable_email (enabled : Bool) (account : Account) :
    (Account.enable enabled account).email = account.email := rfl

@[simp] theorem Account.replace_email (hash : String) (mustChange : Bool) (account : Account) :
    (Account.replace hash mustChange account).email = account.email := rfl

def setUserEnabled (email : String) (enabled : Bool) (db : Db) : Except AccountError Db := do
  let account ← require (userByEmail email db) .notFound
  pure (deleteSessions account.1 (updateAccount account.1 (Account.enable enabled) (Account.enable_email enabled) db))

/-- `user_credentials_password_hash_nonempty`. -/
def hashFits (hash : String) : Bool := 1 ≤ hash.length && hash.length ≤ 1024

def replacePassword (user : UserId) (hash : String) (mustChange : Bool) (db : Db) : Db :=
  deleteSessions user (updateAccount user (Account.replace hash mustChange) (Account.replace_email hash mustChange) db)

def resetPassword (email hash : String) (db : Db) : Except AccountError Db := do
  let account ← require (userByEmail email db) .notFound
  ensure (hashFits hash) (.database "user_credentials_password_hash_nonempty")
  pure (replacePassword account.1 hash true db)

/-- `role.role IN ('writer','mentor')`, with the role of the letter. -/
def credentialRole : GlobalRole → Option CredentialRole
  | .writer => some .student
  | .mentor => some .mentor
  | .admin => none

/-- `reset_v2_temporary_password_inner`; without a password or a mail configuration no letter is
queued. -/
def resetV2TemporaryPasswordInner (config : MailOutboxConfig) (started : Timestamp) (id : Uuid) (nonce : Nonce)
    (actor user : UserId) (hash : String) (password : Option String) (db : Db) (mail : Mail.Db) :
    Except AccountError (Db × Mail.Db × String × Bool) := do
  let account ← require (db.credentials.get? user) .forbidden
  let role ← require ((db.roles.get? user).bind credentialRole) .forbidden
  ensure (hashFits hash) (.database "user_credentials_password_hash_nonempty")
  let db := replacePassword user hash true db
  match password with
  | none => pure (db,mail,account.email,false)
  | some password => do
    let queued ← (Mail.enqueueTemporaryCredential config started id nonce actor user account.email role password
      mail).mapError .mail
    pure (db,queued.1,account.email,true)

/-- `complete_password_change` of the repository. -/
def completePasswordChange (user : UserId) (hash : String) (db : Db) : Except AccountError Db := do
  let account ← require (db.credentials.get? user) .conflict
  ensure account.mustChangePassword .conflict
  ensure (hashFits hash) (.database "user_credentials_password_hash_nonempty")
  pure (replacePassword user hash false db)

/-! ## Requests -/

/-- Where a request stands between two calls. A login keeps the count of revocations it has read, and a
password change whether its session has been revoked since. -/
inductive Request
  | idle
  | verifying (password : String) (cookies : List Digest) (user : UserId) (account : Account) (seen : ℕ)
  | changing (cookies : List Digest) (digest : Digest) (principal : AppSessionRecord) (hash : String)
      (revoked : Bool)
  | rotating (user : UserId) (cookies : List Digest) (login : Option ℕ)
  | finished (status : ℕ)

structure World where
  db : Db
  mail : Mail.World
  requests : ℕ → Request
  /-- The resets, password changes and disablings of each user. -/
  revocations : UserId → ℕ
  /-- The count that the login of a session has read; the session of a password change has none. -/
  logins : Digest → Option ℕ
  /-- The letters that hold the password of their account. -/
  current : Uuid → Bool

/-- A part of a request up to its next call, or a call of an administrator or a mail worker. -/
inductive Label
  | login (request : ℕ) (email password : String) (cookies : List Digest)
  | verify (request : ℕ)
  | changePassword (request : ℕ) (cookies : List Digest) (newPassword confirmPassword : String)
      (salt : List UInt8)
  | commitChange (request : ℕ)
  | rotate (request : ℕ) (token : Digest)
  | resetPassword (email hash : String)
  | resetTemporary (actor user : UserId) (draw : ℕ → ℕ) (salt : List UInt8) (enqueue : Bool)
      (started : Timestamp) (id : Uuid) (nonce : Nonce)
  | setUserEnabled (email : String) (enabled : Bool)
  | mail (label : Mail.Label)

/-- The parameters of the servers and mail workers. -/
structure Settings where
  hasher : PasswordHasher
  config : MailOutboxConfig
  maxAttempts : ℕ
  sessionSeconds : ℕ

variable (settings : Settings)

def World.now (w : World) : Timestamp := w.mail.db.now

def World.setRequest (w : World) (request : ℕ) (state : Request) : World :=
  { w with requests := Function.update w.requests request state }

def Request.revoke (deleted : Digest → Bool) : Request → Request
  | .changing cookies digest principal hash revoked =>
    .changing cookies digest principal hash (revoked || deleted digest)
  | request => request

def World.revoke (w : World) (user : UserId) (db : Db) : World :=
  { w with
    db := db
    requests := fun request => (w.requests request).revoke
      (fun digest => (w.db.sessions.get? digest).any (fun row => row.userId == user))
    revocations := Function.update w.revocations user (w.revocations user + 1) }

/-- The letters of a user hold its password no more. -/
def World.outdate (w : World) (user : UserId) : World :=
  { w with current := fun id => w.current id &&
      !(w.mail.db.outbox.get? id).any (fun row => row.accountUserId == some user) }

/-- The start of `complete_password_change` up to its call of the repository. -/
def changeRequest (now : Timestamp) (cookies : List Digest) (newPassword confirmPassword : String)
    (salt : List UInt8) (db : Db) : Request :=
  match cookies with
  | [digest] =>
    match session now digest db with
    | none => .finished 401
    | some principal =>
      if !principal.mustChangePassword then .finished 409
      else if newPassword != confirmPassword then .finished 400
      else match hashPassword settings.hasher salt newPassword with
        | none => .finished 400
        | some hash => .changing cookies digest principal hash false
  | _ => .finished 401

/-- `valid_credentials` up to the verification of the password. -/
def loginRequest (email password : String) (cookies : List Digest) (revocations : UserId → ℕ) (db : Db) :
    Request :=
  match (normalizedEmail email).bind (fun email => userByEmail email db) with
  | none => .finished 401
  | some (user,account) =>
    if account.enabled then .verifying password cookies user account (revocations user) else .finished 401

/-- The rest of `valid_credentials`. -/
def verifyRequest : Request → Request
  | .verifying password cookies user account seen =>
    match settings.hasher.verifyPassword password account.passwordHash with
    | none => .finished 500
    | some false => .finished 401
    | some true => .rotating user cookies (some seen)
  | request => request

/-- A call of `create_session_headers`: the sessions of the cookies first, then the new one. -/
def World.rotate (w : World) (request : ℕ) (token : Digest) : World :=
  match w.requests request with
  | .rotating user (cookie :: cookies) login =>
    { w.setRequest request (.rotating user cookies login) with db := deleteSession cookie w.db }
  | .rotating user [] login =>
    match createSession w.now token user settings.sessionSeconds w.db with
    | .error _ => w.setRequest request (.finished 500)
    | .ok db => { w.setRequest request (.finished 201) with
        db := db
        logins := Function.update w.logins token login }
  | _ => w

def World.commitChange (w : World) (request : ℕ) : World :=
  match w.requests request with
  | .changing cookies _ principal hash _ =>
    match completePasswordChange principal.userId hash w.db with
    | .error .conflict => w.setRequest request (.finished 409)
    | .error _ => w.setRequest request (.finished 500)
    | .ok db => ((w.outdate principal.userId).revoke principal.userId db).setRequest request
        (.rotating principal.userId cookies none)
  | _ => w

def World.resetTemporary (w : World) (actor user : UserId) (draw : ℕ → ℕ) (salt : List UInt8)
    (enqueue : Bool) (started : Timestamp) (id : Uuid) (nonce : Nonce) : World :=
  let password := temporaryPassword draw
  match settings.hasher.hashTemporaryPassword salt password with
  | none => w
  | some hash =>
    match resetV2TemporaryPasswordInner settings.config started id nonce actor user hash
      (if enqueue then some password else none) w.db w.mail.db with
    | .error _ => w
    | .ok (db,mail,email,queued) =>
      let w' := (w.outdate user).revoke user db
      if queued then { w' with
        mail := { w.mail with
          db := mail
          enqueued := ⟨id,email,((w.db.roles.get? user).bind credentialRole).getD .student,password⟩ ::
            w.mail.enqueued }
        current := Function.update w'.current id true }
      else w'

def World.step (w : World) : Label → World
  | .login request email password cookies =>
    w.setRequest request (loginRequest email password cookies w.revocations w.db)
  | .verify request => w.setRequest request (verifyRequest settings (w.requests request))
  | .changePassword request cookies newPassword confirmPassword salt =>
    w.setRequest request (changeRequest settings w.now cookies newPassword confirmPassword salt w.db)
  | .commitChange request => w.commitChange request
  | .rotate request token => w.rotate settings request token
  | .resetPassword email hash =>
    match userByEmail email w.db, resetPassword email hash w.db with
    | some account, .ok db => (w.outdate account.1).revoke account.1 db
    | _, _ => w
  | .resetTemporary actor user draw salt enqueue started id nonce =>
    w.resetTemporary settings actor user draw salt enqueue started id nonce
  | .setUserEnabled email enabled =>
    match userByEmail email w.db, setUserEnabled email enabled w.db with
    | some account, .ok db => if enabled then { w with db := db } else w.revoke account.1 db
    | _, _ => w
  | .mail (.enqueue ..) => w
  | .mail label => { w with mail := w.mail.step settings.config settings.maxAttempts label }

def holdsPassword (db : Db) (id : Uuid) (row : Mail.EmailRow) : Bool :=
  match Mail.decodeClaim settings.config id row, row.accountUserId.bind db.credentials.get? with
  | .ok claim, some account =>
    settings.hasher.verifyPassword claim.temporaryPassword account.passwordHash == some true
  | _, _ => false

/-- A run starts from any database. -/
def World.start (db : Db) (mail : Mail.World) : World where
  db := db
  mail := mail
  requests := fun _ => .idle
  revocations := fun _ => 0
  logins := fun _ => some 0
  current := fun id => (mail.db.outbox.get? id).any (holdsPassword settings db id)

end LatexCore.Accounts
