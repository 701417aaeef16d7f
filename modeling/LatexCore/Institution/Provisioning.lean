import LatexCore.Core.Scan
import LatexCore.Imports.Jobs
import LatexCore.Mail.Rows
import Mathlib.Logic.Function.Basic

/-! # Accounts for imported people

An import that adds people gives an account to each of its students and faculty
whose e-mail names nobody else, first the students and then the faculty. The lock
on the credentials is held from the selection of the people to the commit, while
the people themselves may change under other imports. Argon2 is a parameter, and
so are the random draws of the credentials.
-/
namespace LatexCore.Institution
open Core Foundation
open Imports (Dataset ImportRow RowKey)
open Mail (CredentialRole MailOutboxConfig MailOutboxError Nonce)

/-! ## Temporary credentials -/

def upperAlphabet : List Char := "ABCDEFGHJKLMNPQRSTUVWXYZ".toList
def lowerAlphabet : List Char := "abcdefghijkmnopqrstuvwxyz".toList
def digits : List Char := "23456789".toList
def easyAlphabet : List Char := "ABCDEFGHJKLMNPQRSTUVWXYZabcdefghijkmnopqrstuvwxyz23456789".toList

def temporaryPasswordLength : ℕ := 8

/-- `secure_index`, with the n-th draw of the generator. -/
def secureIndex (draw : ℕ → ℕ) (n upperBound : ℕ) : ℕ := draw n % upperBound

def pick (draw : ℕ → ℕ) (n : ℕ) (alphabet : List Char) : Char :=
  alphabet.getD (secureIndex draw n alphabet.length) '2'

def swap (password : List Char) (i j : ℕ) : List Char :=
  (password.set i (password.getD j '2')).set j (password.getD i '2')

/-- `temporary_password`: one character of each kind, five of any, and a shuffle from the end. -/
def temporaryPassword (draw : ℕ → ℕ) : String :=
  let password := [pick draw 0 upperAlphabet,pick draw 1 lowerAlphabet,pick draw 2 digits,
    pick draw 3 easyAlphabet,pick draw 4 easyAlphabet,pick draw 5 easyAlphabet,
    pick draw 6 easyAlphabet,pick draw 7 easyAlphabet]
  String.ofList ([7,6,5,4,3,2,1].foldl
    (fun p index => swap p index (secureIndex draw (15 - index) (index + 1))) password)

/-- Argon2 with the salt of a hash, and the verification of a value; a hash may be malformed. -/
structure PasswordHasher where
  hashUnchecked : List UInt8 → String → Option String
  verifyPassword : String → String → Option Bool

def PasswordHasher.Verifies (hasher : PasswordHasher) : Prop :=
  ∀ salt value hash, hasher.hashUnchecked salt value = some hash →
    hasher.verifyPassword value hash = some true

def PasswordHasher.hashTemporaryPassword (hasher : PasswordHasher) (salt : List UInt8)
    (value : String) : Option String :=
  if value.utf8ByteSize = temporaryPasswordLength then hasher.hashUnchecked salt value else none

def asciiLower (text : String) : String := String.ofList (text.toList.map Char.toLower)

def normalizedInstitutionEmail (value : String) : Option String :=
  let email := asciiLower (trim value)
  if 3 ≤ email.utf8ByteSize && email.utf8ByteSize ≤ 320 && email.toList.contains '@' &&
      !email.toList.any isWhitespace
    then some email else none

/-! ## Accounts -/

/-- A row of `user_credentials` without its key, the user. -/
structure Account where
  email : String
  passwordHash : String
  enabled : Bool
  accountType : AccountType
  mustChangePassword : Bool
deriving DecidableEq

/-- The tables that provisioning writes; an account, a role and a letter belong to a user. -/
structure AccountTables where
  tenants : Table TenantId Unit
  users : Table UserId TenantId
  credentials : Indexed UserId Account String (fun _ account => some account.email)
  roles : Table UserId GlobalRole
  mail : Mail.Db
  housed : ∀ user tenant, users.get? user = some tenant → (tenants.get? tenant).isSome = true
  credentialed : ∀ user account, credentials.get? user = some account → (users.get? user).isSome = true
  ranked : ∀ user role, roles.get? user = some role → (users.get? user).isSome = true
  addressed : ∀ id row user, mail.outbox.get? id = some row → row.accountUserId = some user →
    (users.get? user).isSome = true

/-- The errors of `InstitutionError` that provisioning returns. -/
inductive ProvisioningError
  | conflict (message : String)
  | database (constraint : String)
  | mail (error : MailOutboxError)
deriving DecidableEq

theorem isSome_insert? {κ ν : Type} [DecidableEq κ] {t t' : Table κ ν} {k : κ} {v : ν}
    (h : t.insert? k v = some t') {x : κ} (hx : (t.get? x).isSome = true) :
    (t'.get? x).isSome = true := by
  rw [Table.get?_insert? h]
  split
  · rfl
  · exact hx

namespace AccountTables

/-- `INSERT INTO latex_core.tenants`. -/
def insertTenant (t : AccountTables) (tenant : TenantId) : Except ProvisioningError AccountTables :=
  match h : t.tenants.insert? tenant () with
  | none => .error (.database "tenants_pkey")
  | some tenants => .ok { t with
      tenants := tenants
      housed := fun user home hhome => isSome_insert? h (t.housed user home hhome) }

/-- `INSERT INTO latex_core.users`. -/
def insertUser (t : AccountTables) (user : UserId) (tenant : TenantId) :
    Except ProvisioningError AccountTables :=
  if ht : (t.tenants.get? tenant).isSome = true then
    match h : t.users.insert? user tenant with
    | none => .error (.database "users_pkey")
    | some users => .ok { t with
        users := users
        housed := by
          intro other home hhome
          rw [Table.get?_insert? h] at hhome
          split at hhome
          · cases hhome
            exact ht
          · exact t.housed other home hhome
        credentialed := fun other account ha => isSome_insert? h (t.credentialed other account ha)
        ranked := fun other role hr => isSome_insert? h (t.ranked other role hr)
        addressed := fun id row other hrow hother =>
          isSome_insert? h (t.addressed id row other hrow hother) }
  else .error (.database "users_tenant_id_fkey")

/-- `INSERT INTO latex_core.user_credentials`. -/
def insertCredentials (t : AccountTables) (user : UserId) (account : Account) :
    Except ProvisioningError AccountTables :=
  if 3 ≤ account.email.length ∧ account.email.length ≤ 320 ∧ 1 ≤ account.passwordHash.length ∧
      account.passwordHash.length ≤ 1024 then
    if hu : (t.users.get? user).isSome = true then
      match h : t.credentials.insert? user account with
      | none => .error (.database "user_credentials_key")
      | some credentials => .ok { t with
          credentials := credentials
          credentialed := by
            intro other a ha
            rw [(Indexed.insert?_eq_some h).2] at ha
            split at ha
            · next heq => exact heq ▸ hu
            · exact t.credentialed other a ha }
    else .error (.database "user_credentials_user_id_fkey")
  else .error (.database "user_credentials_check")

/-- `INSERT INTO latex_core.global_user_roles`. -/
def insertRole (t : AccountTables) (user : UserId) (role : GlobalRole) :
    Except ProvisioningError AccountTables :=
  if hu : (t.users.get? user).isSome = true then
    match h : t.roles.insert? user role with
    | none => .error (.database "global_user_roles_pkey")
    | some roles => .ok { t with
        roles := roles
        ranked := by
          intro other r hr
          rw [Table.get?_insert? h] at hr
          split at hr
          · next heq => exact heq ▸ hu
          · exact t.ranked other r hr }
  else .error (.database "global_user_roles_user_id_fkey")

/-- `enqueue_temporary_credential_tx` at the time of its statement. -/
def enqueue (t : AccountTables) (config : MailOutboxConfig) (started now : Timestamp) (id : Uuid)
    (nonce : Nonce) (actor user : UserId) (recipient : String) (role : CredentialRole)
    (password : String) : Except ProvisioningError AccountTables :=
  if hu : (t.users.get? user).isSome = true then
    match h : Mail.enqueueTemporaryCredential config started id nonce actor user recipient role password
        { t.mail with now := now } with
    | .error e => .error (.mail e)
    | .ok (mail,_) => .ok { t with
        mail := mail
        addressed := by
          intro k row other hrow hother
          obtain ⟨_,_,secret,_,hget,_⟩ := Mail.enqueue_ok h
          rw [hget] at hrow
          split at hrow
          · cases hrow
            cases hother
            exact hu
          · exact t.addressed k row other hrow hother }
  else .error (.mail .database)

end AccountTables

/-! ## Provisioning -/

/-- The two calls of `provision_people_rows`. -/
inductive ProvisionedPeople
  | students | faculty
deriving DecidableEq

def ProvisionedPeople.kind : ProvisionedPeople → PersonKind
  | .students => .student
  | .faculty => .faculty

def ProvisionedPeople.requiredRole (people : ProvisionedPeople) : GlobalRole := people.kind.requiredRole

def ProvisionedPeople.credentialRole : ProvisionedPeople → CredentialRole
  | .students => .student
  | .faculty => .mentor

/-- `if required_role == "mentor"`. -/
def accountTypeOf (required : GlobalRole) : AccountType :=
  if required = .mentor then .professor else .student

structure GeneratedCredential where
  email : String
  temporaryPassword : String
  credentialRole : CredentialRole
deriving DecidableEq

/-- What a row of people came to. -/
inductive Outcome
  | needsAttention
  | reused
  | created (user : UserId) (queued : Bool) (credential : GeneratedCredential)
deriving DecidableEq

def Outcome.user? : Outcome → Option UserId
  | .created user _ _ => some user
  | _ => none

structure AccountProvisioningResult where
  created : ℕ := 0
  credentialEmailsQueued : ℕ := 0
  reused : ℕ := 0
  needsAttention : ℕ := 0
  credentials : List GeneratedCredential := []
deriving DecidableEq

/-- `saturating_add(1)` of a `u64`. -/
def saturatingSucc (n : ℕ) : ℕ := min u64Max (n + 1)

def AccountProvisioningResult.add (result : AccountProvisioningResult) :
    Outcome → AccountProvisioningResult
  | .needsAttention => { result with needsAttention := saturatingSucc result.needsAttention }
  | .reused => { result with reused := saturatingSucc result.reused }
  | .created _ queued credential => { result with
      created := saturatingSucc result.created
      credentialEmailsQueued := if queued then saturatingSucc result.credentialEmailsQueued
        else result.credentialEmailsQueued
      credentials := result.credentials ++ [credential] }

structure PersonRow where
  externalId : ExternalId
  email : Option String
deriving DecidableEq

/-- The random draws for a row of people, and the time of its statements. -/
structure Draws where
  draw : ℕ → ℕ
  salt : List UInt8
  tenant : TenantId
  user : UserId
  letter : Uuid
  nonce : Nonce
  now : Timestamp

/-- The e-mails of the people of a kind, as one statement sees them. -/
abbrev People := Table ExternalId (Option String)

structure Provisioner where
  lower : String → String
  hasher : PasswordHasher
  mail : Option MailOutboxConfig

variable (p : Provisioner)

/-- `lower(btrim(email))=$1`. -/
def Provisioner.names (email value : String) : Bool := normalized p.lower value == email

/-- The people with the e-mail. -/
def Provisioner.peopleMatches (seen : People) (email : String) : ℕ :=
  seen.count (fun _ value => value.any (p.names email))

def Provisioner.accounts (t : AccountTables) (email : String) : List UserId :=
  t.credentials.table.select (fun _ account => p.names email account.email)

/-- The statements that make an account, and queue its letter if mail is configured. -/
def Provisioner.createAccount (people : ProvisionedPeople) (actor : UserId) (started : Timestamp)
    (draws : Draws) (email : String) (t : AccountTables) :
    Except ProvisioningError (AccountTables × Outcome) := do
  let password := temporaryPassword draws.draw
  let hash ← require (p.hasher.hashTemporaryPassword draws.salt password)
    (.conflict "temporary credential hashing failed")
  let t ← t.insertTenant draws.tenant
  let t ← t.insertUser draws.user draws.tenant
  let t ← t.insertCredentials draws.user ⟨email,hash,true,accountTypeOf people.requiredRole,true⟩
  let t ← t.insertRole draws.user people.requiredRole
  let credential : GeneratedCredential := ⟨email,password,people.credentialRole⟩
  match p.mail with
  | none => pure (t,.created draws.user false credential)
  | some config =>
    let t ← t.enqueue config started draws.now draws.letter draws.nonce actor draws.user email
      people.credentialRole password
    pure (t,.created draws.user true credential)

/-- One row of `provision_people_rows`, with the people that its count sees. -/
def Provisioner.provisionPerson (people : ProvisionedPeople) (actor : UserId) (started : Timestamp)
    (seen : People) (draws : Draws) (row : PersonRow) (t : AccountTables) :
    Except ProvisioningError (AccountTables × Outcome) :=
  match row.email.bind normalizedInstitutionEmail with
  | none => .ok (t,.needsAttention)
  | some email =>
    if p.peopleMatches seen email ≠ 1 then .ok (t,.needsAttention)
    else match p.accounts t email with
      | [] => p.createAccount people actor started draws email t
      | [user] => .ok (t,if t.roles.get? user = some people.requiredRole then .reused else .needsAttention)
      | _ => .ok (t,.needsAttention)

/-- `provision_people_rows` with what the statements of each row see and draw. -/
def Provisioner.provisionPeopleRows (p : Provisioner) (people : ProvisionedPeople) (actor : UserId)
    (started : Timestamp) :
    List (PersonRow × People × Draws) → AccountProvisioningResult → AccountTables →
      Except ProvisioningError (AccountTables × AccountProvisioningResult)
  | [], result, t => .ok (t,result)
  | (row,seen,draws) :: rest, result, t => do
    let (t,outcome) ← p.provisionPerson people actor started seen draws row t
    p.provisionPeopleRows people actor started rest (result.add outcome) t

end LatexCore.Institution
