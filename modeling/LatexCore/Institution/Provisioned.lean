import LatexCore.Foundation.Runs
import LatexCore.Institution.Provisioning
import LatexCore.Mail.Secrets

/-! # What provisioning creates

Against the institution that the run started from: an account that a committed
apply has created is the only one with its normalized e-mail, has the role and
the letter of its kind of people, and was made for an e-mail that one person of
the kind had. Every other user keeps account and role. The lock makes the draft
of its holder the next state of the accounts, so what holds of the draft after
each row holds of the institution after the commit.

Any number of applies run side by side, statement by statement. What an apply
writes is its own until it commits, and its statements see the committed people
under its own writes. Only the holder of the lock on the credentials provisions,
one row of people at a time.
-/
namespace LatexCore.Institution
open Core Foundation
open Imports (Dataset ImportRow RowKey)

/-! ## Runs of import applies -/

section Applies
/-- A write of `apply_table` to a person; without an e-mail column the person is deleted. -/
structure PeopleWrite where
  kind : PersonKind
  id : ExternalId
  email : Option (Option String)

def PeopleWrite.perform (write : PeopleWrite) (people : PersonKind → People) : PersonKind → People :=
  Function.update people write.kind (match write.email with
    | some email => (people write.kind).upsert write.id email
    | none => (people write.kind).deleteWhere (fun id _ => id == write.id))

structure Visited where
  people : ProvisionedPeople
  row : PersonRow
  seen : People
  outcome : Outcome

/-- What the holder of the lock has selected and done. -/
structure Provision where
  students : Option (List PersonRow)
  faculty : Option (List PersonRow)
  accounts : AccountTables
  result : AccountProvisioningResult
  visited : List Visited

/-- The mode of a job or a batch provisions: `ADD_ONLY`, and `MERGE` for a job. -/
structure Apply where
  actor : UserId
  started : Timestamp
  jobIds : List JobId
  provisions : Bool
  /-- The people it has written, oldest first. -/
  writes : List PeopleWrite
  provision : Option Provision

structure World where
  people : PersonKind → People
  rows : Table RowKey ImportRow
  accounts : AccountTables
  applies : ℕ → Option Apply
  holder : Option ℕ
  /-- The rows of people that committed applies have visited, oldest first. -/
  visited : List Visited

def World.seen (w : World) (apply : Apply) : PersonKind → People :=
  apply.writes.foldl (fun people write => write.perform people) w.people

def importNames (rows : Table RowKey ImportRow) (jobIds : List JobId) (dataset : Dataset)
    (column : String) (id : ExternalId) : Bool :=
  rows.rows.any (fun r => jobIds.contains r.1.1 && r.1.2.1 == dataset && r.2.status == .valid &&
    (r.2.payload.get? column).bind Value.asStr? == some id)

/-- The condition of the two selections. -/
def World.imported (w : World) (jobIds : List JobId) : ProvisionedPeople → ExternalId → Bool
  | .students, id => importNames w.rows jobIds .students "reg_no" id ||
      importNames w.rows jobIds .paperTeamWriters "student_reg_no" id
  | .faculty, id => importNames w.rows jobIds .paperTeamMentors "faculty_id" id

def World.selection (w : World) (apply : Apply) (people : ProvisionedPeople) : List PersonRow :=
  ((w.seen apply people.kind).rows.filter (fun r => w.imported apply.jobIds people r.1)).map
    (fun r => ⟨r.1,r.2⟩)

def Provision.next (provision : Provision) : Option (ProvisionedPeople × PersonRow × Provision) :=
  match provision.students, provision.faculty with
  | some (row :: rest), some _ => some (.students,row,{ provision with students := some rest })
  | some [], some (row :: rest) => some (.faculty,row,{ provision with faculty := some rest })
  | _, _ => none

def Provision.finished (provision : Provision) : Bool :=
  provision.students == some [] && provision.faculty == some []

/-- What an apply has left to commit. -/
def Apply.ready (apply : Apply) : Bool :=
  match apply.provision with
  | some provision => provision.finished
  | none => !apply.provisions

inductive Label
  | start (client : ℕ) (actor : UserId) (started : Timestamp) (jobIds : List JobId) (provisions : Bool)
  | write (client : ℕ) (write : PeopleWrite)
  /-- `LOCK TABLE latex_core.user_credentials`. -/
  | lock (client : ℕ)
  /-- A selection, with its rows in the order of the database. -/
  | select (client : ℕ) (people : ProvisionedPeople) (order : List PersonRow)
  | visit (client : ℕ) (draws : Draws)
  | commit (client : ℕ)
  /-- An error of any statement, or the end of the connection. -/
  | rollback (client : ℕ)
  /-- Uploads and marks change the rows of the jobs. -/
  | upload (rows : Table RowKey ImportRow)

namespace World
variable (p : Provisioner)

def setApply (w : World) (client : ℕ) (apply : Option Apply) : World :=
  { w with applies := Function.update w.applies client apply }

def setProvision (w : World) (client : ℕ) (apply : Apply) (provision : Provision) : World :=
  w.setApply client (some { apply with provision := some provision })

/-- The end of a transaction releases its lock. -/
def release (w : World) (client : ℕ) : World :=
  { w.setApply client none with holder := if w.holder = some client then none else w.holder }

def step (w : World) : Label → World
  | .start client actor started jobIds provisions =>
    if (w.applies client).isSome then w
    else w.setApply client (some ⟨actor,started,jobIds,provisions,[],none⟩)
  | .write client write =>
    match w.applies client with
    | some apply => if apply.provision.isSome then w
        else w.setApply client (some { apply with writes := apply.writes ++ [write] })
    | none => w
  | .lock client =>
    match w.applies client with
    | some apply => if apply.provisions && apply.provision.isNone && w.holder.isNone
        then { w.setProvision client apply ⟨none,none,w.accounts,{},[]⟩ with holder := some client }
        else w
    | none => w
  | .select client people order =>
    match w.applies client with
    | some apply =>
      match apply.provision with
      | some provision =>
        if order.isPerm (w.selection apply people) then
          match people with
          | .students => if provision.students.isNone
              then w.setProvision client apply { provision with students := some order } else w
          | .faculty => if provision.students.isSome && provision.faculty.isNone
              then w.setProvision client apply { provision with faculty := some order } else w
        else w
      | none => w
    | none => w
  | .visit client draws =>
    match w.applies client with
    | some apply =>
      match apply.provision.bind Provision.next with
      | some (people,row,rest) =>
        let seen := w.seen apply people.kind
        match p.provisionPerson people apply.actor apply.started seen draws row rest.accounts with
        | .ok (accounts,outcome) => w.setProvision client apply { rest with
            accounts := accounts
            result := rest.result.add outcome
            visited := rest.visited ++ [⟨people,row,seen,outcome⟩] }
        | .error _ => w.release client
      | none => w
    | none => w
  | .commit client =>
    match w.applies client with
    | some apply =>
      if apply.ready then
        let w' := { w with people := w.seen apply }
        match apply.provision with
        | some provision => release { w' with
            accounts := provision.accounts
            visited := w.visited ++ provision.visited } client
        | none => w'.release client
      else w
    | none => w
  | .rollback client => w.release client
  | .upload rows => { w with rows := rows }

/-- An institution in which no apply is running. -/
def start (people : PersonKind → People) (rows : Table RowKey ImportRow) (accounts : AccountTables) :
    World := ⟨people,rows,accounts,fun _ => none,none,[]⟩

end World

end Applies

/-! ## What provisioning creates -/

variable {p : Provisioner} {base t t' : AccountTables} {people : ProvisionedPeople} {row : PersonRow}
  {seen : People} {outcome : Outcome} {visited : List Visited}

/-! ## One account -/

namespace AccountTables
variable {user : UserId}

theorem insertTenant_ok {tenant : TenantId} (h : t.insertTenant tenant = .ok t') :
    t'.users = t.users ∧ t'.credentials = t.credentials ∧ t'.roles = t.roles ∧ t'.mail = t.mail := by
  unfold insertTenant at h
  split at h
  · cases h
  · cases h
    exact ⟨rfl,rfl,rfl,rfl⟩

theorem insertUser_ok {tenant : TenantId} (h : t.insertUser user tenant = .ok t') :
    t.users.get? user = none ∧
      (∀ u, t'.users.get? u = if u = user then some tenant else t.users.get? u) ∧
      t'.credentials = t.credentials ∧ t'.roles = t.roles ∧ t'.mail = t.mail := by
  unfold insertUser at h
  split at h
  · split at h
    · cases h
    · next users hinsert =>
      cases h
      exact ⟨(Table.insert?_eq_some hinsert).1,Table.get?_insert? hinsert,rfl,rfl,rfl⟩
  · cases h

theorem insertCredentials_ok {account : Account} (h : t.insertCredentials user account = .ok t') :
    (∀ u, t'.credentials.get? u = if u = user then some account else t.credentials.get? u) ∧
      t'.users = t.users ∧ t'.roles = t.roles ∧ t'.mail = t.mail := by
  unfold insertCredentials at h
  split at h
  · split at h
    · split at h
      · cases h
      · next credentials hinsert =>
        cases h
        exact ⟨(Indexed.insert?_eq_some hinsert).2,rfl,rfl,rfl⟩
    · cases h
  · cases h

theorem insertRole_ok {role : GlobalRole} (h : t.insertRole user role = .ok t') :
    (∀ u, t'.roles.get? u = if u = user then some role else t.roles.get? u) ∧
      t'.users = t.users ∧ t'.credentials = t.credentials ∧ t'.mail = t.mail := by
  unfold insertRole at h
  split at h
  · split at h
    · cases h
    · next roles hinsert =>
      cases h
      exact ⟨Table.get?_insert? hinsert,rfl,rfl,rfl⟩
  · cases h

theorem enqueue_ok {config : Mail.MailOutboxConfig} {started now : Timestamp} {id : Uuid}
    {nonce : Mail.Nonce} {actor : UserId} {recipient : String} {role : Mail.CredentialRole}
    {password : String}
    (h : t.enqueue config started now id nonce actor user recipient role password = .ok t') :
    t'.users = t.users ∧ t'.credentials = t.credentials ∧ t'.roles = t.roles ∧ ∃ secret,
      config.cipher.encrypt nonce id recipient role password = .ok secret ∧
      t.mail.outbox.get? id = none ∧
      ∀ k, t'.mail.outbox.get? k = if k = id then
        some (Mail.queuedRow config started user recipient role secret now)
        else t.mail.outbox.get? k := by
  unfold enqueue at h
  split at h
  · split at h
    · cases h
    · next mail new henqueue =>
      cases h
      obtain ⟨hnew,_,secret,hsecret,hget,_⟩ := Mail.enqueue_ok henqueue
      exact ⟨rfl,rfl,rfl,secret,hsecret,hnew,hget⟩
  · cases h

end AccountTables

def Lettered (config : Mail.MailOutboxConfig) (t : AccountTables) (user : UserId)
    (credential : GeneratedCredential) : Prop :=
  ∃ id letter secret, t.mail.outbox.get? id = some letter ∧ letter.accountUserId = some user ∧
    letter.recipientEmail = credential.email ∧ letter.secret = some secret ∧
    config.cipher.decrypt id letter.recipientEmail letter.credentialRole secret =
      .ok credential.temporaryPassword ∧
    ∀ other letter', t.mail.outbox.get? other = some letter' → letter'.accountUserId = some user →
      other = id

def Provisioner.Letter (p : Provisioner) (t : AccountTables) (user : UserId)
    (credential : GeneratedCredential) : Prop :=
  match p.mail with
  | some config => Lettered config t user credential
  | none => ∀ id letter, t.mail.outbox.get? id = some letter → letter.accountUserId ≠ some user

/-- What is relied on of the database and of the libraries. -/
structure Provisioner.Lawful (p : Provisioner) : Prop where
  lower : ∀ text, p.lower (p.lower text) = p.lower text
  verifies : p.hasher.Verifies
  opens : ∀ config, p.mail = some config → config.cipher.Opens

/-- A new user of `t` with the account, the role and the letter for a credential. -/
structure Opened (p : Provisioner) (people : ProvisionedPeople) (t t' : AccountTables) (user : UserId)
    (credential : GeneratedCredential) : Prop where
  fresh : t.users.get? user = none
  users : ∀ u, (t'.users.get? u).isSome = (u == user || (t.users.get? u).isSome)
  account : ∃ account, account.email = credential.email ∧ account.mustChangePassword = true ∧
    account.enabled = true ∧ account.accountType = accountTypeOf people.requiredRole ∧
    p.hasher.verifyPassword credential.temporaryPassword account.passwordHash = some true ∧
    ∀ u, t'.credentials.get? u = if u = user then some account else t.credentials.get? u
  roles : ∀ u, t'.roles.get? u = if u = user then some people.requiredRole else t.roles.get? u
  letter : p.Letter t' user credential
  letters : ∀ id letter, letter.accountUserId ≠ some user →
    (t'.mail.outbox.get? id = some letter ↔ t.mail.outbox.get? id = some letter)

theorem AccountTables.unaddressed (t : AccountTables) {user : UserId} (h : t.users.get? user = none)
    {id : Uuid} {letter : Mail.EmailRow} (hletter : t.mail.outbox.get? id = some letter) :
    letter.accountUserId ≠ some user := by
  intro huser
  have hsome := t.addressed id letter user hletter huser
  rw [h] at hsome
  cases hsome

theorem createAccount_ok (hp : p.Lawful) {actor : UserId} {started : Timestamp} {draws : Draws}
    {email : String} (h : p.createAccount people actor started draws email t = .ok (t',outcome)) :
    ∃ queued credential, outcome = .created draws.user queued credential ∧ credential.email = email ∧
      Opened p people t t' draws.user credential := by
  simp only [Provisioner.createAccount,bind_ok,require_ok] at h
  obtain ⟨hash,hhash,t₁,h₁,t₂,h₂,t₃,h₃,t₄,h₄,h⟩ := h
  obtain ⟨hu₁,hc₁,hr₁,hm₁⟩ := AccountTables.insertTenant_ok h₁
  obtain ⟨hfresh,hu₂,hc₂,hr₂,hm₂⟩ := AccountTables.insertUser_ok h₂
  obtain ⟨hc₃,hu₃,hr₃,hm₃⟩ := AccountTables.insertCredentials_ok h₃
  obtain ⟨hr₄,hu₄,hc₄,hm₄⟩ := AccountTables.insertRole_ok h₄
  rw [hu₁] at hfresh hu₂
  rw [hc₂,hc₁] at hc₃
  rw [hr₃,hr₂,hr₁] at hr₄
  have husers (u : UserId) : (t₄.users.get? u).isSome = (u == draws.user || (t.users.get? u).isSome) := by
    rw [hu₄,hu₃,hu₂]
    by_cases hu : u = draws.user <;> simp [hu]
  have hverified : p.hasher.verifyPassword (temporaryPassword draws.draw) hash = some true := by
    unfold PasswordHasher.hashTemporaryPassword at hhash
    split at hhash
    · exact hp.verifies _ _ _ hhash
    · cases hhash
  have haccount : ∃ account : Account, account.email = email ∧ account.mustChangePassword = true ∧
      account.enabled = true ∧ account.accountType = accountTypeOf people.requiredRole ∧
      p.hasher.verifyPassword (temporaryPassword draws.draw) account.passwordHash = some true ∧
      ∀ u, t₄.credentials.get? u = if u = draws.user then some account else t.credentials.get? u := by
    rw [hc₄]
    exact ⟨_,rfl,rfl,rfl,rfl,hverified,hc₃⟩
  have hmail : t₄.mail = t.mail := by rw [hm₄,hm₃,hm₂,hm₁]
  have hunaddressed : ∀ {id : Uuid} {letter : Mail.EmailRow}, t.mail.outbox.get? id = some letter →
      letter.accountUserId ≠ some draws.user := fun hletter => t.unaddressed hfresh hletter
  split at h
  · next hnone =>
    cases h
    refine ⟨_,_,rfl,rfl,hfresh,husers,haccount,hr₄,?_,?_⟩
    · simp only [Provisioner.Letter,hnone]
      intro id letter hletter
      rw [hmail] at hletter
      exact hunaddressed hletter
    · intro id letter _
      rw [hmail]
  · next config hconfig =>
    simp only [bind_ok,pure_ok,Prod.mk.injEq] at h
    obtain ⟨t₅,h₅,rfl,rfl⟩ := h
    obtain ⟨hu₅,hc₅,hr₅,secret,hsecret,hnew,hget⟩ := AccountTables.enqueue_ok h₅
    rw [hmail] at hget hnew
    refine ⟨_,_,rfl,rfl,hfresh,?_,?_,?_,?_,?_⟩
    · rw [hu₅]
      exact husers
    · rw [hc₅]
      exact haccount
    · rw [hr₅]
      exact hr₄
    · simp only [Provisioner.Letter,hconfig]
      refine ⟨draws.letter,_,secret,(hget _).trans (if_pos rfl),rfl,rfl,rfl,
        (hp.opens config hconfig).decrypt hsecret,?_⟩
      intro other letter' hother huser
      rw [hget] at hother
      split at hother
      · next heq => exact heq
      · exact absurd huser (hunaddressed hother)
    · intro id letter huser
      rw [hget]
      split
      · next heq =>
        subst heq
        rw [hnew]
        constructor
        · intro hletter
          cases hletter
          exact absurd rfl huser
        · intro hletter
          cases hletter
      · rfl

/-! ## E-mails -/

theorem dropWhile_eq_self {α : Type} {q : α → Bool} {l : List α} (h : ∀ a ∈ l, q a = false) :
    l.dropWhile q = l := by
  cases l with
  | nil => rfl
  | cons a rest => rw [List.dropWhile_cons,h a (List.mem_cons_self ..)]; rfl

/-- A text without blanks keeps its ends. -/
theorem btrim_eq_self {text : String} (h : ∀ c ∈ text.toList, (c == ' ') = false) : btrim text = text := by
  unfold btrim
  rw [dropWhile_eq_self h,dropWhile_eq_self,List.reverse_reverse,String.ofList_toList]
  intro c hc
  exact h c (List.mem_reverse.mp hc)

theorem normalizedInstitutionEmail_btrim {value email : String}
    (h : normalizedInstitutionEmail value = some email) : btrim email = email := by
  unfold normalizedInstitutionEmail at h
  generalize asciiLower (trim value) = text at h
  dsimp only at h
  split at h
  · next hvalid =>
    cases h
    apply btrim_eq_self
    intro c hc
    simp only [Bool.and_eq_true,Bool.not_eq_true'] at hvalid
    have hblank := List.any_eq_false.mp hvalid.2 c hc
    rw [beq_eq_false_iff_ne]
    rintro rfl
    exact hblank (by decide)
  · cases h

/-- One person has the e-mail. -/
def Provisioner.Unshared (p : Provisioner) (seen : People) (email : String) : Prop :=
  ∃ holder, ∀ id, (∃ value, seen.get? id = some (some value) ∧ normalized p.lower value = email) ↔
    id = holder

theorem peopleMatches_eq_one {email : String} (h : p.peopleMatches seen email = 1) :
    p.Unshared seen email := by
  unfold Provisioner.peopleMatches at h
  rw [← Table.length_select] at h
  obtain ⟨holder,hholder⟩ := List.length_eq_one_iff.mp h
  refine ⟨holder,fun id => ?_⟩
  rw [← List.mem_singleton,← hholder,Table.mem_select]
  constructor
  · rintro ⟨value,hvalue,hnames⟩
    exact ⟨some value,hvalue,by rw [Option.any_some,Provisioner.names,hnames,beq_self_eq_true]⟩
  · rintro ⟨email',hemail',hnames⟩
    obtain ⟨value,rfl,hvalue⟩ := Option.any_eq_true _ _ |>.mp hnames
    exact ⟨value,hemail',beq_iff_eq.mp hvalue⟩

/-- The e-mail of a new account is normalized. -/
theorem Provisioner.Lawful.normalized_email (hp : p.Lawful) {value email : String}
    (hvalue : normalizedInstitutionEmail value = some email) (hunshared : p.Unshared seen email) :
    normalized p.lower email = email := by
  obtain ⟨holder,hholder⟩ := hunshared
  obtain ⟨other,-,hother⟩ := (hholder holder).mpr rfl
  rw [normalized,normalizedInstitutionEmail_btrim hvalue,← hother,normalized,hp.lower]

theorem mem_accounts {email : String} {user : UserId} : user ∈ p.accounts t email ↔
    ∃ account, t.credentials.get? user = some account ∧ normalized p.lower account.email = email := by
  unfold Provisioner.accounts
  rw [Table.mem_select]
  simp only [Provisioner.names,beq_iff_eq]
  rfl

/-! ## One row of people -/

def createdUsers (visited : List Visited) : List UserId := visited.filterMap (fun v => v.outcome.user?)

/-- The row has no account to come: its e-mail is missing, shared or taken. -/
def Provisioner.Settled (p : Provisioner) (v : Visited) (t : AccountTables) : Prop :=
  ∀ email, v.row.email.bind normalizedInstitutionEmail = some email →
    p.peopleMatches v.seen email ≠ 1 ∨ ∃ user, user ∈ p.accounts t email

/-- A row either leaves the tables alone or makes an account for an e-mail that nobody shares. -/
theorem provisionPerson_ok {actor : UserId} {started : Timestamp} {draws : Draws}
    (h : p.provisionPerson people actor started seen draws row t = .ok (t',outcome)) :
    (t' = t ∧ outcome.user? = none ∧ p.Settled ⟨people,row,seen,outcome⟩ t) ∨
    ∃ email, row.email.bind normalizedInstitutionEmail = some email ∧ p.peopleMatches seen email = 1 ∧
      p.accounts t email = [] ∧ p.createAccount people actor started draws email t = .ok (t',outcome) := by
  have hsettled {outcome : Outcome} {email : String}
      (hemail : row.email.bind normalizedInstitutionEmail = some email)
      (hcase : p.peopleMatches seen email ≠ 1 ∨ ∃ user, user ∈ p.accounts t email) :
      p.Settled ⟨people,row,seen,outcome⟩ t := by
    intro email' hemail'
    rw [hemail] at hemail'
    cases hemail'
    exact hcase
  unfold Provisioner.provisionPerson at h
  split at h
  · next hnone =>
    cases h
    refine Or.inl ⟨rfl,rfl,?_⟩
    intro email hemail
    rw [hnone] at hemail
    cases hemail
  · next email hemail =>
    split at h
    · next hshared =>
      cases h
      exact Or.inl ⟨rfl,rfl,hsettled hemail (Or.inl hshared)⟩
    · next hone =>
      split at h
      · next hfree => exact Or.inr ⟨email,hemail,not_not.mp hone,hfree,h⟩
      · next user howner =>
        cases h
        refine Or.inl ⟨rfl,?_,hsettled hemail (Or.inr ⟨user,by rw [howner]; exact List.mem_cons_self ..⟩)⟩
        split <;> rfl
      · next hsome _ =>
        cases h
        exact Or.inl ⟨rfl,rfl,hsettled hemail (Or.inr (List.exists_mem_of_ne_nil _ hsome))⟩

theorem provisionPerson_settled {actor : UserId} {started : Timestamp} {draws : Draws}
    (h : p.Settled ⟨people,row,seen,outcome⟩ t) : ∃ outcome',
      p.provisionPerson people actor started seen draws row t = .ok (t,outcome') ∧
        outcome'.user? = none := by
  unfold Provisioner.provisionPerson
  split
  · exact ⟨_,rfl,rfl⟩
  · next email hemail =>
    split
    · exact ⟨_,rfl,rfl⟩
    · next hone =>
      obtain hshared | ⟨user,huser⟩ := h email hemail
      · exact absurd hshared hone
      · split
        · next hfree =>
          rw [hfree] at huser
          cases huser
        · refine ⟨_,rfl,?_⟩
          split <;> rfl
        · exact ⟨_,rfl,rfl⟩

/-! ## The tables and the rows that were visited -/

/-- A new account is complete, and the only one with its normalized e-mail. -/
structure Issued (p : Provisioner) (t : AccountTables) (people : ProvisionedPeople) (user : UserId)
    (credential : GeneratedCredential) : Prop where
  account : ∃ account, t.credentials.get? user = some account ∧ account.email = credential.email ∧
    account.mustChangePassword = true ∧ account.enabled = true ∧
    account.accountType = accountTypeOf people.requiredRole ∧
    p.hasher.verifyPassword credential.temporaryPassword account.passwordHash = some true
  alone : ∀ other account, t.credentials.get? other = some account →
    normalized p.lower account.email = normalized p.lower credential.email → other = user
  role : t.roles.get? user = some people.requiredRole
  letter : p.Letter t user credential

/-- What the tables `t` have over `base` after the visited rows. -/
structure Sound (p : Provisioner) (base t : AccountTables) (visited : List Visited) : Prop where
  users : ∀ user, (base.users.get? user).isSome = true → (t.users.get? user).isSome = true
  known : ∀ user ∈ createdUsers visited, (t.users.get? user).isSome = true
  frame : ∀ user, user ∉ createdUsers visited →
    t.credentials.get? user = base.credentials.get? user ∧ t.roles.get? user = base.roles.get? user
  distinct : (createdUsers visited).Nodup
  created : ∀ v ∈ visited, ∀ user queued credential, v.outcome = .created user queued credential →
    base.users.get? user = none ∧
    v.row.email.bind normalizedInstitutionEmail = some credential.email ∧
    p.Unshared v.seen credential.email ∧ Issued p t v.people user credential
  settled : ∀ v ∈ visited, p.Settled v t

theorem sound_start (p : Provisioner) (base : AccountTables) : Sound p base base [] where
  users := fun _ h => h
  known := fun _ h => by cases h
  frame := fun _ _ => ⟨rfl,rfl⟩
  distinct := List.nodup_nil
  created := fun _ h => by cases h
  settled := fun _ h => by cases h

theorem createdUsers_concat (visited : List Visited) (v : Visited) :
    createdUsers (visited ++ [v]) = createdUsers visited ++ v.outcome.user?.toList := by
  unfold createdUsers
  rw [List.filterMap_append]
  cases hv : v.outcome.user? <;> simp [hv]

theorem Opened.keeps_letter {user other : UserId} {credential credential' : GeneratedCredential}
    (h : Opened p people t t' user credential) (hne : other ≠ user) (hletter : p.Letter t other credential') :
    p.Letter t' other credential' := by
  have hback {id : Uuid} {letter : Mail.EmailRow} (hother : letter.accountUserId = some other) :
      t'.mail.outbox.get? id = some letter ↔ t.mail.outbox.get? id = some letter := by
    refine h.letters id letter ?_
    rw [hother]
    exact fun heq => hne (Option.some.inj heq)
  unfold Provisioner.Letter at hletter ⊢
  split
  · next config hconfig =>
    simp only [hconfig] at hletter
    obtain ⟨id,letter,secret,hget,huser,hemail,hsecret,hdecrypt,honly⟩ := hletter
    refine ⟨id,letter,secret,(hback huser).mpr hget,huser,hemail,hsecret,hdecrypt,?_⟩
    intro id' letter' hget' huser'
    exact honly id' letter' ((hback huser').mp hget') huser'
  · next hnone =>
    simp only [hnone] at hletter
    intro id letter hget huser
    exact hletter id letter ((hback huser).mp hget) huser

/-- An account is there after another one was made, and is still alone. -/
theorem Opened.keeps_issued {people' : ProvisionedPeople} {user other : UserId}
    {credential credential' : GeneratedCredential} (h : Opened p people t t' user credential)
    (hne : other ≠ user) (hdiffer : normalized p.lower credential.email ≠ normalized p.lower credential'.email)
    (hissued : Issued p t people' other credential') : Issued p t' people' other credential' := by
  obtain ⟨new,hemail,-,-,-,-,hget⟩ := h.account
  obtain ⟨account,haccount,hrest⟩ := hissued.account
  refine ⟨⟨account,?_,hrest⟩,?_,?_,h.keeps_letter hne hissued.letter⟩
  · rw [hget,if_neg hne]
    exact haccount
  · intro third a ha hnorm
    rw [hget] at ha
    split at ha
    · cases ha
      rw [hemail] at hnorm
      exact absurd hnorm hdiffer
    · exact hissued.alone third a ha hnorm
  · rw [h.roles,if_neg hne]
    exact hissued.role

/-- An e-mail that was taken stays taken. -/
theorem Opened.keeps_owner {user owner : UserId} {credential : GeneratedCredential} {email : String}
    (h : Opened p people t t' user credential) (howner : owner ∈ p.accounts t email) :
    owner ∈ p.accounts t' email := by
  obtain ⟨new,-,-,-,-,-,hget⟩ := h.account
  obtain ⟨account,haccount,hnorm⟩ := mem_accounts.mp howner
  refine mem_accounts.mpr ⟨account,?_,hnorm⟩
  rw [hget,if_neg]
  · exact haccount
  · rintro rfl
    have hsome := t.credentialed _ account haccount
    rw [h.fresh] at hsome
    cases hsome

theorem Sound.visit (hp : p.Lawful) (h : Sound p base t visited) {actor : UserId} {started : Timestamp}
    {draws : Draws} (hrow : p.provisionPerson people actor started seen draws row t = .ok (t',outcome)) :
    Sound p base t' (visited ++ [⟨people,row,seen,outcome⟩]) := by
  obtain ⟨rfl,hnone,hsettled⟩ | ⟨email,hemail,hone,hfree,hcreate⟩ := provisionPerson_ok hrow
  · have hsame : createdUsers (visited ++ [⟨people,row,seen,outcome⟩]) = createdUsers visited := by
      rw [createdUsers_concat,hnone,Option.toList_none,List.append_nil]
    refine ⟨h.users,hsame ▸ h.known,hsame ▸ h.frame,hsame ▸ h.distinct,?_,?_⟩
    · intro v hv user queued credential hv'
      obtain hv | hv := List.mem_append.mp hv
      · exact h.created v hv user queued credential hv'
      · cases List.mem_singleton.mp hv
        dsimp only at hv'
        subst hv'
        cases hnone
    · intro v hv
      obtain hv | hv := List.mem_append.mp hv
      · exact h.settled v hv
      · cases List.mem_singleton.mp hv
        exact hsettled
  · obtain ⟨queued,credential,rfl,rfl,hopened⟩ := createAccount_ok hp hcreate
    have hlist : createdUsers (visited ++ [⟨people,row,seen,.created draws.user queued credential⟩]) =
        createdUsers visited ++ [draws.user] := by
      rw [createdUsers_concat]
      rfl
    have hunshared := peopleMatches_eq_one hone
    have hnormal : normalized p.lower credential.email = credential.email := by
      obtain ⟨value,-,hvalue⟩ := Option.bind_eq_some_iff.mp hemail
      exact hp.normalized_email hvalue hunshared
    have hnew (user : UserId) (huser : (t.users.get? user).isSome = true) : user ≠ draws.user := by
      rintro rfl
      rw [hopened.fresh] at huser
      cases huser
    have hnobody (other : UserId) (account : Account) (ha : t.credentials.get? other = some account) :
        normalized p.lower account.email ≠ normalized p.lower credential.email := by
      rw [hnormal]
      intro hnorm
      have hmem := mem_accounts.mpr ⟨account,ha,hnorm⟩
      rw [hfree] at hmem
      cases hmem
    obtain ⟨account,haemail,hmust,henabled,htype,hverified,hget⟩ := hopened.account
    constructor
    · intro user huser
      rw [hopened.users,h.users user huser,Bool.or_true]
    · intro user huser
      rw [hlist,List.mem_append,List.mem_singleton] at huser
      rw [hopened.users]
      obtain huser | rfl := huser
      · rw [h.known user huser,Bool.or_true]
      · rw [beq_self_eq_true,Bool.true_or]
    · intro user huser
      rw [hlist,List.mem_append,List.mem_singleton,not_or] at huser
      rw [hget,hopened.roles,if_neg huser.2,if_neg huser.2]
      exact h.frame user huser.1
    · rw [hlist,List.nodup_append]
      refine ⟨h.distinct,List.nodup_singleton _,?_⟩
      intro user huser other hother
      rw [List.mem_singleton] at hother
      exact hother ▸ hnew user (h.known user huser)
    · intro v hv user queued' credential' hv'
      obtain hv | hv := List.mem_append.mp hv
      · obtain ⟨hbase,hrow',hunshared',hissued⟩ := h.created v hv user queued' credential' hv'
        have huser : user ∈ createdUsers visited :=
          List.mem_filterMap.mpr ⟨v,hv,by rw [hv']; rfl⟩
        obtain ⟨account',haccount',hemail',-⟩ := hissued.account
        refine ⟨hbase,hrow',hunshared',hopened.keeps_issued (hnew user (h.known user huser)) ?_ hissued⟩
        rw [← hemail']
        exact (hnobody user account' haccount').symm
      · cases List.mem_singleton.mp hv
        cases hv'
        have hbase : base.users.get? draws.user = none := by
          rw [← Option.not_isSome_iff_eq_none]
          exact fun hsome => hnew _ (h.users _ hsome) rfl
        refine ⟨hbase,hemail,hunshared,⟨account,?_,haemail,hmust,henabled,htype,hverified⟩,?_,?_,
          hopened.letter⟩
        · rw [hget,if_pos rfl]
        · intro other a ha hnorm
          rw [hget] at ha
          split at ha
          · next heq => exact heq
          · exact absurd hnorm (hnobody other a ha)
        · rw [hopened.roles,if_pos rfl]
    · intro v hv email' hemail'
      obtain hv | hv := List.mem_append.mp hv
      · exact (h.settled v hv email' hemail').imp_right (fun ⟨owner,howner⟩ => ⟨owner,hopened.keeps_owner howner⟩)
      · cases List.mem_singleton.mp hv
        rw [hemail] at hemail'
        cases hemail'
        refine Or.inr ⟨draws.user,mem_accounts.mpr ⟨account,?_,?_⟩⟩
        · rw [hget,if_pos rfl]
        · rw [haemail,hnormal]

end LatexCore.Institution
