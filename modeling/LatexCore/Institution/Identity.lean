import LatexCore.Core.Types
import LatexCore.Foundation.Transaction
import LatexCore.Foundation.UpsertInOrder

/-! # Reconciliation of the identity links

Students, faculty and admins of the institution are linked to accounts by their
normalized e-mail. One statement for each kind of person rewrites all links that
were not made by hand; it visits the people in an order of the planner and meets
the unique index on the user after each of them.
-/
namespace LatexCore.Institution
open Core Foundation

/-- The key of a person: a `reg_no`, a `faculty_id` or an `admin_id`. -/
abbrev ExternalId := String

inductive PersonKind
  | student | faculty | admin
deriving DecidableEq

def PersonKind.requiredRole : PersonKind → GlobalRole
  | .student => .writer
  | .faculty => .mentor
  | .admin => .admin

def PersonKind.peopleTable : PersonKind → String
  | .student => "students"
  | .faculty => "faculty"
  | .admin => "admins"

def PersonKind.linksTable : PersonKind → String
  | .student => "student_user_links"
  | .faculty => "faculty_user_links"
  | .admin => "admin_user_links"

inductive LinkStatus
  | linked | unlinked | ambiguous | roleIncompatible
deriving DecidableEq

/-- The check `user_links_shape`. -/
def linkShape (status : LinkStatus) (userId : Option UserId) (linkedAt : Option Timestamp) : Bool :=
  (status == .linked && userId.isSome && linkedAt.isSome) ||
    (status != .linked && userId.isNone && linkedAt.isNone)

/-- A row of a link table without its key, the person. -/
structure UserLink where
  userId : Option UserId
  matchMethod : Option String
  status : LinkStatus
  linkedAt : Option Timestamp
  shaped : linkShape status userId linkedAt = true
deriving DecidableEq

def UserLink.manual (link : UserLink) : Bool := link.matchMethod == some "MANUAL"

abbrev UserLinks := Indexed ExternalId UserLink UserId (fun _ link => link.userId)

structure IdentityDb where
  /-- The e-mails of `user_credentials`. -/
  accounts : Table UserId String
  roles : Table UserId GlobalRole
  /-- The e-mails of the people of a kind. -/
  people : PersonKind → Table ExternalId (Option String)
  links : PersonKind → UserLinks
  /-- A link belongs to a person. -/
  owned : ∀ kind id link, (links kind).get? id = some link → ((people kind).get? id).isSome = true

def btrim (text : String) : String :=
  String.ofList (((text.toList.dropWhile (· == ' ')).reverse.dropWhile (· == ' ')).reverse)

/-- The row that the statement selects for a person, who is one of those with its e-mail. -/
structure Candidate where
  userId : Option UserId
  accountMatches : ℕ
  role : Option GlobalRole
  peopleMatches : ℕ
  matched : accountMatches = 1 → userId.isSome = true
  counted : 0 < peopleMatches

namespace Candidate

/-- `CASE WHEN matches=1 AND people_matches=1 AND role=$1 THEN user_id END`. -/
def linkedUser (c : Candidate) (required : GlobalRole) : Option UserId :=
  if c.accountMatches = 1 ∧ c.peopleMatches = 1 ∧ c.role = some required then c.userId else none

def status (c : Candidate) (required : GlobalRole) : LinkStatus :=
  if c.accountMatches = 0 then .unlinked
  else if 1 < c.accountMatches ∨ 1 < c.peopleMatches then .ambiguous
  else if c.role ≠ some required then .roleIncompatible
  else .linked

def linkedAt (c : Candidate) (required : GlobalRole) (now : Timestamp) : Option Timestamp :=
  if c.accountMatches = 1 ∧ c.peopleMatches = 1 ∧ c.role = some required then some now else none

theorem status_linked (c : Candidate) (required : GlobalRole) : c.status required = .linked ↔
    c.accountMatches = 1 ∧ c.peopleMatches = 1 ∧ c.role = some required := by
  have hcounted := c.counted
  unfold status
  split
  · next hzero => simp [hzero]
  · next hzero =>
    split
    · next hmany =>
      simp only [reduceCtorEq,false_iff]
      rintro ⟨hone,hpeople,-⟩
      omega
    · next hfew =>
      have hone : c.accountMatches = 1 := by omega
      have hpeople : c.peopleMatches = 1 := by omega
      by_cases hrole : c.role = some required
      · simp [hone,hpeople,hrole]
      · simp [hrole]

theorem shaped (c : Candidate) (required : GlobalRole) (now : Timestamp) :
    linkShape (c.status required) (c.linkedUser required) (c.linkedAt required now) = true := by
  have hstatus := c.status_linked required
  unfold linkShape linkedUser linkedAt
  by_cases h : c.accountMatches = 1 ∧ c.peopleMatches = 1 ∧ c.role = some required
  · simp [hstatus.mpr h,h.1,h.2,c.matched h.1]
  · have hnot : c.status required ≠ .linked := fun heq => h (hstatus.mp heq)
    simp [hnot,h]

/-- The link that the statement writes. -/
def link (c : Candidate) (required : GlobalRole) (now : Timestamp) : UserLink where
  userId := c.linkedUser required
  matchMethod := some "NORMALIZED_EMAIL"
  status := c.status required
  linkedAt := c.linkedAt required now
  shaped := c.shaped required now

end Candidate

section
variable (lower : String → String) (db : IdentityDb)

/-- `lower(btrim(email))`. -/
def normalized (email : String) : String := lower (btrim email)

def accountsOf (email : Option String) : List UserId :=
  db.accounts.select (fun _ e => email.any (fun p => normalized lower e == normalized lower p))

def peopleMatches (kind : PersonKind) (email : Option String) : ℕ :=
  (db.people kind).count (fun _ e => e.map (normalized lower) == email.map (normalized lower))

def candidate (kind : PersonKind) (id : ExternalId) (email : Option String)
    (h : (db.people kind).get? id = some email) : Candidate where
  userId := (accountsOf lower db email).min?
  accountMatches := (accountsOf lower db email).length
  role := (accountsOf lower db email).min?.bind db.roles.get?
  peopleMatches := peopleMatches lower db kind email
  matched := by
    intro hone
    obtain ⟨u,hu⟩ := List.length_eq_one_iff.mp hone
    rw [hu]
    rfl
  counted := by
    rw [Nat.pos_iff_ne_zero]
    intro hzero
    have hnone := Table.count_eq_zero.mp hzero id email h
    simp at hnone

def computedLink (kind : PersonKind) (now : Timestamp) (id : ExternalId) : UserLink :=
  match h : (db.people kind).get? id with
  | some email => (candidate lower db kind id email h).link kind.requiredRole now
  | none => ⟨none,some "NORMALIZED_EMAIL",.unlinked,none,rfl⟩

end

inductive InstitutionError
  | invalidInput (message : String)
  | notFound
  | conflict (message : String)
  | database (constraint : String)
deriving DecidableEq

/-- For each kind the people in the order in which the planner makes the statement visit them. -/
structure Plan (db : IdentityDb) where
  visits : PersonKind → List ExternalId
  people : ∀ kind, (visits kind).Perm (db.people kind).keys

/-- The statement for one kind of people. -/
def reconcileTable (lower : String → String) (db : IdentityDb) (plan : Plan db) (now : Timestamp)
    (kind : PersonKind) : Except InstitutionError UserLinks :=
  require (Indexed.upsertEach? UserLink.manual (computedLink lower db kind now) (plan.visits kind)
    (db.links kind)) (.database (kind.linksTable ++ "_user_id_key"))

theorem reconcileTable_ok {lower : String → String} {db : IdentityDb} {plan : Plan db}
    {now : Timestamp} {kind : PersonKind} {links : UserLinks} :
    reconcileTable lower db plan now kind = .ok links ↔
      Indexed.upsertEach? UserLink.manual (computedLink lower db kind now) (plan.visits kind)
        (db.links kind) = some links := require_ok

theorem Plan.nodup {db : IdentityDb} (plan : Plan db) (kind : PersonKind) : (plan.visits kind).Nodup :=
  (plan.people kind).nodup_iff.mpr (db.people kind).distinct

theorem Plan.mem_visits {db : IdentityDb} (plan : Plan db) {kind : PersonKind} {id : ExternalId} :
    id ∈ plan.visits kind ↔ ((db.people kind).get? id).isSome = true := by
  rw [(plan.people kind).mem_iff,← not_iff_not,Option.not_isSome_iff_eq_none,Table.get?_eq_none_iff]
  rfl

theorem get?_reconcileTable {lower : String → String} {db : IdentityDb} {plan : Plan db}
    {now : Timestamp} {kind : PersonKind} {links : UserLinks}
    (h : reconcileTable lower db plan now kind = .ok links) (id : ExternalId) :
    links.get? id = if ((db.people kind).get? id).isSome = true ∧
        ((db.links kind).get? id).any UserLink.manual = false
      then some (computedLink lower db kind now id) else (db.links kind).get? id := by
  rw [Indexed.get?_upsertEach? (plan.nodup kind) (reconcileTable_ok.mp h)]
  simp only [plan.mem_visits]

theorem owned_reconcileTable {lower : String → String} {db : IdentityDb} {plan : Plan db}
    {now : Timestamp} {kind : PersonKind} {links : UserLinks}
    (h : reconcileTable lower db plan now kind = .ok links) {id : ExternalId} {link : UserLink}
    (hlink : links.get? id = some link) : ((db.people kind).get? id).isSome = true := by
  rw [get?_reconcileTable h] at hlink
  split at hlink
  · next hvisited => exact hvisited.1
  · exact db.owned kind id link hlink

/-- `reconcile_identity_links_tx`: the three statements, or the error of the first that fails. -/
def reconcileIdentityLinks (lower : String → String) (db : IdentityDb) (plan : Plan db)
    (now : Timestamp) : Except InstitutionError IdentityDb :=
  match hs : reconcileTable lower db plan now .student, hf : reconcileTable lower db plan now .faculty,
    ha : reconcileTable lower db plan now .admin with
  | .error e, _, _ => .error e
  | .ok _, .error e, _ => .error e
  | .ok _, .ok _, .error e => .error e
  | .ok students, .ok faculty, .ok admins => .ok { db with
      links := fun kind => match kind with
        | .student => students
        | .faculty => faculty
        | .admin => admins
      owned := by
        intro kind id link hlink
        cases kind with
        | student => exact owned_reconcileTable hs hlink
        | faculty => exact owned_reconcileTable hf hlink
        | admin => exact owned_reconcileTable ha hlink }

end LatexCore.Institution
