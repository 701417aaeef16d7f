import LatexCore.Institution.Provisioned

/-! # One account for each e-mail

In every run of import applies, from any institution, the accounts that have been
committed are sound for the rows of people that the applies visited, and so is the
draft of the holder of the lock. No other apply has a draft.
-/
namespace LatexCore.Institution
open Core Foundation
open Imports (ImportRow RowKey)
variable {p : Provisioner} {w₀ w : World} {client : ℕ}

structure Inv (p : Provisioner) (w₀ w : World) : Prop where
  sound : Sound p w₀.accounts w.accounts w.visited
  drafts : ∀ client apply provision, w.applies client = some apply →
    apply.provision = some provision → w.holder = some client ∧
      Sound p w₀.accounts provision.accounts (w.visited ++ provision.visited)

theorem Inv.setApply (h : Inv p w₀ w) {apply : Option Apply}
    (hdraft : ∀ a provision, apply = some a → a.provision = some provision → w.holder = some client ∧
      Sound p w₀.accounts provision.accounts (w.visited ++ provision.visited)) :
    Inv p w₀ (w.setApply client apply) := by
  refine ⟨h.sound,?_⟩
  intro other a provision ha hprovision
  change Function.update w.applies client apply other = some a at ha
  by_cases hother : other = client
  · subst hother
    rw [Function.update_self] at ha
    exact hdraft a provision ha hprovision
  · rw [Function.update_of_ne hother] at ha
    exact h.drafts other a provision ha hprovision

theorem Inv.release (h : Inv p w₀ w) (client : ℕ) : Inv p w₀ (w.release client) := by
  refine ⟨h.sound,?_⟩
  intro other a provision ha hprovision
  change Function.update w.applies client none other = some a at ha
  by_cases hother : other = client
  · subst hother
    rw [Function.update_self] at ha
    cases ha
  · rw [Function.update_of_ne hother] at ha
    obtain ⟨hholder,hsound⟩ := h.drafts other a provision ha hprovision
    refine ⟨?_,hsound⟩
    change (if w.holder = some client then none else w.holder) = some other
    rw [hholder,if_neg]
    exact fun heq => hother (Option.some.inj heq)

theorem Provision.next_ok {provision rest : Provision} {people : ProvisionedPeople} {row : PersonRow}
    (h : provision.next = some (people,row,rest)) :
    rest.accounts = provision.accounts ∧ rest.visited = provision.visited := by
  unfold Provision.next at h
  split at h
  · cases h
    exact ⟨rfl,rfl⟩
  · cases h
    exact ⟨rfl,rfl⟩
  · cases h

theorem Inv.commit (h : Inv p w₀ w) {apply : Apply} {provision : Provision}
    (happly : w.applies client = some apply) (hprovision : apply.provision = some provision)
    (people : PersonKind → People) :
    Inv p w₀ (World.release { w with
      people := people
      accounts := provision.accounts
      visited := w.visited ++ provision.visited } client) := by
  obtain ⟨hholder,hsound⟩ := h.drafts client apply provision happly hprovision
  refine ⟨hsound,?_⟩
  intro other a provision' ha hprovision'
  change Function.update w.applies client none other = some a at ha
  by_cases hother : other = client
  · subst hother
    rw [Function.update_self] at ha
    cases ha
  · rw [Function.update_of_ne hother] at ha
    obtain ⟨hother',-⟩ := h.drafts other a provision' ha hprovision'
    rw [hholder] at hother'
    exact absurd (Option.some.inj hother').symm hother

theorem Inv.step (hp : p.Lawful) (h : Inv p w₀ w) (label : Label) : Inv p w₀ (w.step p label) := by
  cases label with
  | start client actor started jobIds provisions =>
    simp only [World.step]
    split
    · exact h
    · refine h.setApply ?_
      intro a provision ha hprovision
      cases ha
      cases hprovision
  | write client write =>
    simp only [World.step]
    split
    · next apply happly =>
      split
      · exact h
      · next hnone =>
        refine h.setApply ?_
        intro a provision ha hprovision
        cases ha
        dsimp only at hprovision
        rw [hprovision] at hnone
        exact absurd rfl hnone
    · exact h
  | lock client =>
    simp only [World.step]
    split
    · next apply happly =>
      split
      · next hlock =>
        simp only [Bool.and_eq_true,Option.isNone_iff_eq_none] at hlock
        have hfree (client : ℕ) (a : Apply) (provision : Provision) (ha : w.applies client = some a)
            (hprovision : a.provision = some provision) : False := by
          obtain ⟨hholder,-⟩ := h.drafts client a provision ha hprovision
          rw [hlock.2] at hholder
          cases hholder
        refine ⟨h.sound,?_⟩
        intro other a provision ha hprovision
        change Function.update w.applies client _ other = some a at ha
        by_cases hother : other = client
        · subst hother
          rw [Function.update_self] at ha
          cases ha
          cases hprovision
          refine ⟨rfl,?_⟩
          change Sound p w₀.accounts w.accounts (w.visited ++ [])
          rw [List.append_nil]
          exact h.sound
        · rw [Function.update_of_ne hother] at ha
          exact (hfree other a provision ha hprovision).elim
      · exact h
    · exact h
  | select client people order =>
    simp only [World.step]
    split
    · next apply happly =>
      split
      · next provision hprovision =>
        have hdraft := h.drafts client apply provision happly hprovision
        have hset {provision' : Provision} (haccounts : provision'.accounts = provision.accounts)
            (hvisited : provision'.visited = provision.visited) :
            Inv p w₀ (w.setProvision client apply provision') := by
          refine h.setApply ?_
          intro a provision'' ha hprovision''
          cases ha
          cases hprovision''
          rw [haccounts,hvisited]
          exact hdraft
        split
        · cases people with
          | students =>
            dsimp only
            split
            · exact hset rfl rfl
            · exact h
          | faculty =>
            dsimp only
            split
            · exact hset rfl rfl
            · exact h
        · exact h
      · exact h
    · exact h
  | visit client draws =>
    simp only [World.step]
    split
    · next apply happly =>
      split
      · next people row rest hnext =>
        obtain ⟨provision,hprovision,hnext⟩ := Option.bind_eq_some_iff.mp hnext
        obtain ⟨hholder,hsound⟩ := h.drafts client apply provision happly hprovision
        obtain ⟨haccounts,hvisited⟩ := Provision.next_ok hnext
        split
        · next accounts outcome hrow =>
          rw [haccounts] at hrow
          have hdraft := hsound.visit hp hrow
          refine h.setApply ?_
          intro a provision' ha hprovision'
          cases ha
          cases hprovision'
          refine ⟨hholder,?_⟩
          dsimp only
          rw [hvisited,← List.append_assoc]
          exact hdraft
        · exact h.release client
      · exact h
    · exact h
  | commit client =>
    simp only [World.step]
    split
    · next apply happly =>
      split
      · split
        · next provision hprovision => exact h.commit happly hprovision _
        · have hpeople : Inv p w₀ { w with people := w.seen apply } := ⟨h.sound,h.drafts⟩
          exact hpeople.release client
      · exact h
    · exact h
  | rollback client => exact h.release client
  | upload rows => exact ⟨h.sound,h.drafts⟩

/-- The accounts after a run that started with `base`: users that no apply created keep account and
role; a created user is new, was made for an e-mail that one person had, and has the one account with
it, its role and its letter; and the visited rows, provisioned again, make no account. -/
structure AccountContract (p : Provisioner) (base : AccountTables) (w : World) : Prop where
  frame : ∀ user, user ∉ createdUsers w.visited →
    w.accounts.credentials.get? user = base.credentials.get? user ∧
      w.accounts.roles.get? user = base.roles.get? user
  distinct : (createdUsers w.visited).Nodup
  created : ∀ v ∈ w.visited, ∀ user queued credential, v.outcome = .created user queued credential →
    base.users.get? user = none ∧
    v.row.email.bind normalizedInstitutionEmail = some credential.email ∧
    p.Unshared v.seen credential.email ∧ Issued p w.accounts v.people user credential
  again : ∀ people actor started reads result,
    (∀ read ∈ reads, ∃ v ∈ w.visited, v.people = people ∧ v.row = read.1 ∧
      ∀ email, p.peopleMatches read.2.1 email = p.peopleMatches v.seen email) →
    ∃ result', p.provisionPeopleRows people actor started reads result w.accounts =
        .ok (w.accounts,result') ∧
      result'.created = result.created ∧ result'.credentials = result.credentials

theorem provisionPeopleRows_settled {t : AccountTables} {visited : List Visited}
    (hsettled : ∀ v ∈ visited, p.Settled v t) {people : ProvisionedPeople} {actor : UserId}
    {started : Timestamp} {reads : List (PersonRow × People × Draws)} {result : AccountProvisioningResult}
    (hreads : ∀ read ∈ reads, ∃ v ∈ visited, v.people = people ∧ v.row = read.1 ∧
      ∀ email, p.peopleMatches read.2.1 email = p.peopleMatches v.seen email) :
    ∃ result', p.provisionPeopleRows people actor started reads result t = .ok (t,result') ∧
      result'.created = result.created ∧ result'.credentials = result.credentials := by
  induction reads generalizing result with
  | nil => exact ⟨result,rfl,rfl,rfl⟩
  | cons read rest ih =>
    obtain ⟨row,seen,draws⟩ := read
    obtain ⟨v,hv,-,hrow,hseen⟩ := hreads _ (List.mem_cons_self ..)
    have hhere : p.Settled ⟨people,row,seen,v.outcome⟩ t := by
      intro email hemail
      dsimp only at hemail hrow hseen
      rw [← hrow] at hemail
      have hcase := hsettled v hv email hemail
      rw [← hseen email] at hcase
      exact hcase
    have hprovision : ∃ outcome, p.provisionPerson people actor started seen draws row t = .ok (t,outcome) ∧
        outcome.user? = none := provisionPerson_settled hhere
    obtain ⟨outcome,hstep,hnone⟩ := hprovision
    have hadd : (result.add outcome).created = result.created ∧
        (result.add outcome).credentials = result.credentials := by
      cases outcome with
      | needsAttention => exact ⟨rfl,rfl⟩
      | reused => exact ⟨rfl,rfl⟩
      | created user queued credential => cases hnone
    have hrest : ∃ result', p.provisionPeopleRows people actor started rest (result.add outcome) t =
        .ok (t,result') ∧ result'.created = (result.add outcome).created ∧
        result'.credentials = (result.add outcome).credentials :=
      ih (fun r hr => hreads r (List.mem_cons_of_mem _ hr))
    obtain ⟨result',hrest,hcreated,hcredentials⟩ := hrest
    refine ⟨result',?_,hcreated.trans hadd.1,hcredentials.trans hadd.2⟩
    rw [Provisioner.provisionPeopleRows,hstep]
    exact hrest

/-- Whatever import applies run, in any order, provisioning makes the right accounts. -/
theorem accounts_provisioned (p : Provisioner) (hp : p.Lawful) (people : PersonKind → People)
    (rows : Table RowKey ImportRow) (base : AccountTables) (ops : List Label) :
    AccountContract p base (run (World.step p) (World.start people rows base) ops) := by
  have hinv : Inv p (World.start people rows base) (run (World.step p) (World.start people rows base) ops) := by
    refine run_invariant _ (fun w label h => h.step hp label) ⟨sound_start p base,?_⟩ ops
    intro client apply provision happly
    cases happly
  refine ⟨hinv.sound.frame,hinv.sound.distinct,hinv.sound.created,?_⟩
  intro people actor started reads result hreads
  exact provisionPeopleRows_settled hinv.sound.settled hreads

/-! ## Two admins -/

theorem toLower_toLower (c : Char) : c.toLower.toLower = c.toLower := by
  unfold Char.toLower
  split
  · next h =>
    rw [dif_neg]
    rintro ⟨-,hle⟩
    have hlow := h.1
    have hhigh := h.2
    simp only [ge_iff_le,UInt32.le_iff_toNat_le] at hle hlow hhigh
    simp at hle hlow hhigh
    omega
  · rfl

theorem asciiLower_asciiLower (text : String) : asciiLower (asciiLower text) = asciiLower text := by
  have hchars : Char.toLower ∘ Char.toLower = Char.toLower := funext toLower_toLower
  unfold asciiLower
  rw [String.toList_ofList,List.map_map,hchars]

def sampleHasher : PasswordHasher where
  hashUnchecked salt value := some (String.ofList (value.toList ++ '$' :: (Nat.repr salt.length).toList))
  verifyPassword value hash := some ((value.toList ++ ['$']).isPrefixOf hash.toList)

def sampleProvisioner : Provisioner := ⟨asciiLower,sampleHasher,some Mail.sampleConfig⟩

theorem sampleProvisioner_lawful : sampleProvisioner.Lawful where
  lower := asciiLower_asciiLower
  verifies := by
    intro salt value hash h
    cases h
    simp [sampleProvisioner,sampleHasher]
  opens := by
    intro config h
    cases h
    exact Mail.sampleCipher_opens

/-- One student has an address, and two have another. -/
def samplePeople : PersonKind → People
  | .student => ⟨[("S1",some " Ada@Example.edu"),("S2",some "bob@example.edu"),
      ("S3",some "BOB@example.edu")],by decide⟩
  | _ => .empty

def sampleRow (id : ExternalId) : ImportRow where
  naturalKey := .obj [("reg_no",.str id)]
  payload := .obj [("reg_no",.str id)]
  existingPayload := none
  action := .insert
  status := .valid
  errorCode := none
  errorMessage := none

def sampleRows : Table RowKey ImportRow :=
  ⟨[((1,.students,1),sampleRow "S1"),((1,.students,2),sampleRow "S2"),
    ((2,.students,1),sampleRow "S1"),((2,.students,2),sampleRow "S3")],by decide⟩

def sampleAccounts : AccountTables where
  tenants := .empty
  users := .empty
  credentials := .empty
  roles := .empty
  mail := ⟨0,.empty,[]⟩
  housed := fun _ _ h => by cases h
  credentialed := fun _ _ h => by cases h
  ranked := fun _ _ h => by cases h
  addressed := fun _ _ _ h => by cases h

def sampleDraws (n : ℕ) : Draws := ⟨fun i => n + i,[1,2],100 + n,200 + n,300 + n,Mail.sampleNonce,n⟩

/-- The second apply waits for the lock, and finds the account of the first. -/
def sampleOps : List Label :=
  [.start 0 10 0 [1] true,.start 1 11 0 [2] true,.lock 0,.lock 1,
    .select 0 .students [⟨"S1",some " Ada@Example.edu"⟩,⟨"S2",some "bob@example.edu"⟩],
    .select 0 .faculty [],.visit 0 (sampleDraws 1),.visit 0 (sampleDraws 2),.commit 0,.lock 1,
    .select 1 .students [⟨"S1",some " Ada@Example.edu"⟩,⟨"S3",some "BOB@example.edu"⟩],
    .select 1 .faculty [],.visit 1 (sampleDraws 3),.visit 1 (sampleDraws 4),.commit 1]

def sampleRun : World := run (World.step sampleProvisioner) (World.start samplePeople sampleRows sampleAccounts) sampleOps

theorem accounts_provisioned_twice : AccountContract sampleProvisioner sampleAccounts sampleRun ∧
    sampleRun.visited.map (fun v => v.outcome.user?) = [some 201,none,none,none] :=
  ⟨accounts_provisioned sampleProvisioner sampleProvisioner_lawful samplePeople sampleRows sampleAccounts
    sampleOps,by decide +kernel⟩

end LatexCore.Institution
