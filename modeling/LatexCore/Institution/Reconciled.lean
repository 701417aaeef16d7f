import LatexCore.Institution.Identity

/-! # What reconciliation leaves

A person has a match when the normalized e-mail belongs to one account and one
person of the kind, and the account has the role. A statement links every person
to the match exactly when no other link holds the matched user at that moment; a
link made by hand always does, and one that is rewritten only after the person.
-/
namespace LatexCore.Institution
open Core Foundation
variable {lower : String → String} {db db' : IdentityDb} {kind : PersonKind} {id : ExternalId}
variable {u : UserId} {now : Timestamp}

def Matches (lower : String → String) (db : IdentityDb) (kind : PersonKind) (id : ExternalId)
    (u : UserId) : Prop :=
  ∃ email, (db.people kind).get? id = some (some email) ∧
    (∃ e, db.accounts.get? u = some e ∧ normalized lower e = normalized lower email) ∧
    (∀ v e, db.accounts.get? v = some e → normalized lower e = normalized lower email → v = u) ∧
    (∀ other e, (db.people kind).get? other = some (some e) →
      normalized lower e = normalized lower email → other = id) ∧
    db.roles.get? u = some kind.requiredRole

theorem length_eq_one_iff_of_mem {α : Type} {l : List α} {a : α} (hnodup : l.Nodup) (ha : a ∈ l) :
    l.length = 1 ↔ ∀ b ∈ l, b = a := by
  constructor
  · intro hone b hb
    obtain ⟨c,rfl⟩ := List.length_eq_one_iff.mp hone
    rw [List.mem_singleton.mp hb,List.mem_singleton.mp ha]
  · intro hall
    have hrep : l = List.replicate l.length a := List.eq_replicate_of_mem hall
    rw [hrep,List.nodup_replicate] at hnodup
    have hpos := List.length_pos_of_mem ha
    omega

theorem mem_accountsOf {email : Option String} : u ∈ accountsOf lower db email ↔
    ∃ e p, db.accounts.get? u = some e ∧ email = some p ∧ normalized lower e = normalized lower p := by
  unfold accountsOf
  rw [Table.mem_select]
  cases email with
  | none => simp
  | some p => simp

/-- The only account with the e-mail of a person. -/
theorem accountsOf_single {email : Option String} :
    (accountsOf lower db email).length = 1 ∧ (accountsOf lower db email).min? = some u ↔
      u ∈ accountsOf lower db email ∧ ∀ v ∈ accountsOf lower db email, v = u := by
  have hnodup : (accountsOf lower db email).Nodup := Table.select_nodup _ _
  constructor
  · rintro ⟨hone,hmin⟩
    obtain ⟨v,hv⟩ := List.length_eq_one_iff.mp hone
    rw [hv] at hmin ⊢
    rw [List.min?_singleton,Option.some.injEq] at hmin
    subst hmin
    exact ⟨List.mem_singleton_self _,fun w hw => List.mem_singleton.mp hw⟩
  · rintro ⟨hmem,hall⟩
    have hone := (length_eq_one_iff_of_mem hnodup hmem).mpr hall
    obtain ⟨v,hv⟩ := List.length_eq_one_iff.mp hone
    rw [hv,List.mem_singleton] at hmem
    rw [hv,List.min?_singleton,hmem]
    exact ⟨rfl,rfl⟩

theorem peopleMatches_one {email : String} (h : (db.people kind).get? id = some (some email)) :
    peopleMatches lower db kind (some email) = 1 ↔
      ∀ other e, (db.people kind).get? other = some (some e) →
        normalized lower e = normalized lower email → other = id := by
  unfold peopleMatches
  rw [← Table.length_select,length_eq_one_iff_of_mem (a := id) (Table.select_nodup _ _)]
  · constructor
    · intro hall other e hother he
      exact hall other (Table.mem_select.mpr ⟨some e,hother,by simp [he]⟩)
    · intro hall other hother
      obtain ⟨e,hget,he⟩ := Table.mem_select.mp hother
      cases e with
      | none => simp at he
      | some e => exact hall other e hget (by simpa using he)
  · exact Table.mem_select.mpr ⟨some email,h,by simp⟩

theorem computedLink_userId (now : Timestamp) : (computedLink lower db kind now id).userId = some u ↔
    Matches lower db kind id u := by
  unfold computedLink
  split
  · next email hperson =>
    dsimp only [Candidate.link,Candidate.linkedUser,candidate]
    constructor
    · intro h
      split at h
      · next hcase =>
        obtain ⟨hone,hpeople,hrole⟩ := hcase
        obtain ⟨hmem,hall⟩ := accountsOf_single.mp ⟨hone,h⟩
        obtain ⟨e,p,he,rfl,hnorm⟩ := mem_accountsOf.mp hmem
        rw [h,Option.bind_some] at hrole
        refine ⟨p,hperson,⟨e,he,hnorm⟩,?_,(peopleMatches_one hperson).mp hpeople,hrole⟩
        intro v e' he' hnorm'
        exact hall v (mem_accountsOf.mpr ⟨e',p,he',rfl,hnorm'⟩)
      · cases h
    · rintro ⟨p,hp,⟨e,he,hnorm⟩,haccounts,hpeople,hrole⟩
      rw [hperson] at hp
      cases hp
      have hmem : u ∈ accountsOf lower db (some p) := mem_accountsOf.mpr ⟨e,p,he,rfl,hnorm⟩
      have hall : ∀ v ∈ accountsOf lower db (some p), v = u := by
        intro v hv
        obtain ⟨e',p',he',hp',hnorm'⟩ := mem_accountsOf.mp hv
        cases hp'
        exact haccounts v e' he' hnorm'
      obtain ⟨hone,hmin⟩ := accountsOf_single.mpr ⟨hmem,hall⟩
      rw [if_pos ⟨hone,(peopleMatches_one hperson).mpr hpeople,by rw [hmin,Option.bind_some]; exact hrole⟩]
      exact hmin
  · next hnone =>
    simp only [reduceCtorEq,false_iff]
    rintro ⟨p,hp,-⟩
    rw [hnone] at hp
    cases hp

theorem Matches.person_unique {other : ExternalId} (h : Matches lower db kind id u)
    (h' : Matches lower db kind other u) : id = other := by
  obtain ⟨email,-,⟨e,he,hnorm⟩,-,hpeople,-⟩ := h
  obtain ⟨email',hother,⟨e',he',hnorm'⟩,-,-,-⟩ := h'
  rw [he] at he'
  cases he'
  exact (hpeople other email' hother (hnorm'.symm.trans hnorm)).symm

theorem UserLink.linked_iff (link : UserLink) : link.status = .linked ↔ link.userId.isSome = true := by
  have h := link.shaped
  unfold linkShape at h
  constructor
  · intro hlinked
    simp [hlinked] at h
    exact h.1
  · intro hsome
    by_contra hnot
    simp [hnot] at h
    rw [h.1] at hsome
    cases hsome

/-! ## The three statements -/

/-- The state after a successful reconciliation. -/
theorem reconcileIdentityLinks_ok {plan : Plan db}
    (h : reconcileIdentityLinks lower db plan now = .ok db') :
    db'.accounts = db.accounts ∧ db'.roles = db.roles ∧ db'.people = db.people ∧
      ∀ kind, reconcileTable lower db plan now kind = .ok (db'.links kind) := by
  unfold reconcileIdentityLinks at h
  split at h
  · cases h
  · cases h
  · cases h
  · next students faculty admins hs hf ha =>
    cases h
    refine ⟨rfl,rfl,rfl,?_⟩
    intro kind
    cases kind with
    | student => exact hs
    | faculty => exact hf
    | admin => exact ha

theorem reconcileIdentityLinks_exists {plan : Plan db} (now : Timestamp)
    (h : ∀ kind, ∃ links, reconcileTable lower db plan now kind = .ok links) :
    ∃ db', reconcileIdentityLinks lower db plan now = .ok db' := by
  obtain ⟨students,hs⟩ := h .student
  obtain ⟨faculty,hf⟩ := h .faculty
  obtain ⟨admins,ha⟩ := h .admin
  unfold reconcileIdentityLinks
  split
  · next he => rw [hs] at he; cases he
  · next he => rw [hf] at he; cases he
  · next he => rw [ha] at he; cases he
  · exact ⟨_,rfl⟩

/-- No other link holds the match of a person who is visited, except an automatic one that the
statement visits before. -/
def Unoccupied (lower : String → String) (db : IdentityDb) (plan : Plan db) : Prop :=
  ∀ kind id u, Matches lower db kind id u → ((db.links kind).get? id).any UserLink.manual = false →
    ∀ holder link, (db.links kind).get? holder = some link → link.userId = some u → holder ≠ id →
      link.manual = false ∧ Indexed.Precedes (plan.visits kind) holder id

theorem reconcileTable_exists_iff (plan : Plan db) (now : Timestamp) (kind : PersonKind) :
    (∃ links, reconcileTable lower db plan now kind = .ok links) ↔
      ∀ id u, Matches lower db kind id u → ((db.links kind).get? id).any UserLink.manual = false →
        ∀ holder link, (db.links kind).get? holder = some link → link.userId = some u →
          holder ≠ id → link.manual = false ∧ Indexed.Precedes (plan.visits kind) holder id := by
  simp only [reconcileTable_ok]
  rw [Indexed.upsertEach?_isSome_iff (plan.nodup kind)]
  · constructor
    · intro h id u hmatch hfree holder link hlink huser hne
      have hvisited : id ∈ plan.visits kind := by
        obtain ⟨email,hperson,-⟩ := hmatch
        rw [plan.mem_visits,hperson]
        rfl
      obtain ⟨hkept,hbefore⟩ := h id hvisited hfree u holder ((computedLink_userId now).mpr hmatch)
        ⟨link,hlink,huser⟩ hne
      rw [hlink,Option.any_some] at hkept
      exact ⟨hkept,hbefore⟩
    · rintro h id - hfree u holder hcomputed ⟨link,hlink,huser⟩ hne
      obtain ⟨hkept,hbefore⟩ :=
        h id u ((computedLink_userId now).mp hcomputed) hfree holder link hlink huser hne
      rw [hlink,Option.any_some]
      exact ⟨hkept,hbefore⟩
  · intro id _ other _ u hid hother
    exact ((computedLink_userId now).mp hid).person_unique ((computedLink_userId now).mp hother)

theorem matches_congr (haccounts : db'.accounts = db.accounts) (hroles : db'.roles = db.roles)
    (hpeople : db'.people = db.people) : Matches lower db' kind id u ↔ Matches lower db kind id u := by
  unfold Matches
  rw [haccounts,hroles,hpeople]

/-- A reconciliation succeeds, links the matches and nobody else, leaves the links made by hand
alone, and changes no user and no status when it is repeated. -/
def Reconciled (lower : String → String) (db : IdentityDb) (plan : Plan db) (now : Timestamp) : Prop :=
  ∃ db', reconcileIdentityLinks lower db plan now = .ok db' ∧
    (∀ kind id, ((db.people kind).get? id).isSome = true → ((db'.links kind).get? id).isSome = true) ∧
    (∀ kind id link, (db'.links kind).get? id = some link → link.manual = false →
      (∀ u, link.status = .linked ∧ link.userId = some u ↔ Matches lower db kind id u) ∧
        ((∀ u, ¬Matches lower db kind id u) → link.userId = none)) ∧
    (∀ kind id link, link.manual = true →
      ((db'.links kind).get? id = some link ↔ (db.links kind).get? id = some link)) ∧
    ∀ (plan' : Plan db') (later : Timestamp), ∃ db'',
      reconcileIdentityLinks lower db' plan' later = .ok db'' ∧
        ∀ kind id, ((db''.links kind).get? id).map (fun l => (l.userId,l.status)) =
          ((db'.links kind).get? id).map (fun l => (l.userId,l.status))

theorem computedLink_automatic : (computedLink lower db kind now id).manual = false := by
  unfold computedLink
  split <;> rfl

theorem computedLink_spec : (∀ u, (computedLink lower db kind now id).status = .linked ∧
      (computedLink lower db kind now id).userId = some u ↔ Matches lower db kind id u) ∧
    ((∀ u, ¬Matches lower db kind id u) → (computedLink lower db kind now id).userId = none) := by
  constructor
  · intro u
    rw [← computedLink_userId now,UserLink.linked_iff]
    constructor
    · exact fun h => h.2
    · exact fun h => ⟨by rw [h]; rfl,h⟩
  · intro hnone
    rw [Option.eq_none_iff_forall_not_mem]
    exact fun u hu => hnone u ((computedLink_userId now).mp hu)

/-- The columns that a second run recomputes do not depend on its time and its links. -/
theorem computedLink_again (now later : Timestamp) (haccounts : db'.accounts = db.accounts)
    (hroles : db'.roles = db.roles) (hpeople : db'.people = db.people) :
    (computedLink lower db' kind later id).userId = (computedLink lower db kind now id).userId ∧
      (computedLink lower db' kind later id).status = (computedLink lower db kind now id).status := by
  obtain ⟨accounts,roles,people,links,owned⟩ := db
  obtain ⟨accounts',roles',people',links',owned'⟩ := db'
  subst haccounts hroles hpeople
  unfold computedLink
  dsimp only
  split <;> exact ⟨rfl,rfl⟩

/-- The reconciliation does all of this exactly when no link stands in the way. -/
theorem reconciled_iff (lower : String → String) (db : IdentityDb) (plan : Plan db) (now : Timestamp) :
    Reconciled lower db plan now ↔ Unoccupied lower db plan := by
  constructor
  · rintro ⟨db',hdb',-⟩ kind
    obtain ⟨-,-,-,htables⟩ := reconcileIdentityLinks_ok hdb'
    exact (reconcileTable_exists_iff plan now kind).mp ⟨_,htables kind⟩
  · intro hfree
    obtain ⟨db',hdb'⟩ := reconcileIdentityLinks_exists now
      (fun kind => (reconcileTable_exists_iff plan now kind).mpr (hfree kind))
    obtain ⟨haccounts,hroles,hpeople,htables⟩ := reconcileIdentityLinks_ok hdb'
    have hget (kind : PersonKind) (id : ExternalId) := get?_reconcileTable (htables kind) id
    have hold (kind : PersonKind) (id : ExternalId) {link : UserLink}
        (hlink : (db'.links kind).get? id = some link) (hautomatic : link.manual = false) :
        link = computedLink lower db kind now id := by
      rw [hget] at hlink
      split at hlink
      · exact (Option.some.inj hlink).symm
      · next hskipped =>
        exact absurd ⟨db.owned kind id link hlink,by rw [hlink]; exact hautomatic⟩ hskipped
    have hexists (kind : PersonKind) (id : ExternalId)
        (hperson : ((db.people kind).get? id).isSome = true) :
        ∃ link, (db'.links kind).get? id = some link := by
      rw [hget]
      split
      · exact ⟨_,rfl⟩
      · next hskipped =>
        cases hlink : (db.links kind).get? id with
        | none => exact absurd ⟨hperson,by rw [hlink]; rfl⟩ hskipped
        | some link => exact ⟨link,rfl⟩
    refine ⟨db',hdb',?_,?_,?_,?_⟩
    · exact fun kind id hperson => Option.isSome_iff_exists.mpr (hexists kind id hperson)
    · intro kind id link hlink hautomatic
      rw [hold kind id hlink hautomatic]
      exact computedLink_spec
    · intro kind id link hmanual
      rw [hget]
      constructor
      · intro hlink
        split at hlink
        · cases hlink
          rw [computedLink_automatic] at hmanual
          cases hmanual
        · exact hlink
      · intro hlink
        rw [if_neg]
        · exact hlink
        · rintro ⟨-,hnone⟩
          rw [hlink,Option.any_some,hmanual] at hnone
          cases hnone
    · intro plan' later
      have hagain : Unoccupied lower db' plan' := by
        intro kind id u hmatch hfree' holder link hlink huser hne
        have hmatch' := (matches_congr haccounts hroles hpeople).mp hmatch
        obtain ⟨own,hown⟩ := hexists kind id (by obtain ⟨email,hperson,-⟩ := hmatch'; rw [hperson]; rfl)
        rw [hown,Option.any_some] at hfree'
        have hsame : own.userId = some u := by
          rw [hold kind id hown hfree']
          exact (computedLink_userId now).mpr hmatch'
        exact absurd ((db'.links kind).get?_inj hlink hown huser hsame) hne
      obtain ⟨db'',hdb''⟩ := reconcileIdentityLinks_exists later
        (fun kind => (reconcileTable_exists_iff plan' later kind).mpr (hagain kind))
      obtain ⟨-,-,-,htables'⟩ := reconcileIdentityLinks_ok hdb''
      refine ⟨db'',hdb'',?_⟩
      intro kind id
      rw [get?_reconcileTable (htables' kind) id]
      split
      · next hvisited =>
        obtain ⟨hperson,hautomatic⟩ := hvisited
        obtain ⟨link,hlink⟩ := hexists kind id (hpeople ▸ hperson)
        rw [hlink,Option.any_some] at hautomatic
        rw [hlink,hold kind id hlink hautomatic,Option.map_some,Option.map_some,
          (computedLink_again now later haccounts hroles hpeople).1,
          (computedLink_again now later haccounts hroles hpeople).2]
      · rfl

/-! ## Exchanged addresses -/

/-- A link of an earlier reconciliation. -/
def linkTo (u : UserId) : UserLink := ⟨some u,some "NORMALIZED_EMAIL",.linked,some 0,rfl⟩

/-- Two students were linked to the users 1 and 2, and have exchanged their e-mails since. -/
def exchanged : IdentityDb where
  accounts := ⟨[(1,"a@example.edu"),(2,"b@example.edu")],by decide⟩
  roles := ⟨[(1,.writer),(2,.writer)],by decide⟩
  people
    | .student => ⟨[("S1",some "b@example.edu"),("S2",some "a@example.edu")],by decide⟩
    | _ => .empty
  links
    | .student => ⟨⟨[("S1",linkTo 1),("S2",linkTo 2)],by decide⟩,by decide⟩
    | _ => .empty
  owned := by
    intro kind id link hlink
    cases kind with
    | student =>
      have hmem := List.mem_map_of_mem (f := Prod.fst) (Table.mem_rows_iff.mpr hlink)
      simp only [List.map_cons,List.map_nil,List.mem_cons,List.not_mem_nil,or_false] at hmem
      rcases hmem with rfl | rfl
      · rfl
      · rfl
    | faculty => cases hlink
    | admin => cases hlink

def exchangedPlan : Plan exchanged where
  visits kind := (exchanged.people kind).keys
  people _ := .refl _

/-- The first student cannot be linked while the second still holds the account. -/
theorem exchanged_not_reconciled : ¬Reconciled String.toLower exchanged exchangedPlan 1 := by
  rintro ⟨db',hdb',-⟩
  have hfails : (reconcileIdentityLinks String.toLower exchanged exchangedPlan 1).toOption.isNone = true := by
    decide +kernel
  rw [hdb'] at hfails
  cases hfails

end LatexCore.Institution
