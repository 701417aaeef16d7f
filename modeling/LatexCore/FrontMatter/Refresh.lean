import LatexCore.Foundation.Runs
import LatexCore.Imports.Jobs
import LatexCore.Institution.Identity
import LatexCore.Papers.Tables
import Mathlib.Logic.Function.Basic

/-! # Refreshes of the front matter

Workers drain the queue: each claims a team, looks up its pack, reads the automatic
values, renders, and finishes the row. Requests render beside them without a claim,
and a task may fail or vanish at any moment. The run keeps the imports whose changes
are committed, which changes have been enqueued for a team, and how many changes an
applied render had read.

An import that updates people enqueues the teams whose front matter names them: a
team has one row, which a new update resets. A worker claims the row that waits
longest, or one whose claim is ten minutes old, and reports the team it has
refreshed; a success deletes the row of the team, a failure queues it again until
its attempts are used up.
-/
namespace LatexCore.FrontMatter
open Core Foundation
open Institution (PersonKind UserLinks UserLink LinkStatus)
open Imports (RowKey ImportRow ImportJob)
open Papers (FrontMatterPin PaperTeamMembers)

/-! ## The queue of front matter refreshes -/

inductive RerenderState
  | queued | claimed | failed
deriving DecidableEq

/-- A row of `front_matter_rerender_queue` without its key, the team. -/
structure RerenderRow where
  reason : String
  state : RerenderState
  attempts : ℕ
  availableAt : Timestamp
  claimedAt : Option Timestamp
  lastError : Option String
  updatedAt : Timestamp
deriving DecidableEq

/-- The tables that the statements of the queue read besides it. -/
structure Tables where
  pins : Table Uuid FrontMatterPin
  members : PaperTeamMembers
  links : PersonKind → UserLinks
  jobs : Table Uuid ImportJob
  rows : Table RowKey ImportRow

structure Db where
  now : Timestamp
  tables : Tables
  queue : Table Uuid RerenderRow

/-! ## Affected teams -/

def Tables.ofImport (tables : Tables) (jobId : Uuid) (key : RowKey) : Bool :=
  (tables.jobs.get? key.1).any (fun source => key.1 == jobId ||
    (source.batchId.isSome && source.batchId == (tables.jobs.get? jobId).bind ImportJob.batchId))

def Tables.linkedTo (tables : Tables) (kind : PersonKind) (user : UserId) (field : String)
    (payload : Value) : Bool :=
  ((payload.get? field).bind Value.asStr?).any (fun external =>
    ((tables.links kind).get? external).any (fun link =>
      link.userId == some user && link.status == .linked))

def Tables.updates (tables : Tables) (user : UserId) (key : RowKey) (row : ImportRow) : Bool :=
  row.status == .applied && row.action == .update &&
    ((key.2.1 == .students && tables.linkedTo .student user "reg_no" row.payload) ||
      (key.2.1 == .faculty && tables.linkedTo .faculty user "faculty_id" row.payload))

def Tables.affectedTeams (tables : Tables) (jobId : Uuid) : List Uuid :=
  tables.pins.select (fun team _ => tables.members.table.rows.any (fun member =>
    member.1.1 == team && tables.rows.rows.any (fun row =>
      tables.ofImport jobId row.1 && tables.updates member.1.2 row.1 row.2)))

theorem affectedTeams_nodup (tables : Tables) (jobId : Uuid) : (tables.affectedTeams jobId).Nodup :=
  Table.select_nodup ..

/-! ## Statements -/

/-- The row that an insert makes. -/
def RerenderRow.enqueued (now : Timestamp) : RerenderRow where
  reason := "INSTITUTION_PERSON_UPDATED"
  state := .queued
  attempts := 0
  availableAt := now
  claimedAt := none
  lastError := none
  updatedAt := now

/-- What `ON CONFLICT … DO UPDATE` makes of a row. -/
def RerenderRow.requeued (now : Timestamp) (row : RerenderRow) : RerenderRow :=
  { RerenderRow.enqueued now with attempts := row.attempts }

def enqueueTeam (now : Timestamp) (queue : Table Uuid RerenderRow) (team : Uuid) :
    Table Uuid RerenderRow :=
  queue.upsert team ((queue.get? team).elim (.enqueued now) (RerenderRow.requeued now))

def enqueueAffectedForImport (jobId : Uuid) (db : Db) : Db :=
  { db with queue := (db.tables.affectedTeams jobId).foldl (enqueueTeam db.now) db.queue }

/-- The row waits, or its claim is older than ten minutes. -/
def RerenderRow.claimable (now : Timestamp) (row : RerenderRow) : Bool :=
  (row.state == .queued && row.availableAt ≤ now) ||
    (row.state == .claimed && row.claimedAt.any (fun claimedAt => claimedAt + 600000 < now))

/-- `ORDER BY available_at,updated_at,paper_team_id`. -/
def claimedBefore (a b : Uuid × RerenderRow) : Bool :=
  a.2.availableAt < b.2.availableAt || (a.2.availableAt == b.2.availableAt &&
    (a.2.updatedAt < b.2.updatedAt || (a.2.updatedAt == b.2.updatedAt && a.1 < b.1)))

def RerenderRow.claim (now : Timestamp) (row : RerenderRow) : RerenderRow :=
  { row with
    state := .claimed
    attempts := row.attempts + 1
    claimedAt := some now
    updatedAt := now }

/-- `claim_rerender`, while other transactions hold the locks of the given rows. -/
def claimRerender (locked : List Uuid) (db : Db) : Option Uuid × Db :=
  match db.queue.best (fun team row => row.claimable db.now && !locked.contains team) claimedBefore with
  | none => (none,db)
  | some (team,_) => (some team,{ db with queue := db.queue.modify team (RerenderRow.claim db.now) })

def RerenderRow.failOnce (now : Timestamp) (row : RerenderRow) : RerenderRow :=
  { row with
    state := if 5 ≤ row.attempts then .failed else .queued
    availableAt := now + 300000
    claimedAt := none
    lastError := some "Front Matter rerender failed; existing files were preserved"
    updatedAt := now }

def markRenderFailed (pin : FrontMatterPin) : FrontMatterPin :=
  { pin with
    status := "RENDER_FAILED"
    lastError := some
      "Automatic Front Matter refresh failed; existing rendered files were preserved" }

def finishRerender (team : Uuid) (succeeded : Bool) (db : Db) : Db :=
  if succeeded then { db with queue := db.queue.deleteWhere (fun key _ => key == team) }
  else { db with
    queue := db.queue.modify team (RerenderRow.failOnce db.now)
    tables := { db.tables with pins := db.tables.pins.modify team markRenderFailed } }

/-! ## What the statements do to a row -/

theorem get?_enqueueTeam (now : Timestamp) (queue : Table Uuid RerenderRow) (team x : Uuid) :
    (enqueueTeam now queue team).get? x =
      if x = team then some ((queue.get? team).elim (.enqueued now) (RerenderRow.requeued now))
      else queue.get? x :=
  Table.get?_upsert ..

theorem get?_enqueueTeams (now : Timestamp) {teams : List Uuid} (hteams : teams.Nodup)
    (queue : Table Uuid RerenderRow) (x : Uuid) :
    (teams.foldl (enqueueTeam now) queue).get? x =
      if x ∈ teams then some ((queue.get? x).elim (.enqueued now) (RerenderRow.requeued now))
      else queue.get? x := by
  induction teams generalizing queue with
  | nil => simp
  | cons team rest ih =>
    obtain ⟨hteam,hrest⟩ := List.nodup_cons.mp hteams
    rw [List.foldl_cons,ih hrest,get?_enqueueTeam]
    by_cases hx : x = team
    · subst hx
      simp [hteam]
    · simp [hx]

theorem get?_enqueueAffectedForImport (jobId : Uuid) (db : Db) (team : Uuid) :
    (enqueueAffectedForImport jobId db).queue.get? team =
      if team ∈ db.tables.affectedTeams jobId then
        some ((db.queue.get? team).elim (.enqueued db.now) (RerenderRow.requeued db.now))
      else db.queue.get? team :=
  get?_enqueueTeams _ (affectedTeams_nodup ..) ..

theorem claimRerender_cases (locked : List Uuid) (db : Db) :
    claimRerender locked db = (none,db) ∨
      ∃ team row, db.queue.get? team = some row ∧ row.claimable db.now = true ∧ team ∉ locked ∧
        claimRerender locked db =
          (some team,{ db with queue := db.queue.modify team (RerenderRow.claim db.now) }) := by
  unfold claimRerender
  cases h : db.queue.best (fun team row => row.claimable db.now && !locked.contains team)
      claimedBefore with
  | none => exact Or.inl rfl
  | some chosen =>
    obtain ⟨hrow,hchosen⟩ := Table.best_mem h
    simp only [Bool.and_eq_true,Bool.not_eq_true',List.contains_eq_mem,decide_eq_false_iff_not]
      at hchosen
    exact Or.inr ⟨chosen.1,chosen.2,hrow,hchosen.1,hchosen.2,rfl⟩

theorem get?_finishRerender_true (team : Uuid) (db : Db) (x : Uuid) :
    (finishRerender team true db).queue.get? x = if x = team then none else db.queue.get? x := by
  rw [finishRerender,if_pos rfl,Table.get?_deleteWhere]
  by_cases hx : x = team
  · subst hx
    cases db.queue.get? x <;> simp
  · cases db.queue.get? x <;> simp [hx]

theorem get?_finishRerender_false (team : Uuid) (db : Db) (x : Uuid) :
    (finishRerender team false db).queue.get? x =
      if x = team then (db.queue.get? x).map (RerenderRow.failOnce db.now) else db.queue.get? x := by
  rw [finishRerender,if_neg Bool.false_ne_true]
  exact Table.get?_modify ..

/-! ## Refreshes of the front matter -/

/-- How far a task is with its team. -/
inductive TaskStage
  | started
  | assigned
  | unassigned
  | read (seen : ℕ)
  | rendered (seen : ℕ)
  | failed
deriving DecidableEq

/-- What `refresh_existing_front_matter` returns, once it has. -/
def TaskStage.outcome : TaskStage → Option Bool
  | .unassigned | .rendered _ => some true
  | .failed => some false
  | _ => none

structure RefreshTask where
  team : Uuid
  claimed : Bool
  stage : TaskStage
deriving DecidableEq

structure World where
  db : Db
  tasks : ℕ → Option RefreshTask
  /-- The jobs whose changes to the institution are committed, oldest first. -/
  changes : List Uuid
  /-- The teams that were enqueued for a change, by the place of the change. -/
  owed : List (Uuid × ℕ)
  /-- The teams whose render is committed, with the number of changes its values had seen. -/
  renders : List (Uuid × ℕ)

inductive Label
  | tick (millis : ℕ)
  | applyImport (jobId : Uuid) (tables : Tables)
  | other (tables : Tables)
  | enqueueAffected (jobId : Uuid)
  | claim (task : ℕ) (locked : List Uuid)
  | refresh (task : ℕ) (team : Uuid)
  | assign (task : ℕ) (team : Uuid)
  | teamDetail (task : ℕ)
  | automaticValues (task : ℕ)
  | applyRender (task : ℕ) (pin : FrontMatterPin) (answered : Bool)
  | fail (task : ℕ)
  | finish (task : ℕ)
  | crash (task : ℕ)

def World.places (w : World) (jobId : Uuid) : List ℕ :=
  (List.range w.changes.length).filter (fun place => (w.changes[place]?).any (fun change =>
    change == jobId || (((w.db.tables.jobs.get? change).bind Imports.ImportJob.batchId).isSome &&
      (w.db.tables.jobs.get? change).bind Imports.ImportJob.batchId ==
        (w.db.tables.jobs.get? jobId).bind Imports.ImportJob.batchId)))

def World.setTask (w : World) (task : ℕ) (state : Option RefreshTask) : World :=
  { w with tasks := Function.update w.tasks task state }

/-- A new task with a free number. -/
def World.begin (w : World) (task : ℕ) (state : RefreshTask) : World :=
  if (w.tasks task).isNone then w.setTask task (some state) else w

def World.step (w : World) : Label → World
  | .tick millis => { w with db := { w.db with now := w.db.now + millis } }
  | .applyImport jobId tables => { w with
      db := { w.db with tables := tables }
      changes := w.changes ++ [jobId] }
  | .other tables => { w with db := { w.db with tables := tables } }
  | .enqueueAffected jobId => { w with
      db := enqueueAffectedForImport jobId w.db
      owed := w.owed ++ (w.db.tables.affectedTeams jobId).flatMap
        (fun team => (w.places jobId).map (fun place => (team,place))) }
  | .claim task locked =>
    if (w.tasks task).isNone then
      match claimRerender locked w.db with
      | (none,_) => w
      | (some team,db) => { w.setTask task (some ⟨team,true,.started⟩) with db := db }
    else w
  | .refresh task team => w.begin task ⟨team,false,.started⟩
  | .assign task team => w.begin task ⟨team,false,.assigned⟩
  | .teamDetail task =>
    match w.tasks task with
    | some ⟨team,claimed,.started⟩ =>
      let stage := if (w.db.tables.pins.get? team).isSome then TaskStage.assigned else .unassigned
      w.setTask task (some ⟨team,claimed,stage⟩)
    | _ => w
  | .automaticValues task =>
    match w.tasks task with
    | some ⟨team,claimed,.assigned⟩ =>
      w.setTask task (some ⟨team,claimed,.read w.changes.length⟩)
    | _ => w
  | .applyRender task pin answered =>
    match w.tasks task with
    | some ⟨team,claimed,.read seen⟩ =>
      let stage := if answered then TaskStage.rendered seen else .failed
      { w.setTask task (some ⟨team,claimed,stage⟩) with
        db := { w.db with tables := { w.db.tables with pins := w.db.tables.pins.upsert team pin } }
        renders := w.renders ++ [(team,seen)] }
    | _ => w
  | .fail task =>
    match w.tasks task with
    | some ⟨team,claimed,stage⟩ =>
      if stage.outcome.isNone then w.setTask task (some ⟨team,claimed,.failed⟩) else w
    | none => w
  | .finish task =>
    match w.tasks task with
    | some ⟨team,claimed,stage⟩ =>
      match stage.outcome with
      | some succeeded => { w.setTask task none with
          db := if claimed then finishRerender team succeeded w.db else w.db }
      | none => w
    | none => w
  | .crash task => w.setTask task none

def World.start (now : Timestamp) (tables : Tables) : World where
  db := ⟨now,tables,.empty⟩
  tasks := fun _ => none
  changes := []
  owed := []
  renders := []

/-! ## The contract -/

/-- A render that has read the automatic values after the change is committed for the team. -/
def World.refreshed (w : World) (team : Uuid) (place : ℕ) : Prop :=
  ∃ seen, (team,seen) ∈ w.renders ∧ place < seen

/-- Every change that was enqueued for a team is rendered, or the row of the team is there. -/
def World.nothingLost (w : World) : Prop :=
  ∀ team place, (team,place) ∈ w.owed → (w.db.queue.get? team).isSome = true ∨ w.refreshed team place

/-- A row that is enqueued again after it reached `FAILED` has the attempts of a new one. -/
def World.renewsAttempts (w : World) (label : Label) : Prop :=
  ∀ jobId, label = .enqueueAffected jobId → ∀ team ∈ w.db.tables.affectedTeams jobId, ∀ row row',
    w.db.queue.get? team = some row → row.state = .failed →
      (w.step label).db.queue.get? team = some row' →
        row'.attempts = (RerenderRow.enqueued w.db.now).attempts

def World.meetsNoFailed (w : World) (label : Label) : Prop :=
  ∀ jobId, label = .enqueueAffected jobId → ∀ team ∈ w.db.tables.affectedTeams jobId, ∀ row,
    w.db.queue.get? team = some row → row.state ≠ .failed

/-- A success that deletes a row has rendered values read after every change that the team was
enqueued for. -/
def World.finishesCurrent (w : World) (label : Label) : Prop :=
  ∀ number task, label = .finish number → w.tasks number = some task → task.claimed = true →
    task.stage.outcome = some true → (w.db.queue.get? task.team).isSome = true →
      ∃ seen, task.stage = .rendered seen ∧ ∀ place, (task.team,place) ∈ w.owed → place < seen

/-! ## Invariants -/

/-- What holds in every run: failed rows have used up their attempts, and what a task has rendered
is on record. -/
structure Kept (w : World) : Prop where
  exhausted : ∀ team row, w.db.queue.get? team = some row → row.state = .failed → 5 ≤ row.attempts
  recorded : ∀ number team claimed seen, w.tasks number = some ⟨team,claimed,.rendered seen⟩ →
    (team,seen) ∈ w.renders

theorem kept_start (now : Timestamp) (tables : Tables) : Kept (World.start now tables) where
  exhausted := by
    intro team row h
    cases h
  recorded := by
    intro number team claimed seen h
    cases h

variable {w : World}

theorem exhausted_enqueue (h : Kept w) (jobId : Uuid) (team : Uuid) (row : RerenderRow)
    (hrow : (enqueueAffectedForImport jobId w.db).queue.get? team = some row)
    (hfailed : row.state = .failed) : 5 ≤ row.attempts := by
  rw [get?_enqueueAffectedForImport] at hrow
  split at hrow
  · cases hold : w.db.queue.get? team with
    | none =>
      rw [hold] at hrow
      cases hrow
      cases hfailed
    | some old =>
      rw [hold] at hrow
      cases hrow
      cases hfailed
  · exact h.exhausted team row hrow hfailed

theorem exhausted_claim (h : Kept w) {locked : List Uuid} {claimed : Uuid} {db : Db}
    (hclaim : claimRerender locked w.db = (some claimed,db)) (team : Uuid) (row : RerenderRow)
    (hrow : db.queue.get? team = some row) (hfailed : row.state = .failed) : 5 ≤ row.attempts := by
  rcases claimRerender_cases locked w.db with hnone | ⟨chosen,old,_,_,_,hsome⟩
  · rw [hnone] at hclaim
    cases hclaim
  · rw [hsome] at hclaim
    cases hclaim
    rw [Table.get?_modify] at hrow
    split at hrow
    · obtain ⟨before,_,rfl⟩ := Option.map_eq_some_iff.mp hrow
      cases hfailed
    · exact h.exhausted team row hrow hfailed

theorem exhausted_finish (h : Kept w) (finished : Uuid) (succeeded : Bool) (team : Uuid)
    (row : RerenderRow) (hrow : (finishRerender finished succeeded w.db).queue.get? team = some row)
    (hfailed : row.state = .failed) : 5 ≤ row.attempts := by
  cases succeeded with
  | true =>
    rw [get?_finishRerender_true] at hrow
    split at hrow
    · cases hrow
    · exact h.exhausted team row hrow hfailed
  | false =>
    rw [get?_finishRerender_false] at hrow
    split at hrow
    · obtain ⟨before,_,rfl⟩ := Option.map_eq_some_iff.mp hrow
      by_contra hless
      simp [RerenderRow.failOnce] at hfailed
      exact hless hfailed
    · exact h.exhausted team row hrow hfailed

theorem recorded_setTask (h : Kept w) {w' : World} {number : ℕ} {state : Option RefreshTask}
    (htasks : w'.tasks = Function.update w.tasks number state)
    (hrenders : ∀ r ∈ w.renders, r ∈ w'.renders)
    (hstate : ∀ team claimed seen, state = some ⟨team,claimed,.rendered seen⟩ →
      (team,seen) ∈ w'.renders) (other : ℕ) (team : Uuid) (claimed : Bool) (seen : ℕ)
    (htask : w'.tasks other = some ⟨team,claimed,.rendered seen⟩) : (team,seen) ∈ w'.renders := by
  rw [htasks] at htask
  by_cases hother : other = number
  · subst hother
    rw [Function.update_self] at htask
    exact hstate team claimed seen htask
  · rw [Function.update_of_ne hother] at htask
    exact hrenders _ (h.recorded other team claimed seen htask)

theorem kept_setTask (h : Kept w) (number : ℕ) {state : Option RefreshTask}
    (hstate : ∀ team claimed seen, state ≠ some ⟨team,claimed,.rendered seen⟩) :
    Kept (w.setTask number state) where
  exhausted := h.exhausted
  recorded := recorded_setTask h rfl (fun _ hr => hr)
    (fun team claimed seen hsome => absurd hsome (hstate team claimed seen))

theorem kept_begin (h : Kept w) (number : ℕ) {state : RefreshTask}
    (hstate : ∀ team claimed seen, some state ≠ some ⟨team,claimed,.rendered seen⟩) :
    Kept (w.begin number state) := by
  unfold World.begin
  split
  · exact kept_setTask h number hstate
  · exact h

theorem Kept.step (h : Kept w) (label : Label) : Kept (w.step label) := by
  cases label with
  | tick millis => exact ⟨h.exhausted,h.recorded⟩
  | applyImport jobId tables => exact ⟨h.exhausted,h.recorded⟩
  | other tables => exact ⟨h.exhausted,h.recorded⟩
  | enqueueAffected jobId => exact ⟨exhausted_enqueue h jobId,h.recorded⟩
  | claim number locked =>
    simp only [World.step]
    split
    · split
      · exact h
      · next team db hclaim =>
        exact ⟨exhausted_claim h hclaim,recorded_setTask h rfl (fun _ hr => hr) (by simp)⟩
    · exact h
  | refresh number team => exact kept_begin h number (by simp)
  | assign number team => exact kept_begin h number (by simp)
  | teamDetail number =>
    simp only [World.step]
    split
    · apply kept_setTask h number
      intro team' claimed' seen hsome
      split at hsome <;> simp at hsome
    · exact h
  | automaticValues number =>
    simp only [World.step]
    split
    · exact kept_setTask h number (by simp)
    · exact h
  | applyRender number pin answered =>
    simp only [World.step]
    split
    · next team claimed seen htask =>
      refine ⟨h.exhausted,recorded_setTask h rfl (fun _ hr => List.mem_append_left _ hr) ?_⟩
      intro team' claimed' seen' hsome
      cases answered with
      | true =>
        cases hsome
        exact List.mem_append_right _ (List.mem_singleton_self _)
      | false => simp at hsome
    · exact h
  | fail number =>
    simp only [World.step]
    split
    · split
      · exact kept_setTask h number (by simp)
      · exact h
    · exact h
  | finish number =>
    simp only [World.step]
    split
    · next team claimed stage htask =>
      split
      · next succeeded houtcome =>
        refine ⟨?_,recorded_setTask h rfl (fun _ hr => hr) (by simp)⟩
        cases claimed with
        | true => exact exhausted_finish h team succeeded
        | false => exact h.exhausted
      · exact h
    · exact h
  | crash number => exact kept_setTask h number (by simp)

/-! ## Nothing is lost -/

/-- Nothing is lost while no row goes and no record is forgotten. -/
theorem nothingLost_of {w w' : World} (h : w.nothingLost)
    (hqueue : ∀ team, (w.db.queue.get? team).isSome = true → (w'.db.queue.get? team).isSome = true)
    (howed : w'.owed = w.owed) (hrenders : ∀ r ∈ w.renders, r ∈ w'.renders) : w'.nothingLost := by
  intro team place hplace
  rw [howed] at hplace
  rcases h team place hplace with hrow | ⟨seen,hseen,hlt⟩
  · exact Or.inl (hqueue team hrow)
  · exact Or.inr ⟨seen,hrenders _ hseen,hlt⟩

theorem nothingLost_enqueue (h : w.nothingLost) (jobId : Uuid) :
    (w.step (.enqueueAffected jobId)).nothingLost := by
  intro team place hplace
  change ((enqueueAffectedForImport jobId w.db).queue.get? team).isSome = true ∨ w.refreshed team place
  rw [get?_enqueueAffectedForImport]
  by_cases hteam : team ∈ w.db.tables.affectedTeams jobId
  · rw [if_pos hteam]
    exact Or.inl rfl
  · rw [if_neg hteam]
    apply h team place
    rcases List.mem_append.mp hplace with hold | hnew
    · exact hold
    · obtain ⟨affected,haffected,hpair⟩ := List.mem_flatMap.mp hnew
      obtain ⟨_,_,heq⟩ := List.mem_map.mp hpair
      cases heq
      exact absurd haffected hteam

theorem isSome_modify {queue : Table Uuid RerenderRow} {team x : Uuid} (f : RerenderRow → RerenderRow)
    (h : (queue.get? x).isSome = true) : ((queue.modify team f).get? x).isSome = true := by
  rw [Table.get?_modify]
  split
  · rw [Option.isSome_map]
    exact h
  · exact h

theorem nothingLost_finish (h : w.nothingLost) (hkept : Kept w) (number : ℕ)
    (hcurrent : w.finishesCurrent (.finish number)) : (w.step (.finish number)).nothingLost := by
  simp only [World.step]
  split
  · next team claimed stage htask =>
    split
    · next succeeded houtcome =>
      cases claimed with
      | false => exact nothingLost_of h (fun _ hrow => hrow) rfl (fun _ hr => hr)
      | true =>
        cases succeeded with
        | false => exact nothingLost_of h (fun _ hrow => isSome_modify _ hrow) rfl (fun _ hr => hr)
        | true =>
          intro x place hplace
          change ((finishRerender team true w.db).queue.get? x).isSome = true ∨ w.refreshed x place
          rw [get?_finishRerender_true]
          by_cases hx : x = team
          · subst hx
            right
            rcases h x place hplace with hrow | hdone
            · obtain ⟨seen,hstage,hseen⟩ := hcurrent number _ rfl htask rfl houtcome hrow
              have hstage' : stage = .rendered seen := hstage
              subst hstage'
              exact ⟨seen,hkept.recorded number x true seen htask,hseen place hplace⟩
            · exact hdone
          · rw [if_neg hx]
            exact h x place hplace
    · exact h
  · exact h

theorem nothingLost_step (h : w.nothingLost) (hkept : Kept w) (label : Label)
    (hcurrent : w.finishesCurrent label) : (w.step label).nothingLost := by
  cases label with
  | enqueueAffected jobId => exact nothingLost_enqueue h jobId
  | finish number => exact nothingLost_finish h hkept number hcurrent
  | claim number locked =>
    simp only [World.step]
    split
    · split
      · exact h
      · next team db hclaim =>
        rcases claimRerender_cases locked w.db with hnone | ⟨chosen,old,_,_,_,hsome⟩
        · rw [hnone] at hclaim
          cases hclaim
        · rw [hsome] at hclaim
          cases hclaim
          exact nothingLost_of h (fun _ hrow => isSome_modify _ hrow) rfl (fun _ hr => hr)
    · exact h
  | applyRender number pin answered =>
    simp only [World.step]
    split
    · exact nothingLost_of h (fun _ hrow => hrow) rfl (fun _ hr => List.mem_append_left _ hr)
    · exact h
  | tick millis => exact nothingLost_of h (fun _ hrow => hrow) rfl (fun _ hr => hr)
  | applyImport jobId tables => exact nothingLost_of h (fun _ hrow => hrow) rfl (fun _ hr => hr)
  | other tables => exact nothingLost_of h (fun _ hrow => hrow) rfl (fun _ hr => hr)
  | crash number => exact nothingLost_of h (fun _ hrow => hrow) rfl (fun _ hr => hr)
  | refresh number team =>
    simp only [World.step,World.begin]
    split
    · exact nothingLost_of h (fun _ hrow => hrow) rfl (fun _ hr => hr)
    · exact h
  | assign number team =>
    simp only [World.step,World.begin]
    split
    · exact nothingLost_of h (fun _ hrow => hrow) rfl (fun _ hr => hr)
    · exact h
  | teamDetail number =>
    simp only [World.step]
    split
    · exact nothingLost_of h (fun _ hrow => hrow) rfl (fun _ hr => hr)
    · exact h
  | automaticValues number =>
    simp only [World.step]
    split
    · exact nothingLost_of h (fun _ hrow => hrow) rfl (fun _ hr => hr)
    · exact h
  | fail number =>
    simp only [World.step]
    split
    · split
      · exact nothingLost_of h (fun _ hrow => hrow) rfl (fun _ hr => hr)
      · exact h
    · exact h

/-- A failed row keeps its attempts when it is enqueued again, so they are those of a new row
exactly when no failed row is. -/
theorem renewsAttempts_iff (hkept : Kept w) (label : Label) :
    w.renewsAttempts label ↔ w.meetsNoFailed label := by
  constructor
  · rintro h jobId rfl team hteam row hrow hfailed
    have hafter := get?_enqueueAffectedForImport jobId w.db team
    rw [if_pos hteam,hrow] at hafter
    have hnew : row.attempts = 0 :=
      h jobId rfl team hteam row (row.requeued w.db.now) hrow hfailed hafter
    have hexhausted := hkept.exhausted team row hrow hfailed
    omega
  · intro h jobId hlabel team hteam row row' hrow hfailed
    exact absurd hfailed (h jobId hlabel team hteam row hrow)

/-- In every run in which each success that deletes a row has rendered values read after every change
that the team was enqueued for, no change is lost. A row that is enqueued again has the attempts of a
new one exactly when no enqueue meets a failed row. -/
theorem no_refresh_lost (now : Timestamp) (tables : Tables) (ops : List Label) :
    (Along World.step World.finishesCurrent (World.start now tables) ops →
      Along World.step (fun w label => (w.step label).nothingLost) (World.start now tables) ops) ∧
    (Along World.step World.renewsAttempts (World.start now tables) ops ↔
      Along World.step World.meetsNoFailed (World.start now tables) ops) := by
  have hkept : ∀ pre, Kept (run World.step (World.start now tables) pre) :=
    run_invariant Kept (fun _ label h => h.step label) (kept_start now tables)
  constructor
  · intro h
    apply h.of_invariant (fun w => Kept w ∧ w.nothingLost)
    · intro w label hw hcurrent
      exact ⟨hw.1.step label,nothingLost_step hw.2 hw.1 label hcurrent⟩
    · intro w label hw hcurrent
      exact nothingLost_step hw.2 hw.1 label hcurrent
    · refine ⟨kept_start now tables,?_⟩
      intro team place hplace
      cases hplace
  · rw [along_iff,along_iff]
    constructor
    · intro h pre label post hops
      exact (renewsAttempts_iff (hkept pre) label).mp (h pre label post hops)
    · intro h pre label post hops
      exact (renewsAttempts_iff (hkept pre) label).mpr (h pre label post hops)

/-! ## A team of one student -/

def studentLink : UserLink := ⟨some 1,none,.linked,some 0,rfl⟩

def updatedStudent : ImportRow where
  naturalKey := .obj [("reg_no",.str "R1")]
  payload := .obj [("reg_no",.str "R1"),("name",.str "New name")]
  existingPayload := none
  action := .update
  status := .applied
  errorCode := none
  errorMessage := none

def appliedJob : ImportJob := ⟨none,.updateOnly,.applied,1,0,1,0,0,0⟩

def teamPin : FrontMatterPin := ⟨8,none,"PROGRAMME_DEFAULT",9,"READY",.arr [],none⟩

/-- Team 7, whose only member is linked to a student that the jobs 3 and 4 update. -/
def oneStudent : Tables where
  pins := Table.empty.upsert 7 teamPin
  members := ⟨Table.empty.upsert (7,1) ⟨9,true,some 0⟩,by decide⟩
  links
    | .student => ⟨Table.empty.upsert "R1" studentLink,by decide⟩
    | _ => .empty
  jobs := (Table.empty.upsert 3 appliedJob).upsert 4 appliedJob
  rows := (Table.empty.upsert (3,.students,1) updatedStudent).upsert (4,.students,1) updatedStudent

def oneRefresh : List Label :=
  [.applyImport 3 oneStudent,.enqueueAffected 3,.claim 0 [],.teamDetail 0,.automaticValues 0,
    .applyRender 0 teamPin true,.finish 0]

theorem no_refresh_lost_rendered :
    let w := run World.step (World.start 0 oneStudent) oneRefresh
    w.db.queue.get? 7 = none ∧ (7,0) ∈ w.owed ∧ w.refreshed 7 0 := by
  have hcurrent : Along World.step World.finishesCurrent (World.start 0 oneStudent) oneRefresh := by
    refine ⟨?_,?_,?_,?_,?_,?_,?_,trivial⟩
    · rintro _ _ ⟨⟩
    · rintro _ _ ⟨⟩
    · rintro _ _ ⟨⟩
    · rintro _ _ ⟨⟩
    · rintro _ _ ⟨⟩
    · rintro _ _ ⟨⟩
    · rintro number task ⟨⟩ htask - - -
      have hrendered : task = ⟨7,true,.rendered 1⟩ := by
        have hsome : some task = some ⟨7,true,.rendered 1⟩ := htask.symm.trans (by decide +kernel)
        exact Option.some.inj hsome
      subst hrendered
      refine ⟨1,rfl,?_⟩
      intro place hplace
      have howed : (run World.step (World.start 0 oneStudent) oneRefresh.dropLast).owed = [(7,0)] := by
        decide +kernel
      change (7,place) ∈ (run World.step (World.start 0 oneStudent) oneRefresh.dropLast).owed at hplace
      rw [howed,List.mem_singleton] at hplace
      cases hplace
      exact Nat.zero_lt_one
  have hlost := (no_refresh_lost 0 oneStudent oneRefresh).1 hcurrent
  obtain ⟨_,_,_,_,_,_,hend,_⟩ := hlost
  have howed : (7,0) ∈ (run World.step (World.start 0 oneStudent) oneRefresh).owed := by
    decide +kernel
  have hgone : (run World.step (World.start 0 oneStudent) oneRefresh).db.queue.get? 7 = none := by
    decide +kernel
  refine ⟨hgone,howed,?_⟩
  rcases hend 7 0 howed with hrow | hdone
  · change ((run World.step (World.start 0 oneStudent) oneRefresh).db.queue.get? 7).isSome = true at hrow
    rw [hgone] at hrow
    cases hrow
  · exact hdone

/-- A second change is committed and enqueued while a worker renders the values that it read before
it, and the worker then deletes the row. -/
def staleRefresh : List Label :=
  [.applyImport 3 oneStudent,.enqueueAffected 3,.claim 0 [],.teamDetail 0,.automaticValues 0,
    .applyImport 4 oneStudent,.enqueueAffected 4,.applyRender 0 teamPin true,.finish 0]

theorem stale_refresh_loses_change :
    ¬(run World.step (World.start 0 oneStudent) staleRefresh).nothingLost := by
  intro h
  have howed : (7,1) ∈ (run World.step (World.start 0 oneStudent) staleRefresh).owed := by
    decide +kernel
  have hgone : (run World.step (World.start 0 oneStudent) staleRefresh).db.queue.get? 7 = none := by
    decide +kernel
  have hrenders : (run World.step (World.start 0 oneStudent) staleRefresh).renders = [(7,1)] := by
    decide +kernel
  rcases h 7 1 howed with hrow | ⟨seen,hseen,hlt⟩
  · rw [hgone] at hrow
    cases hrow
  · rw [hrenders,List.mem_singleton] at hseen
    cases hseen
    omega

end LatexCore.FrontMatter
