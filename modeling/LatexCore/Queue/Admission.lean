import LatexCore.Foundation.Runs
import LatexCore.Queue.Submit

/-! # The statements of an admission

A call of `enqueue` is not one step here. The permission is read before the
transaction; the transaction then takes the advisory lock of its user, looks for
a repeated key, checks the ownership, counts the outstanding jobs and inserts the
row. Every other call of the queue may commit between two of these statements.
-/
namespace LatexCore.Queue
open Core Foundation

abbrev CallId := ℕ

/-- What a call of `enqueue` has done; from `locked` on it holds the lock of its user. -/
inductive Progress
  | permitted | locked | unrepeated | owned | counted
deriving DecidableEq

structure EnqueueCall where
  request : EnqueueRequest
  progress : Progress

/-- The calls that are under way beside the tables. -/
structure Intake where
  db : Db
  calls : Table CallId EnqueueCall

def Intake.empty : Intake := ⟨.empty,.empty⟩

inductive Outcome
  | inserted (id : JobId)
  | repeated (id : JobId)
  | refused (error : QueueError)
deriving DecidableEq

/-- The answer of a call. -/
structure Reply where
  request : EnqueueRequest
  outcome : Outcome

/-- The job that a successful call returns. -/
def Outcome.job? : Outcome → Option JobId
  | .inserted id | .repeated id => some id
  | .refused _ => none

def Outcome.inserted? : Outcome → Option JobId
  | .inserted id => some id
  | _ => none

def EnqueueCall.holds (call : EnqueueCall) (user : UserId) : Bool :=
  call.progress != .permitted && call.request.userId == user

namespace Intake

/-- `pg_advisory_xact_lock` of the user is taken. -/
def lockTaken (s : Intake) (user : UserId) : Bool := s.calls.rows.any (fun r => r.2.holds user)

/-- The request of a call that has come exactly so far. -/
def at? (s : Intake) (call : CallId) (progress : Progress) : Option EnqueueRequest :=
  ((s.calls.get? call).filter (fun c => c.progress == progress)).map EnqueueCall.request

def advance (s : Intake) (call : CallId) (progress : Progress) : Intake :=
  { s with calls := s.calls.modify call (fun c => { c with progress }) }

/-- The transaction ends, and its lock with it. -/
def finish (s : Intake) (call : CallId) : Intake :=
  { s with calls := s.calls.deleteWhere (fun k _ => k == call) }

end Intake

def storedJob (db : Db) (request : EnqueueRequest) : Option (JobId × Job) :=
  db.jobs.rows.find? (fun r => r.2.userId == request.userId &&
    r.2.idempotencyKey == request.idempotencyKey)

def outstandingJobs (db : Db) (user : UserId) : ℕ :=
  db.jobs.count (fun _ j => j.userId == user && j.state.outstanding)

def EnqueueRequest.job (request : EnqueueRequest) (now : Timestamp) : Job :=
  Job.queued request.tenantId request.userId request.workspaceId request.inputs
    request.idempotencyKey request.costClass request.priority now

def QueueOp.enqueues : QueueOp → Bool
  | .enqueue .. => true
  | _ => false

inductive IntakeOp
  | begin (call : CallId) (request : EnqueueRequest) (compileSubmit : Except QueueError Bool)
  | lock (call : CallId)
  | lookup (call : CallId)
  | ownership (call : CallId) (owned snapshotKnown : Bool)
  | count (call : CallId)
  | insert (call : CallId) (references : Bool) (now : Timestamp)
  | abort (call : CallId)
  | queue (op : QueueOp) (h : op.enqueues = false)

section
variable (limits : QueueLimits)

def Intake.answer (s : Intake) (call : CallId) (request : EnqueueRequest) (outcome : Outcome) :
    Intake × List Reply := (s.finish call,[⟨request,outcome⟩])

/-- One statement, and the answer of the call that it ends. -/
def Intake.act (s : Intake) : IntakeOp → Intake × List Reply
  | .begin call request compileSubmit =>
    match compileSubmit with
    | .error error => (s,[⟨request,.refused error⟩])
    | .ok false => (s,[⟨request,.refused .notFound⟩])
    | .ok true =>
      ({ s with calls := (s.calls.insert? call ⟨request,.permitted⟩).getD s.calls },[])
  | .lock call =>
    match s.at? call .permitted with
    | none => (s,[])
    | some request => (if s.lockTaken request.userId then s else s.advance call .locked,[])
  | .lookup call =>
    match s.at? call .locked with
    | none => (s,[])
    | some request =>
      match storedJob s.db request with
      | none => (s.advance call .unrepeated,[])
      | some (id,j) => s.answer call request
          (if j.inputs = request.inputs then .repeated id else .refused .idempotencyConflict)
  | .ownership call owned snapshotKnown =>
    match s.at? call .unrepeated with
    | none => (s,[])
    | some request =>
      if owned && snapshotKnown then (s.advance call .owned,[])
      else s.answer call request (.refused .notFound)
  | .count call =>
    match s.at? call .owned with
    | none => (s,[])
    | some request =>
      if outstandingJobs s.db request.userId < limits.perUserOutstanding then
        (s.advance call .counted,[])
      else s.answer call request
        (.refused (.admissionRejected "per-user outstanding" limits.perUserOutstanding))
  | .insert call references now =>
    match s.at? call .counted with
    | none => (s,[])
    | some request =>
      if references then
        match insertJob s.db request.jobId (request.job now) with
        | .ok db => { s with db := db }.answer call request (.inserted request.jobId)
        | .error constraint => s.answer call request (.refused (.database constraint))
      else s.answer call request (.refused (.database "compile_jobs_foreign_keys"))
  | .abort call => (s.finish call,[])
  | .queue op _ => ({ s with db := step limits s.db op },[])

def Intake.step (s : Intake) (op : IntakeOp) : Intake := (s.act limits op).1

def Intake.replies (s : Intake) (op : IntakeOp) : List Reply := (s.act limits op).2

end

/-! ## One call alone -/

def callAlone (call : CallId) (request : EnqueueRequest) (facts : EnqueueFacts) (clock : Clock) :
    List IntakeOp :=
  [.begin call request facts.compileSubmit,.lock call,.lookup call,
    .ownership call facts.owned facts.snapshotKnown,.count call,
    .insert call facts.references clock.started]

/-- The answer of a call as its caller sees it. -/
def Outcome.result : Outcome → Except QueueError JobId
  | .inserted id | .repeated id => .ok id
  | .refused error => .error error

def Intake.single (db : Db) (call : CallId) (request : EnqueueRequest) (progress : Progress) : Intake :=
  ⟨db,⟨[(call,⟨request,progress⟩)],List.nodup_singleton _⟩⟩

variable {limits : QueueLimits} {db : Db} {call : CallId} {request : EnqueueRequest} {progress next : Progress}

@[simp] theorem Intake.at?_single :
    (Intake.single db call request progress).at? call next = if progress = next then some request else none := by
  by_cases h : progress = next
  · simp [Intake.at?,Intake.single,Table.get?,Option.filter,h]
  · simp [Intake.at?,Intake.single,Table.get?,Option.filter,h]

@[simp] theorem Intake.advance_single :
    (Intake.single db call request progress).advance call next = .single db call request next := by
  simp [Intake.advance,Intake.single,Table.modify,Table.updateWhere]

@[simp] theorem Intake.finish_single :
    (Intake.single db call request progress).finish call = ⟨db,.empty⟩ := by
  simp [Intake.finish,Intake.single,Table.deleteWhere,Table.empty]

@[simp] theorem Intake.at?_idle : (Intake.mk db .empty).at? call progress = none := rfl

theorem lockTaken_permitted : (Intake.single db call request .permitted).lockTaken request.userId = false := rfl

@[simp] theorem Intake.single_db : (Intake.single db call request progress).db = db := rfl

@[simp] theorem Intake.insert_single {db' : Db} :
    ({ Intake.single db call request progress with db := db' } : Intake) = .single db' call request progress := rfl

/-- The transaction of `enqueue` for a caller with the permission. -/
theorem enqueue_eq {owned snapshotKnown references : Bool} {clock : Clock} :
    enqueue limits db request ⟨.ok true,owned,snapshotKnown,references⟩ clock =
        match storedJob db request with
        | some (id,j) => if j.inputs = request.inputs then .ok (db,id) else .error .idempotencyConflict
        | none =>
          if owned && snapshotKnown then
            if outstandingJobs db request.userId < limits.perUserOutstanding then
              if references then
                ((insertJob db request.jobId (request.job clock.started)).mapError
                  QueueError.database).map (fun db => (db,request.jobId))
              else .error (.database "compile_jobs_foreign_keys")
            else .error (.admissionRejected "per-user outstanding" limits.perUserOutstanding)
          else .error .notFound := by
  unfold enqueue storedJob outstandingJobs
  simp only [bind,Except.bind,ensure,if_true,pure,Except.pure]
  cases db.jobs.rows.find? (fun r => r.2.userId == request.userId &&
      r.2.idempotencyKey == request.idempotencyKey) with
  | some found =>
    by_cases hinputs : found.2.inputs = request.inputs
    · simp [hinputs]
    · simp [hinputs]
  | none =>
    cases owned with
    | false => rfl
    | true =>
      cases snapshotKnown with
      | false => rfl
      | true =>
        by_cases hroom : db.jobs.count (fun _ j => j.userId == request.userId &&
            j.state.outstanding) < limits.perUserOutstanding
        · cases references with
          | false => simp [hroom]
          | true =>
            simp only [hroom,decide_true,Bool.and_self,if_true]
            unfold EnqueueRequest.job
            cases insertJob db request.jobId (Job.queued request.tenantId request.userId
                request.workspaceId request.inputs request.idempotencyKey request.costClass
                request.priority clock.started) with
            | error e => rfl
            | ok db' => rfl
        · simp [hroom]

theorem act_lookup : Intake.act limits (.single db call request .locked) (.lookup call) =
    match storedJob db request with
    | none => (.single db call request .unrepeated,[])
    | some (id,j) => (⟨db,.empty⟩,[⟨request,
      if j.inputs = request.inputs then .repeated id else .refused .idempotencyConflict⟩]) := by
  simp only [Intake.act,Intake.at?_single,if_true,Intake.advance_single,Intake.answer,
    Intake.finish_single]
  rfl

theorem commit_eq {σ ε α : Type} (t : σ → Except ε (σ × α)) (s : σ) :
    commit t s = match t s with
      | .ok r => r.1
      | .error _ => s := by
  cases h : t s with
  | error e => rw [commit_error h]
  | ok r => rw [commit_ok h]

end LatexCore.Queue
