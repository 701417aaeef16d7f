import LatexCore.Imports.Datasets

/-! # Import jobs and batches

A job holds the rows of one file with the action that validation found for each
of them; a batch holds the jobs of several files. An apply takes the valid rows
to the datasets in one transaction. Teams that cannot be materialized afterwards
are marked on the rows of one job, and the counters of its batch follow.
-/
namespace LatexCore.Imports
open Core Foundation
open Institution (InstitutionError PersonKind ExternalId)

inductive ImportMode
  | validateOnly | merge | addOnly | updateOnly | deleteOnly
deriving DecidableEq

inductive InstitutionOperation
  | add | edit | delete
deriving DecidableEq

def InstitutionOperation.mode : InstitutionOperation → ImportMode
  | .add => .addOnly
  | .edit => .updateOnly
  | .delete => .deleteOnly

/-- The states of a job and of a batch. -/
inductive ImportStatus
  | validated | applying | applied | incomplete | failed
deriving DecidableEq

/-- `status == "APPLIED" || status == "PARTIAL"`. -/
def ImportStatus.done (status : ImportStatus) : Bool := status == .applied || status == .incomplete

inductive RowStatus
  | valid | error | applied | skipped | unresolved
deriving DecidableEq

/-- `status IN ('ERROR','UNRESOLVED')`. -/
def RowStatus.wrong (status : RowStatus) : Bool := status == .error || status == .unresolved

inductive RowAction
  | insert | update | delete | skip | invalid
deriving DecidableEq

def RowAction.parse? : String → Option RowAction
  | "INSERT" => some .insert
  | "UPDATE" => some .update
  | "DELETE" => some .delete
  | "SKIP" => some .skip
  | "INVALID" => some .invalid
  | _ => none

/-- A row of an upload as validation leaves it. -/
structure SourceRow where
  uploadIndex : ℕ
  dataset : Dataset
  rowNumber : ℕ
  naturalKey : Value
  payload : Value
  existingPayload : Option Value
  error : Option (String × String)

def actionFor (row : SourceRow) : String :=
  ((row.payload.get? "__action").bind Value.asStr?).getD "INSERT"

abbrev RowKey := Uuid × Dataset × ℕ

structure ImportRow where
  naturalKey : Value
  payload : Value
  existingPayload : Option Value
  action : RowAction
  status : RowStatus
  errorCode : Option String
  errorMessage : Option String

def ImportRow.teamKey (row : ImportRow) : Option String :=
  (row.naturalKey.get? "external_team_key").bind Value.asStr?

structure ImportJob where
  batchId : Option Uuid
  mode : ImportMode
  status : ImportStatus
  totalRows : ℕ
  insertedRows : ℕ
  updatedRows : ℕ
  skippedRows : ℕ
  errorRows : ℕ
  createdAt : Timestamp

structure ImportBatch where
  operation : InstitutionOperation
  status : ImportStatus
  totalFiles : ℕ
  totalRows : ℕ
  addedRows : ℕ
  editedRows : ℕ
  deletedRows : ℕ
  skippedRows : ℕ
  errorRows : ℕ

structure Accounts where
  /-- The users that the people of a kind are linked to. -/
  links : PersonKind → Table ExternalId (Option UserId)
  roles : Table UserId GlobalRole

structure TeamLink where
  paperTeamId : Uuid
  sourceImportJobId : Uuid
deriving DecidableEq

structure Db where
  now : Timestamp
  tables : Tables
  accounts : Accounts
  /-- The materialized teams, each with one key and each key with one team. -/
  teamLinks : Indexed String TeamLink Uuid (fun _ link => some link.paperTeamId)
  /-- The programmes with template defaults, and those that pinned a template or a front matter. -/
  programmesHeld : List String
  batches : Table Uuid ImportBatch
  jobs : Table Uuid ImportJob
  rows : Table RowKey ImportRow

/-! ## Validated uploads -/

/-- The row of `institution_import_rows` for a validated row. -/
def importRow (row : SourceRow) : Option ImportRow :=
  if row.error.isSome then
    some ⟨row.naturalKey,row.payload,row.existingPayload,.invalid,.error,row.error.map Prod.fst,
      row.error.map Prod.snd⟩
  else (RowAction.parse? (actionFor row)).map (fun action =>
    ⟨row.naturalKey,row.payload,row.existingPayload,action,.valid,none,none⟩)

def insertRow (jobId : Uuid) (rows : Table RowKey ImportRow) (row : SourceRow) :
    Except InstitutionError (Table RowKey ImportRow) := do
  let stored ← require (importRow row) (.database "institution_import_rows_action_values")
  require (rows.insert? (jobId,row.dataset,row.rowNumber) stored) (.database "institution_import_rows_pkey")

def errorCount (rows : List SourceRow) : ℕ := rows.countP (fun row => row.error.isSome)

def actionCount (rows : List SourceRow) (action : String) : ℕ :=
  rows.countP (fun row => row.error.isNone && actionFor row == action)

def validatedStatus (errorRows : ℕ) : ImportStatus := if errorRows = 0 then .validated else .failed

def insertJob (jobId : Uuid) (batchId : Option Uuid) (mode : ImportMode) (rows : List SourceRow)
    (db : Db) : Except InstitutionError Db := do
  let job : ImportJob := ⟨batchId,mode,validatedStatus (errorCount rows),rows.length,0,0,0,
    errorCount rows,db.now⟩
  let jobs ← require (db.jobs.insert? jobId job) (.database "institution_import_jobs_pkey")
  let stored ← rows.foldlM (insertRow jobId) db.rows
  pure { db with jobs := jobs, rows := stored }

/-- The transaction of `validate_upload`. -/
def validateUpload (jobId : Uuid) (mode : ImportMode) (rows : List SourceRow) (db : Db) :
    Except InstitutionError (Db × Uuid) := do
  let db ← insertJob jobId none mode rows db
  pure (db,jobId)

def insertJobs (batchId : Uuid) (mode : ImportMode) (rows : List SourceRow) :
    List (Uuid × ℕ) → Db → Except InstitutionError Db
  | [], db => .ok db
  | (jobId,index) :: rest, db => do
    let db ← insertJob jobId (some batchId) mode (rows.filter (fun row => row.uploadIndex == index)) db
    insertJobs batchId mode rows rest db

/-- The transaction of `validate_batch`, for uploads whose jobs have the given identifiers. -/
def validateBatch (batchId : Uuid) (operation : InstitutionOperation) (jobIds : List Uuid)
    (rows : List SourceRow) (db : Db) : Except InstitutionError (Db × Uuid) := do
  ensure (!jobIds.isEmpty && jobIds.length ≤ 20)
    (.invalidInput "select between 1 and 20 CSV/XLSX files")
  ensure (rows.all (fun row => row.uploadIndex < jobIds.length)) (.invalidInput "upload index")
  let batches ← require (db.batches.insert? batchId ⟨operation,validatedStatus (errorCount rows),
    jobIds.length,rows.length,actionCount rows "INSERT",actionCount rows "UPDATE",
    actionCount rows "DELETE",actionCount rows "SKIP",errorCount rows⟩)
    (.database "institution_import_batches_pkey")
  let db ← insertJobs batchId operation.mode rows jobIds.zipIdx { db with batches := batches }
  pure (db,batchId)

/-! ## Application -/

/-- What a run of the server brings to an apply: what provisioning and reconciliation make of the
accounts, and the order in which the planner visits the records of an update. -/
structure ApplyFacts where
  settle : Tables → Accounts → Except InstitutionError Accounts
  visits : Dataset → List Value → List Value
  visited : ∀ dataset payloads, (visits dataset payloads).Perm payloads

/-- The kind of people whose links a deletion takes along. -/
def Dataset.personKind : Dataset → Option PersonKind
  | .students => some .student
  | .faculty => some .faculty
  | .admins => some .admin
  | _ => none

def deleteLinks (dataset : Dataset) (payloads : List Value) (accounts : Accounts) : Accounts :=
  match dataset.personKind with
  | none => accounts
  | some kind =>
    let keys := payloads.map dataset.payloadKey
    { accounts with
      links := fun k => if k = kind then
        (accounts.links kind).deleteWhere (fun id _ => keys.contains [id]) else accounts.links k }

def Db.holds (db : Db) (dataset : Dataset) (key : RecordKey) : Bool :=
  match dataset with
  | .paperTeams => key.any (fun k => (db.teamLinks.get? k).isSome)
  | .programmes => key.any db.programmesHeld.contains
  | _ => false

section
variable (texts : Texts)

def applyTable (mode : ImportMode) (facts : ApplyFacts) (dataset : Dataset) (payloads : List Value)
    (db : Db) : Except InstitutionError Db := do
  match mode with
  | .deleteOnly =>
    let tables ← deleteQuery dataset (db.holds dataset) payloads db.tables
    pure { db with tables := tables, accounts := deleteLinks dataset payloads db.accounts }
  | .updateOnly =>
    let tables ← updateQuery texts dataset (facts.visits dataset payloads) db.tables
    pure { db with tables := tables }
  | .merge =>
    let tables ← applyQuery texts dataset true payloads db.tables
    pure { db with tables := tables }
  | .validateOnly | .addOnly =>
    let tables ← applyQuery texts dataset false payloads db.tables
    pure { db with tables := tables }

def Db.chosenRows (db : Db) (chosen : RowKey → ImportRow → Bool) (dataset : Dataset) :
    List (RowKey × ImportRow) :=
  (db.rows.rows.filter (fun r => r.1.2.1 == dataset && chosen r.1 r.2)).mergeSort
    (fun a b => decide (a.1.2.2 ≤ b.1.2.2))

def applyTables (mode : ImportMode) (facts : ApplyFacts) (chosen : RowKey → ImportRow → Bool)
    (order : List Dataset) (db : Db) : Except InstitutionError Db :=
  order.foldlM (fun db dataset =>
    let payloads := (db.chosenRows chosen dataset).map (fun r => r.2.payload)
    if payloads.isEmpty then .ok db else applyTable texts mode facts dataset payloads db) db

/-- The datasets that go before the accounts. -/
def ImportMode.firstOrder (mode : ImportMode) : List Dataset :=
  if mode = .deleteOnly then applyOrder.reverse else peopleApplyOrder

/-- The datasets that go after the accounts. -/
def ImportMode.lastOrder (mode : ImportMode) : List Dataset :=
  if mode = .deleteOnly then [] else assignmentApplyOrder

def applyRows (mode : ImportMode) (facts : ApplyFacts) (chosen assigned : RowKey → ImportRow → Bool)
    (db : Db) : Except InstitutionError Db := do
  let db ← applyTables texts mode facts chosen mode.firstOrder db
  let accounts ← facts.settle db.tables db.accounts
  applyTables texts mode facts assigned mode.lastOrder { db with accounts := accounts }

def ofJob (jobId : Uuid) (key : RowKey) (row : ImportRow) : Bool :=
  key.1 == jobId && row.status == .valid

def Db.inBatch (db : Db) (batchId jobId : Uuid) : Bool :=
  (db.jobs.get? jobId).any (fun job => job.batchId == some batchId)

def ofBatch (db : Db) (batchId : Uuid) (key : RowKey) (row : ImportRow) : Bool :=
  db.inBatch batchId key.1 && row.status == .valid

/-- `action IN ('INSERT','UPDATE')`. -/
def RowAction.writes (action : RowAction) : Bool := action == .insert || action == .update

/-- `action IN ('INSERT','UPDATE','DELETE')`. -/
def RowAction.changes (action : RowAction) : Bool := action.writes || action == .delete

/-- `CASE WHEN action='SKIP' THEN 'SKIPPED' ELSE 'APPLIED' END`. -/
def ImportRow.settled (row : ImportRow) : ImportRow :=
  { row with status := if row.action = .skip then .skipped else .applied }

def Db.rowsWith (db : Db) (jobId : Uuid) (action : RowAction) : ℕ :=
  db.rows.count (fun key row => key.1 == jobId && row.action == action)

def ImportJob.applied (job : ImportJob) (db : Db) (jobId : Uuid) : ImportJob :=
  { job with
    status := .applied
    insertedRows := db.rowsWith jobId .insert
    updatedRows := db.rowsWith jobId .update
    skippedRows := db.rowsWith jobId .skip }

/-- `apply_import`; an applied job is answered as it is. -/
def applyImport (jobId : Uuid) (facts : ApplyFacts) (db : Db) : Except InstitutionError (Db × Unit) := do
  let job ← require (db.jobs.get? jobId) .notFound
  ensure (job.mode ≠ .validateOnly) (.conflict "VALIDATE_ONLY jobs cannot be applied")
  if job.status.done then pure (db,())
  else do
    ensure (job.status = .validated && job.errorRows == 0)
      (.conflict "only error-free VALIDATED jobs can be applied")
    let db ← applyRows texts job.mode facts (ofJob jobId) (ofJob jobId) db
    pure ({ db with
      rows := db.rows.updateWhere (ofJob jobId) ImportRow.settled
      jobs := db.jobs.modify jobId (fun job => job.applied db jobId) },())

/-- `UPDATE institution_import_jobs SET status='APPLIED',…` for the jobs of a batch. -/
def Db.applyJobs (db : Db) (batchId : Uuid) : Table Uuid ImportJob where
  rows := db.jobs.rows.map (fun r =>
    (r.1,if r.2.batchId == some batchId then r.2.applied db r.1 else r.2))
  distinct := by
    rw [List.map_map]
    exact db.jobs.distinct

def applyBatch (batchId : Uuid) (facts : ApplyFacts) (db : Db) :
    Except InstitutionError (Db × Unit) := do
  let batch ← require (db.batches.get? batchId) .notFound
  if batch.status.done then pure (db,())
  else do
    ensure (batch.status = .validated && batch.errorRows == 0)
      (.conflict "only an error-free reviewed batch can be applied")
    let db ← applyRows texts batch.operation.mode facts
      (fun key row => ofBatch db batchId key row && row.action.changes)
      (fun key row => ofBatch db batchId key row && row.action.writes) db
    pure ({ db with
      jobs := db.applyJobs batchId
      rows := db.rows.updateWhere (ofBatch db batchId) ImportRow.settled
      batches := db.batches.modify batchId (fun batch => { batch with status := .applied }) },())

end

/-! ## Teams that could not be materialized -/

def ofTeam (jobId : Uuid) (externalTeamKey : String) (key : RowKey) (row : ImportRow) : Bool :=
  key.1 == jobId && row.teamKey == some externalTeamKey

def Db.countRows (db : Db) (scope : Uuid → Bool) (c : RowStatus → Bool) : ℕ :=
  db.rows.count (fun key row => scope key.1 && c row.status)

def Db.wrongRows (db : Db) (jobId : Uuid) : ℕ := db.countRows (fun id => id == jobId) RowStatus.wrong

def Db.wrongRowsIn (db : Db) (batchId : Uuid) : ℕ := db.countRows (db.inBatch batchId) RowStatus.wrong

def Db.modifyBatchOf (db : Db) (jobId : Uuid) (f : Uuid → ImportBatch → ImportBatch) :
    Table Uuid ImportBatch :=
  match (db.jobs.get? jobId).bind ImportJob.batchId with
  | none => db.batches
  | some batchId => db.batches.modify batchId (f batchId)

def newlyUnresolved (jobId : Uuid) (externalTeamKey : String) (key : RowKey) (row : ImportRow) : Bool :=
  ofTeam jobId externalTeamKey key row && row.status != .unresolved

def ImportRow.unresolved (reasons : List String) (row : ImportRow) : ImportRow :=
  { row with
    status := .unresolved
    errorCode := some "TEAM_UNRESOLVED"
    errorMessage := some ("; ".intercalate reasons) }

def markRows (jobId : Uuid) (externalTeamKey : String) (reasons : List String) (db : Db) : Db :=
  { db with
    rows := db.rows.updateWhere (newlyUnresolved jobId externalTeamKey) (ImportRow.unresolved reasons) }

/-- `mark_team_unresolved`; the rows of the batch are counted in `seenIn`, with its own changes. -/
def markTeamUnresolved (jobId : Uuid) (externalTeamKey : String) (reasons : List String)
    (seenIn db : Db) : Db :=
  let affected := db.rows.count (newlyUnresolved jobId externalTeamKey)
  let wrongIn := (markRows jobId externalTeamKey reasons seenIn).wrongRowsIn
  let db := markRows jobId externalTeamKey reasons db
  { db with
    jobs := db.jobs.modify jobId (fun job => { job with
      status := .incomplete
      errorRows := job.errorRows + affected })
    batches := db.modifyBatchOf jobId (fun batchId batch => { batch with
      status := .incomplete
      errorRows := wrongIn batchId }) }

def resolvedStatus (wrong : ℕ) : ImportStatus := if wrong = 0 then .applied else .incomplete

def stillUnresolved (jobId : Uuid) (externalTeamKey : String) (key : RowKey) (row : ImportRow) : Bool :=
  ofTeam jobId externalTeamKey key row && row.status == .unresolved

def ImportRow.resolved (row : ImportRow) : ImportRow :=
  { row.settled with
    errorCode := none
    errorMessage := none }

def clearRows (jobId : Uuid) (externalTeamKey : String) (db : Db) : Db :=
  { db with rows := db.rows.updateWhere (stillUnresolved jobId externalTeamKey) ImportRow.resolved }

/-- `mark_team_resolved`; the rows of the job and those of the batch are counted in `seen` and
`seenIn`, with its own changes. -/
def markTeamResolved (jobId : Uuid) (externalTeamKey : String) (seen seenIn db : Db) : Db :=
  let remaining := (clearRows jobId externalTeamKey seen).wrongRows jobId
  let wrongIn := (clearRows jobId externalTeamKey seenIn).wrongRowsIn
  let db := clearRows jobId externalTeamKey db
  { db with
    jobs := db.jobs.modify jobId (fun job => { job with
      errorRows := remaining
      status := resolvedStatus remaining })
    batches := db.modifyBatchOf jobId (fun batchId batch => { batch with
      errorRows := wrongIn batchId
      status := resolvedStatus (wrongIn batchId) }) }

end LatexCore.Imports
