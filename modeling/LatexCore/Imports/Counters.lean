import LatexCore.Foundation.Runs
import LatexCore.Imports.Jobs
import Mathlib.Logic.Function.Basic

/-! # Runs of imports and their counters

The uploads, the applies and the marks in any order, each a transaction. The
counters of a mark come from statements of their own, so a client first counts
and then commits. Beside the database a run keeps the rows that have been handed
to the datasets and the teams that stand reported as unresolved.

The counters and the states of a job and of a batch are about the rows in a
scope: those of the job, or those of the jobs of the batch. A change of rows is
followed for every scope at once, and each request then updates one job and its
batch by what it has counted.
-/
namespace LatexCore.Imports
open Core Foundation

def Db.handedRows (db : Db) (mode : ImportMode) (chosen assigned : RowKey → ImportRow → Bool) :
    List RowKey :=
  mode.firstOrder.flatMap (fun dataset => (db.chosenRows chosen dataset).map Prod.fst) ++
    mode.lastOrder.flatMap (fun dataset => (db.chosenRows assigned dataset).map Prod.fst)

/-- The rows that a successful `apply_import` hands over. -/
def Db.handedByJob (db : Db) (jobId : Uuid) : List RowKey :=
  match db.jobs.get? jobId with
  | none => []
  | some job =>
    if job.status.done then [] else db.handedRows job.mode (ofJob jobId) (ofJob jobId)

/-- The rows that a successful `apply_batch` hands over. -/
def Db.handedByBatch (db : Db) (batchId : Uuid) : List RowKey :=
  match db.batches.get? batchId with
  | none => []
  | some batch =>
    if batch.status.done then []
    else db.handedRows batch.operation.mode
      (fun key row => ofBatch db batchId key row && row.action.changes)
      (fun key row => ofBatch db batchId key row && row.action.writes)

structure World where
  db : Db
  /-- What a client has counted the rows of a job and those of a batch in. -/
  counted : ℕ → Db × Db
  /-- The rows that have been handed to the datasets, oldest first. -/
  handed : List RowKey
  /-- The teams that stand reported as unresolved, each with its job. -/
  reported : List (Uuid × String)

inductive Label
  | validateUpload (jobId : Uuid) (mode : ImportMode) (rows : List SourceRow)
  | validateBatch (batchId : Uuid) (operation : InstitutionOperation) (jobIds : List Uuid)
      (rows : List SourceRow)
  | applyImport (jobId : Uuid) (facts : ApplyFacts)
  | applyBatch (batchId : Uuid) (facts : ApplyFacts)
  | countJob (client : ℕ)
  | countBatch (client : ℕ)
  | markTeamUnresolved (client : ℕ) (jobId : Uuid) (externalTeamKey : String) (reasons : List String)
  | markTeamResolved (client : ℕ) (jobId : Uuid) (externalTeamKey : String)
  /-- Anything that leaves jobs, batches and rows alone. -/
  | elsewhere (db : Db)

variable (texts : Texts)

def World.step (w : World) : Label → World
  | .validateUpload jobId mode rows => { w with db := commit (validateUpload jobId mode rows) w.db }
  | .validateBatch batchId operation jobIds rows =>
    { w with db := commit (validateBatch batchId operation jobIds rows) w.db }
  | .applyImport jobId facts =>
    match applyImport texts jobId facts w.db with
    | .error _ => w
    | .ok (db,_) => { w with
        db := db
        handed := w.handed ++ w.db.handedByJob jobId }
  | .applyBatch batchId facts =>
    match applyBatch texts batchId facts w.db with
    | .error _ => w
    | .ok (db,_) => { w with
        db := db
        handed := w.handed ++ w.db.handedByBatch batchId }
  | .countJob client =>
    { w with counted := Function.update w.counted client (w.db,(w.counted client).2) }
  | .countBatch client =>
    { w with counted := Function.update w.counted client ((w.counted client).1,w.db) }
  | .markTeamUnresolved client jobId externalTeamKey reasons =>
    { w with
      db := markTeamUnresolved jobId externalTeamKey reasons (w.counted client).2 w.db
      reported := (jobId,externalTeamKey) :: w.reported }
  | .markTeamResolved client jobId externalTeamKey =>
    { w with
      db := markTeamResolved jobId externalTeamKey (w.counted client).1 (w.counted client).2 w.db
      reported := w.reported.filter (fun r => r != (jobId,externalTeamKey)) }
  | .elsewhere db =>
    { w with db := { db with
        batches := w.db.batches
        jobs := w.db.jobs
        rows := w.db.rows } }

def World.start (db : Db) : World where
  db := { db with
    batches := .empty
    jobs := .empty
    rows := .empty }
  counted := fun _ => (db,db)
  handed := []
  reported := []

def Db.part (db : Db) (scope : Uuid → Bool) : List (RowKey × ImportRow) :=
  db.rows.rows.filter (fun r => scope r.1.1)

/-- The job has been applied, and if it belongs to a batch then the batch has been applied, and no
commit has changed a row of the batch since the client counted them. -/
def World.marks (w : World) (client : ℕ) (jobId : Uuid) : Prop :=
  ∃ job, w.db.jobs.get? jobId = some job ∧ job.status.done = true ∧
    ∀ batchId, job.batchId = some batchId →
      (∀ batch, w.db.batches.get? batchId = some batch → batch.status.done = true) ∧
      (w.counted client).2.part ((w.counted client).2.inBatch batchId) =
        w.db.part (w.db.inBatch batchId)

/-- The steps that keep the books. -/
def World.keeps (w : World) : Label → Prop
  | .applyImport jobId _ => ∀ job batchId, w.db.jobs.get? jobId = some job →
      job.status = .validated → job.batchId = some batchId →
      w.db.countRows (w.db.inBatch batchId) (fun s => s == .error) = 0 ∧
      ∃ other job', other ≠ jobId ∧ w.db.jobs.get? other = some job' ∧
        job'.batchId = some batchId ∧ job'.status.done = false
  | .markTeamUnresolved client jobId externalTeamKey _ => w.marks client jobId ∧
      ∃ key row, w.db.rows.get? key = some row ∧ ofTeam jobId externalTeamKey key row = true
  | .markTeamResolved client jobId _ => w.marks client jobId ∧
      (w.counted client).1.part (fun id => id == jobId) = w.db.part (fun id => id == jobId)
  | _ => True

/-! ## Scopes -/

open Institution (InstitutionError)
variable {texts : Texts} {db db' : Db} {scope : Uuid → Bool} {c : RowStatus → Bool} {jobId batchId : Uuid}

def RowStatus.isError (s : RowStatus) : Bool := s == .error

def RowStatus.isUnresolved (s : RowStatus) : Bool := s == .unresolved

/-- The condition tells none of the states of a row without an error apart. -/
def Settled (c : RowStatus → Bool) : Prop := c .applied = c .valid ∧ c .skipped = c .valid

theorem settled_wrong : Settled RowStatus.wrong := ⟨rfl,rfl⟩
theorem settled_isError : Settled RowStatus.isError := ⟨rfl,rfl⟩
theorem settled_isUnresolved : Settled RowStatus.isUnresolved := ⟨rfl,rfl⟩

theorem countRows_eq_part (db : Db) (scope : Uuid → Bool) (c : RowStatus → Bool) :
    db.countRows scope c = (db.part scope).countP (fun r => c r.2.status) := by
  rw [Db.part,List.countP_filter]
  apply List.countP_congr
  intro r _
  rw [Bool.and_comm]

theorem countRows_update (db : Db) (p : RowKey → ImportRow → Bool) (f : ImportRow → ImportRow)
    (scope : Uuid → Bool) (c : RowStatus → Bool) :
    (db.rows.updateWhere p f).count (fun key row => scope key.1 && c row.status) =
      (db.part scope).countP (fun r => c (if p r.1 r.2 then f r.2 else r.2).status) := by
  rw [Table.count_updateWhere,Db.part,List.countP_filter]
  apply List.countP_congr
  intro r _
  rw [Bool.and_comm]

theorem mem_part {r : RowKey × ImportRow} :
    r ∈ db.part scope ↔ db.rows.get? r.1 = some r.2 ∧ scope r.1.1 = true := by
  rw [Db.part,List.mem_filter,← Table.mem_rows_iff]

theorem countRows_eq_zero :
    db.countRows scope c = 0 ↔ ∀ r ∈ db.part scope, c r.2.status = false := by
  rw [countRows_eq_part,List.countP_eq_zero]
  simp

theorem countRows_pos :
    0 < db.countRows scope c ↔ ∃ r ∈ db.part scope, c r.2.status = true := by
  rw [countRows_eq_part,List.countP_pos_iff]

theorem wrong_eq (s : RowStatus) : s.wrong = (s.isError || s.isUnresolved) := by
  cases s <;> rfl

theorem wrong_eq_unresolved (h : db.countRows scope RowStatus.isError = 0) :
    db.countRows scope RowStatus.wrong = db.countRows scope RowStatus.isUnresolved := by
  rw [countRows_eq_part,countRows_eq_part]
  apply List.countP_congr
  intro r hr
  rw [wrong_eq,countRows_eq_zero.mp h r hr,Bool.false_or]

/-! ## What a job and a batch say about their rows -/

structure Counted (db : Db) (scope : Uuid → Bool) (status : ImportStatus) (errorRows : ℕ) : Prop where
  errors : errorRows = db.countRows scope RowStatus.wrong
  unresolved : status = .incomplete ↔ 0 < db.countRows scope RowStatus.isUnresolved
  clean : status.done = true → db.countRows scope RowStatus.isError = 0

theorem Counted.of_eq {status : ImportStatus} {errorRows : ℕ} {scope' : Uuid → Bool}
    (h : Counted db scope status errorRows)
    (hcount : ∀ c, Settled c → db'.countRows scope' c = db.countRows scope c) :
    Counted db' scope' status errorRows where
  errors := h.errors.trans (hcount _ settled_wrong).symm
  unresolved := h.unresolved.trans (by rw [hcount _ settled_isUnresolved])
  clean := fun hdone => (hcount _ settled_isError).trans (h.clean hdone)

/-- An error-free job or batch that waits for its apply has no wrong row, and is counted right when
it is applied. -/
theorem Counted.applied {status : ImportStatus} {scope' : Uuid → Bool} (h : Counted db scope status 0)
    (hcount : ∀ c, Settled c → db'.countRows scope' c = db.countRows scope c) :
    Counted db' scope' .applied 0 := by
  have hwrong : ∀ r ∈ db.part scope, r.2.status.wrong = false := countRows_eq_zero.mp h.errors.symm
  have hnone : ∀ c, (∀ s : RowStatus, s.wrong = false → c s = false) → db.countRows scope c = 0 :=
    fun c hc => countRows_eq_zero.mpr (fun r hr => hc _ (hwrong r hr))
  have herror := hnone RowStatus.isError (by intro s; cases s <;> simp [RowStatus.wrong,RowStatus.isError])
  have hunresolved :=
    hnone RowStatus.isUnresolved (by intro s; cases s <;> simp [RowStatus.wrong,RowStatus.isUnresolved])
  refine ⟨?_,?_,?_⟩
  · rw [hcount _ settled_wrong]
    exact h.errors
  · rw [hcount _ settled_isUnresolved,hunresolved]
    simp
  · intro _
    rw [hcount _ settled_isError,herror]

/-- The books of a database: every row has a job, every job of a batch has its batch and every batch
a job, and all counters and states agree with the rows. -/
structure Sound (db : Db) : Prop where
  owned : ∀ key row, db.rows.get? key = some row → ∃ job, db.jobs.get? key.1 = some job
  batched : ∀ id job batchId, db.jobs.get? id = some job → job.batchId = some batchId →
    ∃ batch, db.batches.get? batchId = some batch
  manned : ∀ id batch, db.batches.get? id = some batch → ∃ jobId, db.inBatch id jobId = true
  job : ∀ id job, db.jobs.get? id = some job →
    Counted db (fun jobId => jobId == id) job.status job.errorRows
  batch : ∀ id batch, db.batches.get? id = some batch →
    Counted db (db.inBatch id) batch.status batch.errorRows
  gate : ∀ batchId, 0 < db.countRows (db.inBatch batchId) RowStatus.isError →
    ∀ id job, db.jobs.get? id = some job → job.batchId = some batchId → job.status.done = false
  together : ∀ id batch, db.batches.get? id = some batch →
    (batch.status.done = true ↔ ∀ jobId job, db.jobs.get? jobId = some job →
      job.batchId = some id → job.status.done = true)

theorem inBatch_iff : db.inBatch batchId jobId = true ↔
    ∃ job, db.jobs.get? jobId = some job ∧ job.batchId = some batchId := by
  rw [Db.inBatch,Option.any_eq_true]
  simp

theorem inBatch_eq (h : ∀ id, (db'.jobs.get? id).map ImportJob.batchId =
    (db.jobs.get? id).map ImportJob.batchId) (batchId : Uuid) : db'.inBatch batchId = db.inBatch batchId := by
  funext id
  have hid := h id
  unfold Db.inBatch
  cases hj : db.jobs.get? id <;> cases hj' : db'.jobs.get? id <;> rw [hj,hj'] at hid <;> simp at hid ⊢
  rw [hid]

/-! ## Changes of rows -/

theorem part_mono {scope' : Uuid → Bool} (h : ∀ id, scope' id = true → scope id = true)
    (hzero : db.countRows scope c = 0) : db.countRows scope' c = 0 := by
  rw [countRows_eq_zero] at hzero ⊢
  intro r hr
  obtain ⟨hrow,hin⟩ := mem_part.mp hr
  exact hzero r (mem_part.mpr ⟨hrow,h _ hin⟩)

theorem countRows_updateWhere {p : RowKey → ImportRow → Bool} {f : ImportRow → ImportRow}
    (hrows : db'.rows = db.rows.updateWhere p f)
    (h : ∀ key row, scope key.1 = true → p key row = true → c (f row).status = c row.status) :
    db'.countRows scope c = db.countRows scope c := by
  rw [Db.countRows,hrows,countRows_update,countRows_eq_part]
  apply List.countP_congr
  intro r hr
  by_cases hp : p r.1 r.2 = true
  · rw [if_pos hp,h r.1 r.2 (mem_part.mp hr).2 hp]
  · rw [if_neg hp]

theorem settled_status (row : ImportRow) :
    row.settled.status = .applied ∨ row.settled.status = .skipped := by
  unfold ImportRow.settled
  split
  · exact Or.inr rfl
  · exact Or.inl rfl

theorem Settled.settled (h : Settled c) (row : ImportRow) : c row.settled.status = c .valid := by
  rcases settled_status row with hs | hs <;> rw [hs]
  · exact h.1
  · exact h.2

theorem countRows_settle {chosen : Uuid → Bool}
    (hrows : db'.rows = db.rows.updateWhere (fun key row => chosen key.1 && row.status == .valid)
      ImportRow.settled) (scope : Uuid → Bool) (hc : Settled c) :
    db'.countRows scope c = db.countRows scope c := by
  apply countRows_updateWhere hrows
  intro key row _ hp
  simp only [Bool.and_eq_true,beq_iff_eq] at hp
  rw [hc.settled row,hp.2]

/-- An apply of the jobs in `chosen`, with the batches in `closed`. -/
theorem Sound.applied (h : Sound db) (chosen closed : Uuid → Bool) (counts : Db)
    (hrows : db'.rows = db.rows.updateWhere (fun key row => chosen key.1 && row.status == .valid)
      ImportRow.settled)
    (hjobs : ∀ id, db'.jobs.get? id =
      (db.jobs.get? id).map (fun job => if chosen id then job.applied counts id else job))
    (hbatches : ∀ id, db'.batches.get? id =
      (db.batches.get? id).map (fun batch => if closed id then { batch with status := .applied } else batch))
    (hjob : ∀ id job, chosen id = true → db.jobs.get? id = some job → job.errorRows = 0)
    (hbatch : ∀ id batch, closed id = true → db.batches.get? id = some batch → batch.errorRows = 0)
    (hgate : ∀ id job batchId, chosen id = true → db.jobs.get? id = some job →
      job.batchId = some batchId → db.countRows (db.inBatch batchId) RowStatus.isError = 0)
    (htogether : ∀ id batch, db.batches.get? id = some batch →
      ((closed id || batch.status.done) = true ↔ ∀ jobId job, db.jobs.get? jobId = some job →
        job.batchId = some id → (chosen jobId || job.status.done) = true)) : Sound db' := by
  have hin : ∀ batchId, db'.inBatch batchId = db.inBatch batchId := by
    apply inBatch_eq
    intro id
    rw [hjobs id,Option.map_map]
    congr 1
    funext job
    dsimp only [Function.comp_apply]
    split <;> rfl
  have hcount : ∀ scope c, Settled c → db'.countRows scope c = db.countRows scope c :=
    fun scope c hc => countRows_settle hrows scope hc
  have hjobCases : ∀ {id job'}, db'.jobs.get? id = some job' → ∃ job, db.jobs.get? id = some job ∧
      job'.batchId = job.batchId ∧ job'.errorRows = job.errorRows ∧
      job'.status = if chosen id then .applied else job.status := by
    intro id job' hget
    rw [hjobs id,Option.map_eq_some_iff] at hget
    obtain ⟨job,hjob,rfl⟩ := hget
    refine ⟨job,hjob,?_⟩
    by_cases hchosen : chosen id = true
    · simp [hchosen,ImportJob.applied]
    · simp [hchosen]
  constructor
  · intro key row hget
    rw [hrows,Table.get?_updateWhere,Option.map_eq_some_iff] at hget
    obtain ⟨old,hold,_⟩ := hget
    obtain ⟨job,hjob⟩ := h.owned key old hold
    exact ⟨_,by rw [hjobs,hjob]; rfl⟩
  · intro id job' batchId hget hbatchId
    obtain ⟨job,hold,hsame,_⟩ := hjobCases hget
    obtain ⟨batch,hb⟩ := h.batched id job batchId hold (hsame ▸ hbatchId)
    exact ⟨_,by rw [hbatches,hb]; rfl⟩
  · intro id batch hget
    rw [hbatches id,Option.map_eq_some_iff] at hget
    obtain ⟨old,hold,_⟩ := hget
    rw [hin id]
    exact h.manned id old hold
  · intro id job' hget
    obtain ⟨job,hold,_,herrors,hstatus⟩ := hjobCases hget
    rw [herrors,hstatus]
    have hcounted := h.job id job hold
    by_cases hchosen : chosen id = true
    · rw [if_pos hchosen]
      have hzero := hjob id job hchosen hold
      rw [hzero] at hcounted ⊢
      exact hcounted.applied (hcount _)
    · rw [if_neg hchosen]
      exact hcounted.of_eq (hcount _)
  · intro id batch' hget
    rw [hbatches id,Option.map_eq_some_iff] at hget
    obtain ⟨batch,hold,rfl⟩ := hget
    rw [hin id]
    have hcounted := h.batch id batch hold
    by_cases hclosed : closed id = true
    · rw [if_pos hclosed]
      have hzero := hbatch id batch hclosed hold
      rw [hzero] at hcounted
      rw [show ({ batch with status := .applied } : ImportBatch).errorRows = 0 from hzero]
      exact hcounted.applied (hcount _)
    · rw [if_neg hclosed]
      exact hcounted.of_eq (hcount _)
  · intro batchId hpos id job' hget hbatchId
    obtain ⟨job,hold,hsame,_,hstatus⟩ := hjobCases hget
    rw [hin,hcount _ _ settled_isError] at hpos
    rw [hsame] at hbatchId
    have hnot : chosen id ≠ true := by
      intro hchosen
      have hzero := hgate id job batchId hchosen hold hbatchId
      omega
    rw [hstatus,if_neg hnot]
    exact h.gate batchId hpos id job hold hbatchId
  · intro id batch' hget
    rw [hbatches id,Option.map_eq_some_iff] at hget
    obtain ⟨batch,hold,rfl⟩ := hget
    have hdone : (if closed id then { batch with status := .applied } else batch : ImportBatch).status.done =
        (closed id || batch.status.done) := by
      by_cases hclosed : closed id = true <;> simp [hclosed,ImportStatus.done]
    rw [hdone,htogether id batch hold]
    constructor
    · intro hall jobId job' hget' hbatchId
      obtain ⟨job,hjobOld,hsame,_,hstatus⟩ := hjobCases hget'
      have hor := hall jobId job hjobOld (hsame ▸ hbatchId)
      rw [hstatus]
      by_cases hchosen : chosen jobId = true
      · simp [hchosen,ImportStatus.done]
      · simpa [hchosen] using hor
    · intro hall jobId job hjobOld hbatchId
      by_cases hchosen : chosen jobId = true
      · simp [hchosen]
      · have hget' : db'.jobs.get? jobId = some job := by
          rw [hjobs,hjobOld,Option.map_some,if_neg hchosen]
        simpa [hchosen] using hall jobId job hget' hbatchId

end LatexCore.Imports
