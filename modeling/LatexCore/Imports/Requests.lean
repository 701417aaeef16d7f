import LatexCore.Imports.Counters

/-! # What the requests do to jobs, batches and rows

Applies and marks change rows that are there, and uploads add new jobs with
their rows. Each keeps the books under the condition that the runs ask of it.
-/
namespace LatexCore.Imports
open Core Foundation
open Institution (InstitutionError)
variable {texts : Texts} {db db' : Db} {jobId batchId : Uuid} {facts : ApplyFacts}

/-! ## Applies -/

structure Keeps (db db' : Db) : Prop where
  batches : db'.batches = db.batches
  jobs : db'.jobs = db.jobs
  rows : db'.rows = db.rows

theorem Keeps.refl : Keeps db db := ⟨rfl,rfl,rfl⟩

theorem Keeps.trans {db'' : Db} (h : Keeps db db') (h' : Keeps db' db'') : Keeps db db'' :=
  ⟨h'.batches.trans h.batches,h'.jobs.trans h.jobs,h'.rows.trans h.rows⟩

theorem applyTable_keeps {mode : ImportMode} {dataset : Dataset} {payloads : List Value}
    (h : applyTable texts mode facts dataset payloads db = .ok db') : Keeps db db' := by
  cases mode <;> simp only [applyTable,bind_ok,pure_ok] at h <;> obtain ⟨tables,_,rfl⟩ := h <;>
    exact ⟨rfl,rfl,rfl⟩

theorem applyTables_keeps {mode : ImportMode} {chosen : RowKey → ImportRow → Bool}
    {order : List Dataset} (h : applyTables texts mode facts chosen order db = .ok db') :
    Keeps db db' := by
  induction order generalizing db with
  | nil =>
    cases h
    exact Keeps.refl
  | cons dataset rest ih =>
    simp only [applyTables,List.foldlM_cons,bind_ok] at h
    obtain ⟨mid,hmid,hrest⟩ := h
    have hfirst : Keeps db mid := by
      split at hmid
      · cases hmid
        exact Keeps.refl
      · exact applyTable_keeps hmid
    exact hfirst.trans (ih hrest)

theorem applyRows_keeps {mode : ImportMode} {chosen assigned : RowKey → ImportRow → Bool}
    (h : applyRows texts mode facts chosen assigned db = .ok db') : Keeps db db' := by
  simp only [applyRows,bind_ok] at h
  obtain ⟨first,hfirst,accounts,_,hlast⟩ := h
  have hmid : Keeps first { first with accounts := accounts } := ⟨rfl,rfl,rfl⟩
  exact (applyTables_keeps hfirst).trans (hmid.trans (applyTables_keeps hlast))

/-- A successful `apply_import` finds its job applied, or error-free and waiting. -/
theorem applyImport_cases (h : applyImport texts jobId facts db = .ok (db',())) :
    ∃ job, db.jobs.get? jobId = some job ∧
      ((job.status.done = true ∧ db' = db) ∨
        (job.status = .validated ∧ job.errorRows = 0 ∧ db'.batches = db.batches ∧
          db'.rows = db.rows.updateWhere (ofJob jobId) ImportRow.settled ∧
          ∃ counts, db'.jobs = db.jobs.modify jobId (fun job => job.applied counts jobId))) := by
  simp only [applyImport,bind_ok,require_ok,ensure_ok] at h
  obtain ⟨job,hjob,_,_,h⟩ := h
  refine ⟨job,hjob,?_⟩
  split at h
  · next hdone =>
    simp only [pure_ok,Prod.mk.injEq] at h
    exact Or.inl ⟨hdone,h.1.symm⟩
  · simp only [bind_ok,ensure_ok,pure_ok,Prod.mk.injEq,Bool.and_eq_true,decide_eq_true_eq,
      beq_iff_eq] at h
    obtain ⟨_,⟨hstatus,herrors⟩,mid,hmid,rfl,_⟩ := h
    have hkeeps := applyRows_keeps hmid
    refine Or.inr ⟨hstatus,herrors,hkeeps.batches,?_,mid,?_⟩
    · rw [hkeeps.rows]
    · rw [hkeeps.jobs]

theorem applyJobs_get? (db : Db) (batchId id : Uuid) : (db.applyJobs batchId).get? id =
    (db.jobs.get? id).map (fun job => if db.inBatch batchId id then job.applied db id else job) := by
  cases hjob : db.jobs.get? id with
  | none =>
    rw [Table.get?_eq_none_iff] at hjob
    rw [Option.map_none,Table.get?_eq_none_iff,Db.applyJobs,List.map_map]
    exact hjob
  | some job =>
    have hrow : (id,job) ∈ db.jobs.rows := Table.mem_rows_iff.mpr hjob
    rw [Option.map_some,← Table.mem_rows_iff,Db.applyJobs,Db.inBatch,hjob,Option.any_some]
    exact List.mem_map.mpr ⟨(id,job),hrow,rfl⟩

/-- A successful `apply_batch` finds its batch applied, or error-free and waiting. -/
theorem applyBatch_cases (h : applyBatch texts batchId facts db = .ok (db',())) :
    ∃ batch, db.batches.get? batchId = some batch ∧
      ((batch.status.done = true ∧ db' = db) ∨
        (batch.status = .validated ∧ batch.errorRows = 0 ∧
          db'.rows = db.rows.updateWhere (ofBatch db batchId) ImportRow.settled ∧
          db'.batches = db.batches.modify batchId (fun batch => { batch with status := .applied }) ∧
          ∃ counts, ∀ id, db'.jobs.get? id = (db.jobs.get? id).map (fun job =>
            if db.inBatch batchId id then job.applied counts id else job))) := by
  simp only [applyBatch,bind_ok,require_ok] at h
  obtain ⟨batch,hbatch,h⟩ := h
  refine ⟨batch,hbatch,?_⟩
  split at h
  · next hdone =>
    simp only [pure_ok,Prod.mk.injEq] at h
    exact Or.inl ⟨hdone,h.1.symm⟩
  · simp only [bind_ok,ensure_ok,pure_ok,Prod.mk.injEq,Bool.and_eq_true,decide_eq_true_eq,
      beq_iff_eq] at h
    obtain ⟨_,⟨hstatus,herrors⟩,mid,hmid,rfl,_⟩ := h
    have hkeeps := applyRows_keeps hmid
    have hin : mid.inBatch batchId = db.inBatch batchId := by
      funext id
      rw [Db.inBatch,Db.inBatch,hkeeps.jobs]
    refine Or.inr ⟨hstatus,herrors,?_,?_,mid,?_⟩
    · have hof : ofBatch mid batchId = ofBatch db batchId := by
        funext key row
        rw [ofBatch,ofBatch,hin]
      rw [hkeeps.rows,hof]
    · rw [hkeeps.batches]
    · intro id
      rw [applyJobs_get?,hin,hkeeps.jobs]

/-- `apply_import` keeps the books unless it applies the last job of a batch, or one of a batch with
errors. -/
theorem Sound.applyImport (h : Sound db)
    (hguard : ∀ job batchId, db.jobs.get? jobId = some job → job.status = .validated →
      job.batchId = some batchId →
      db.countRows (db.inBatch batchId) RowStatus.isError = 0 ∧
      ∃ other job', other ≠ jobId ∧ db.jobs.get? other = some job' ∧
        job'.batchId = some batchId ∧ job'.status.done = false)
    (happly : applyImport texts jobId facts db = .ok (db',())) : Sound db' := by
  obtain ⟨job,hjob,⟨_,rfl⟩ | ⟨hstatus,herrors,hbatches,hrows,counts,hjobs⟩⟩ := applyImport_cases happly
  · exact h
  · apply h.applied (fun id => id == jobId) (fun _ => false) counts hrows
    · intro id
      rw [hjobs,Table.get?_modify]
      by_cases hid : id = jobId
      · subst hid
        simp
      · simp [hid]
    · intro id
      rw [hbatches]
      simp
    · intro id job' hid hget
      rw [beq_iff_eq] at hid
      subst hid
      rw [hjob] at hget
      cases hget
      exact herrors
    · intro _ _ hfalse
      cases hfalse
    · intro id job' batchId hid hget hbatchId
      rw [beq_iff_eq] at hid
      subst hid
      rw [hjob] at hget
      cases hget
      exact (hguard job batchId hjob hstatus hbatchId).1
    · intro id batch hbatch
      rw [Bool.false_or,h.together id batch hbatch]
      constructor
      · intro hall other job' hget hbatchId
        rw [hall other job' hget hbatchId,Bool.or_true]
      · intro hall other job' hget hbatchId
        have hor := hall other job' hget hbatchId
        by_cases hother : other = jobId
        · subst hother
          rw [hjob] at hget
          cases hget
          obtain ⟨_,third,job'',hne,hthird,hin,hnot⟩ := hguard job id hjob hstatus hbatchId
          have hdone := hall third job'' hthird hin
          simp [hne,hnot] at hdone
        · simpa [hother] using hor

/-- `apply_batch` keeps the books. -/
theorem Sound.applyBatch (h : Sound db) (happly : applyBatch texts batchId facts db = .ok (db',())) :
    Sound db' := by
  obtain ⟨batch,hbatch,⟨_,rfl⟩ | ⟨hstatus,herrors,hrows,hbatches,counts,hjobs⟩⟩ := applyBatch_cases happly
  · exact h
  · have hclean : db.countRows (db.inBatch batchId) RowStatus.wrong = 0 :=
      (h.batch batchId batch hbatch).errors.symm.trans herrors
    have herror : db.countRows (db.inBatch batchId) RowStatus.isError = 0 := by
      rw [countRows_eq_zero] at hclean ⊢
      intro r hr
      have hwrong := hclean r hr
      rw [wrong_eq,Bool.or_eq_false_iff] at hwrong
      exact hwrong.1
    apply h.applied (db.inBatch batchId) (fun id => id == batchId) counts hrows hjobs
    · intro id
      rw [hbatches,Table.get?_modify]
      by_cases hid : id = batchId
      · subst hid
        simp
      · simp [hid]
    · intro id job hin hget
      rw [(h.job id job hget).errors]
      apply part_mono _ hclean
      intro id' hid'
      rw [beq_iff_eq] at hid'
      exact hid' ▸ hin
    · intro id batch' hid hget
      rw [beq_iff_eq] at hid
      subst hid
      rw [hbatch] at hget
      cases hget
      exact herrors
    · intro id job other hin hget hother
      obtain ⟨job',hget',hbatchId⟩ := inBatch_iff.mp hin
      rw [hget] at hget'
      cases hget'
      rw [hother] at hbatchId
      cases hbatchId
      exact herror
    · intro id batch' hget
      by_cases hid : id = batchId
      · subst hid
        have hin : ∀ jobId job, db.jobs.get? jobId = some job → job.batchId = some id →
            db.inBatch id jobId = true := fun jobId job hjob hof => inBatch_iff.mpr ⟨job,hjob,hof⟩
        simp only [beq_self_eq_true,Bool.true_or,true_iff]
        intro jobId job hjob hof
        rw [hin jobId job hjob hof,Bool.true_or]
      · have hout : ∀ jobId job, db.jobs.get? jobId = some job → job.batchId = some id →
            db.inBatch batchId jobId = false := by
          intro jobId job hjob hof
          rw [Bool.eq_false_iff]
          intro hin
          obtain ⟨job',hget',hbatchId⟩ := inBatch_iff.mp hin
          rw [hjob] at hget'
          cases hget'
          rw [hof] at hbatchId
          exact hid (Option.some.inj hbatchId)
        simp only [hid,beq_iff_eq,Bool.or_eq_true,false_or]
        rw [h.together id batch' hget]
        constructor
        · intro hall jobId job hjob hof
          exact Or.inr (hall jobId job hjob hof)
        · intro hall jobId job hjob hof
          rcases hall jobId job hjob hof with hin | hdone
          · rw [hout jobId job hjob hof] at hin
            cases hin
          · exact hdone

end LatexCore.Imports
