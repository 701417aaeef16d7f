import LatexCore.Imports.Counters

/-! # Validated uploads and the books

An upload adds a job with rows that are valid or errors. A batch is not on the
books before all its jobs are there: until then the books are kept for every
other batch, and the jobs of the open one are not applied.
-/
namespace LatexCore.Imports
open Core Foundation
open Institution (InstitutionError)
variable {db db' : Db} {jobId batchId : Uuid} {batch? : Option Uuid} {mode : ImportMode}
  {rows : List SourceRow} {opened : Option Uuid}

def SourceRow.status (row : SourceRow) : RowStatus := if row.error.isSome then .error else .valid

theorem importRow_status {row : SourceRow} {stored : ImportRow} (h : importRow row = some stored) :
    stored.status = row.status := by
  unfold importRow at h
  unfold SourceRow.status
  split at h
  · next herror =>
    cases h
    rw [if_pos herror]
  · next herror =>
    rw [if_neg herror]
    obtain ⟨action,_,rfl⟩ := Option.map_eq_some_iff.mp h
    rfl

theorem errorCount_eq (rows : List SourceRow) :
    errorCount rows = rows.countP (fun row => row.status.wrong) := by
  apply List.countP_congr
  intro row _
  unfold SourceRow.status
  split <;> simp_all [RowStatus.wrong]

theorem insertRow_ok {t t' : Table RowKey ImportRow} {row : SourceRow}
    (h : insertRow jobId t row = .ok t') : ∃ stored, stored.status = row.status ∧
      t.insert? (jobId,row.dataset,row.rowNumber) stored = some t' := by
  simp only [insertRow,bind_ok,require_ok] at h
  obtain ⟨stored,hstored,hinsert⟩ := h
  exact ⟨stored,importRow_status hstored,hinsert⟩

theorem insertRows_old {t t' : Table RowKey ImportRow} (h : rows.foldlM (insertRow jobId) t = .ok t')
    {key : RowKey} {row : ImportRow} (hrow : t'.get? key = some row) :
    t.get? key = some row ∨ key.1 = jobId := by
  induction rows generalizing t with
  | nil =>
    cases h
    exact Or.inl hrow
  | cons source rest ih =>
    rw [List.foldlM_cons,bind_ok] at h
    obtain ⟨mid,hmid,hrest⟩ := h
    obtain ⟨stored,_,hinsert⟩ := insertRow_ok hmid
    rcases ih hrest with hold | hnew
    · rw [Table.get?_insert? hinsert] at hold
      split at hold
      · next hkey => exact Or.inr (by rw [hkey])
      · exact Or.inl hold
    · exact Or.inr hnew

theorem insertRows_count {t t' : Table RowKey ImportRow}
    (h : rows.foldlM (insertRow jobId) t = .ok t') (scope : Uuid → Bool) (c : RowStatus → Bool) :
    t'.count (fun key row => scope key.1 && c row.status) =
      t.count (fun key row => scope key.1 && c row.status) +
        if scope jobId then rows.countP (fun row => c row.status) else 0 := by
  induction rows generalizing t with
  | nil =>
    cases h
    simp
  | cons source rest ih =>
    rw [List.foldlM_cons,bind_ok] at h
    obtain ⟨mid,hmid,hrest⟩ := h
    obtain ⟨stored,hstatus,hinsert⟩ := insertRow_ok hmid
    rw [ih hrest,Table.count_insert? hinsert,hstatus,List.countP_cons]
    cases scope jobId <;> simp
    omega

theorem insertJob_ok (h : insertJob jobId batch? mode rows db = .ok db') :
    db.jobs.get? jobId = none ∧ db'.batches = db.batches ∧
      (∀ id, db'.jobs.get? id = if id = jobId then some ⟨batch?,mode,validatedStatus (errorCount rows),
        rows.length,0,0,0,errorCount rows,db.now⟩ else db.jobs.get? id) ∧
      rows.foldlM (insertRow jobId) db.rows = .ok db'.rows := by
  simp only [insertJob,bind_ok,require_ok,pure_ok] at h
  obtain ⟨jobs,hjobs,stored,hstored,rfl⟩ := h
  exact ⟨(Table.insert?_eq_some hjobs).1,rfl,Table.get?_insert? hjobs,hstored⟩

structure Books (opened : Option Uuid) (db : Db) : Prop where
  owned : ∀ key row, db.rows.get? key = some row → ∃ job, db.jobs.get? key.1 = some job
  batched : ∀ id job batchId, db.jobs.get? id = some job → job.batchId = some batchId →
    opened = some batchId ∨ ∃ batch, db.batches.get? batchId = some batch
  absent : ∀ batchId, opened = some batchId → db.batches.get? batchId = none
  manned : ∀ id batch, db.batches.get? id = some batch → ∃ jobId, db.inBatch id jobId = true
  job : ∀ id job, db.jobs.get? id = some job →
    Counted db (fun jobId => jobId == id) job.status job.errorRows
  batch : ∀ id batch, db.batches.get? id = some batch →
    Counted db (db.inBatch id) batch.status batch.errorRows
  gate : ∀ batchId, 0 < db.countRows (db.inBatch batchId) RowStatus.isError →
    ∀ id job, db.jobs.get? id = some job → job.batchId = some batchId → job.status.done = false
  together : ∀ id batch, db.batches.get? id = some batch →
    (batch.status.done = true ↔ ∀ jobId job, db.jobs.get? jobId = some job →
      job.batchId = some id → job.status.done = true)
  idle : ∀ id job batchId, db.jobs.get? id = some job → job.batchId = some batchId →
    opened = some batchId → job.status.done = false

theorem Books.sound (h : Books none db) : Sound db where
  owned := h.owned
  batched := by
    intro id job batchId hjob hbatchId
    rcases h.batched id job batchId hjob hbatchId with hopen | hbatch
    · cases hopen
    · exact hbatch
  manned := h.manned
  job := h.job
  batch := h.batch
  gate := h.gate
  together := h.together

theorem Sound.books (h : Sound db) (habsent : ∀ batchId, opened = some batchId →
    db.batches.get? batchId = none) : Books opened db where
  owned := h.owned
  batched := fun id job batchId hjob hbatchId => Or.inr (h.batched id job batchId hjob hbatchId)
  absent := habsent
  manned := h.manned
  job := h.job
  batch := h.batch
  gate := h.gate
  together := h.together
  idle := by
    intro id job batchId hjob hbatchId hopen
    obtain ⟨batch,hbatch⟩ := h.batched id job batchId hjob hbatchId
    rw [habsent batchId hopen] at hbatch
    cases hbatch

theorem insertJob_count (h : insertJob jobId batch? mode rows db = .ok db') (scope : Uuid → Bool)
    (c : RowStatus → Bool) : db'.countRows scope c = db.countRows scope c +
      if scope jobId then rows.countP (fun row => c row.status) else 0 :=
  insertRows_count (insertJob_ok h).2.2.2 scope c

theorem insertJob_inBatch (h : insertJob jobId batch? mode rows db = .ok db') (id : Uuid) :
    db'.inBatch batchId id = if id = jobId then batch? == some batchId else db.inBatch batchId id := by
  obtain ⟨_,_,hjobs,_⟩ := insertJob_ok h
  rw [Db.inBatch,hjobs]
  split <;> rfl

theorem Books.fresh (h : Books opened db) (hnew : db.jobs.get? jobId = none) (scope : Uuid → Bool)
    (hscope : ∀ id, scope id = true → id = jobId) (c : RowStatus → Bool) : db.countRows scope c = 0 := by
  rw [countRows_eq_zero]
  intro r hr
  obtain ⟨hrow,hin⟩ := mem_part.mp hr
  obtain ⟨job,hjob⟩ := h.owned r.1 r.2 hrow
  rw [hscope _ hin,hnew] at hjob
  cases hjob

theorem validatedStatus_waits (errorRows : ℕ) : (validatedStatus errorRows).done = false ∧
    validatedStatus errorRows ≠ .incomplete := by
  unfold validatedStatus
  split <;> simp [ImportStatus.done]

theorem counted_validated {scope : Uuid → Bool}
    (hcount : ∀ c, db.countRows scope c = rows.countP (fun row => c row.status)) :
    Counted db scope (validatedStatus (errorCount rows)) (errorCount rows) where
  errors := by rw [errorCount_eq,hcount]
  unresolved := by
    have hnone : rows.countP (fun row => row.status.isUnresolved) = 0 := by
      rw [List.countP_eq_zero]
      intro row _
      unfold SourceRow.status
      split <;> simp [RowStatus.isUnresolved]
    rw [hcount,hnone]
    exact iff_of_false (validatedStatus_waits _).2 (Nat.lt_irrefl 0)
  clean := by
    intro hdone
    rw [(validatedStatus_waits _).1] at hdone
    cases hdone

theorem Books.insertJob (h : Books opened db) (hbatch? : batch? = none ∨ batch? = opened)
    (hinsert : insertJob jobId batch? mode rows db = .ok db') : Books opened db' := by
  obtain ⟨hnew,hbatches,hjobs,hrows⟩ := insertJob_ok hinsert
  have hother : ∀ scope c, scope jobId = false → db'.countRows scope c = db.countRows scope c := by
    intro scope c hscope
    rw [insertJob_count hinsert,hscope]
    simp
  have hout : ∀ batchId, opened ≠ some batchId → batch? ≠ some batchId := by
    rintro batchId hne rfl
    rcases hbatch? with hnone | hsame
    · cases hnone
    · exact hne hsame.symm
  have hstays : ∀ batchId batch, db.batches.get? batchId = some batch → opened ≠ some batchId := by
    rintro batchId batch hbatch hopen
    rw [h.absent batchId hopen] at hbatch
    cases hbatch
  have hin : ∀ batchId, opened ≠ some batchId → db'.inBatch batchId = db.inBatch batchId := by
    intro batchId hne
    funext id
    rw [insertJob_inBatch hinsert]
    split
    · next hid =>
      subst hid
      rw [Db.inBatch,hnew]
      simpa using hout batchId hne
    · rfl
  have hnotIn : ∀ batchId, opened ≠ some batchId → db'.inBatch batchId jobId = false := by
    intro batchId hne
    rw [hin batchId hne,Db.inBatch,hnew]
    rfl
  constructor
  · intro key row hrow
    rcases insertRows_old hrows hrow with hold | hkey
    · obtain ⟨job,hjob⟩ := h.owned key row hold
      rw [hjobs]
      split
      · exact ⟨_,rfl⟩
      · exact ⟨job,hjob⟩
    · exact ⟨_,by rw [hjobs,if_pos hkey]⟩
  · intro id job batchId hjob hbatchId
    rw [hbatches]
    rw [hjobs] at hjob
    split at hjob
    · cases hjob
      dsimp only at hbatchId
      rcases hbatch? with hnone | hsame
      · rw [hnone] at hbatchId
        cases hbatchId
      · exact Or.inl (hsame.symm.trans hbatchId)
    · exact h.batched id job batchId hjob hbatchId
  · rw [hbatches]
    exact h.absent
  · intro id batch hbatch
    rw [hbatches] at hbatch
    rw [hin id (hstays id batch hbatch)]
    exact h.manned id batch hbatch
  · intro id job hjob
    rw [hjobs] at hjob
    split at hjob
    · next hid =>
      subst hid
      cases hjob
      apply counted_validated
      intro c
      rw [insertJob_count hinsert,h.fresh hnew _ (fun id' hid' => by simpa using hid')]
      simp
    · next hid =>
      apply (h.job id job hjob).of_eq
      intro c _
      exact hother _ c (by simpa using fun he : jobId = id => hid he.symm)
  · intro id batch hbatch
    rw [hbatches] at hbatch
    have hne := hstays id batch hbatch
    apply (h.batch id batch hbatch).of_eq
    intro c _
    rw [hother _ c (hnotIn id hne),hin id hne]
  · intro batchId hpos id job hjob hbatchId
    rw [hjobs] at hjob
    split at hjob
    · cases hjob
      exact (validatedStatus_waits _).1
    · by_cases hopen : opened = some batchId
      · exact h.idle id job batchId hjob hbatchId hopen
      · rw [hother _ _ (hnotIn batchId hopen),hin batchId hopen] at hpos
        exact h.gate batchId hpos id job hjob hbatchId
  · intro id batch hbatch
    rw [hbatches] at hbatch
    have hne := hstays id batch hbatch
    rw [h.together id batch hbatch]
    constructor
    · intro hall jobId' job hjob hbatchId
      rw [hjobs] at hjob
      split at hjob
      · cases hjob
        exact absurd hbatchId (hout id hne)
      · exact hall jobId' job hjob hbatchId
    · intro hall jobId' job hjob hbatchId
      refine hall jobId' job ?_ hbatchId
      rw [hjobs,if_neg]
      · exact hjob
      · rintro rfl
        rw [hnew] at hjob
        cases hjob
  · intro id job batchId hjob hbatchId hopen
    rw [hjobs] at hjob
    split at hjob
    · cases hjob
      exact (validatedStatus_waits _).1
    · exact h.idle id job batchId hjob hbatchId hopen

theorem Sound.validateUpload (h : Sound db) {id : Uuid}
    (hvalidate : validateUpload jobId mode rows db = .ok (db',id)) : Sound db' := by
  simp only [Imports.validateUpload,bind_ok,pure_ok,Prod.mk.injEq] at hvalidate
  obtain ⟨mid,hmid,rfl,_⟩ := hvalidate
  exact ((h.books (fun _ hnone => by cases hnone)).insertJob (Or.inl rfl) hmid).sound

theorem Books.insertJob_countIn (h : Books opened db)
    (hinsert : Imports.insertJob jobId (some batchId) mode rows db = .ok db') (c : RowStatus → Bool) :
    db'.countRows (db'.inBatch batchId) c =
      db.countRows (db.inBatch batchId) c + rows.countP (fun row => c row.status) := by
  obtain ⟨hnew,_,_,_⟩ := insertJob_ok hinsert
  have hself : db'.inBatch batchId jobId = true := by
    rw [insertJob_inBatch hinsert,if_pos rfl]
    simp
  have hsame : db.countRows (db'.inBatch batchId) c = db.countRows (db.inBatch batchId) c := by
    apply Table.count_congr
    intro r hr
    obtain ⟨job,hjob⟩ := h.owned r.1 r.2 (Table.mem_rows_iff.mp hr)
    have hne : r.1.1 ≠ jobId := by
      intro he
      rw [he,hnew] at hjob
      cases hjob
    rw [insertJob_inBatch hinsert,if_neg hne]
  rw [insertJob_count hinsert,hsame,if_pos hself]

theorem insertJobs_books {jobIds : List (Uuid × ℕ)} (h : Books (some batchId) db)
    (hinsert : insertJobs batchId mode rows jobIds db = .ok db') : Books (some batchId) db' ∧
      db'.batches = db.batches ∧ (∀ id, db.inBatch batchId id = true → db'.inBatch batchId id = true) ∧
      (jobIds ≠ [] → ∃ id, db'.inBatch batchId id = true) ∧
      ∀ c, db'.countRows (db'.inBatch batchId) c = db.countRows (db.inBatch batchId) c +
        (jobIds.map (fun i => rows.countP (fun row => row.uploadIndex == i.2 && c row.status))).sum := by
  induction jobIds generalizing db with
  | nil =>
    cases hinsert
    exact ⟨h,rfl,fun _ hid => hid,fun hne => absurd rfl hne,fun c => by simp⟩
  | cons i rest ih =>
    obtain ⟨jobId,index⟩ := i
    rw [insertJobs,bind_ok] at hinsert
    obtain ⟨mid,hmid,hrest⟩ := hinsert
    obtain ⟨hbooks,hbatches,hstay,_,hcount⟩ := ih (h.insertJob (Or.inr rfl) hmid) hrest
    have hself : mid.inBatch batchId jobId = true := by
      rw [insertJob_inBatch hmid,if_pos rfl]
      simp
    refine ⟨hbooks,hbatches.trans (insertJob_ok hmid).2.1,?_,fun _ => ⟨jobId,hstay jobId hself⟩,?_⟩
    · intro id hid
      apply hstay
      rw [insertJob_inBatch hmid]
      split
      · simp
      · exact hid
    · intro c
      rw [hcount,h.insertJob_countIn hmid,List.countP_filter,List.map_cons,List.sum_cons,Nat.add_assoc]
      congr 2
      apply List.countP_congr
      intro row _
      rw [Bool.and_comm]

theorem sum_uploads (jobIds : List Uuid) (n : ℕ) (p : SourceRow → Bool)
    (hrows : ∀ row ∈ rows, n ≤ row.uploadIndex ∧ row.uploadIndex < n + jobIds.length ∨ p row = false) :
    ((jobIds.zipIdx n).map (fun i => rows.countP (fun row => row.uploadIndex == i.2 && p row))).sum =
      rows.countP p := by
  induction jobIds generalizing n p with
  | nil =>
    rw [eq_comm]
    apply List.countP_eq_zero.mpr
    intro row hrow
    rcases hrows row hrow with ⟨_,_⟩ | hp
    · simp at *
      omega
    · simp [hp]
  | cons jobId rest ih =>
    have hlater := ih (n + 1) (fun row => row.uploadIndex != n && p row) (by
      intro row hrow
      rcases hrows row hrow with ⟨hle,hlt⟩ | hp
      · rw [List.length_cons] at hlt
        by_cases hn : row.uploadIndex = n
        · exact Or.inr (by simp [hn])
        · exact Or.inl ⟨by omega,by omega⟩
      · exact Or.inr (by simp [hp]))
    have hsame : ((rest.zipIdx (n + 1)).map
        (fun i => rows.countP (fun row => row.uploadIndex == i.2 && p row))) =
        (rest.zipIdx (n + 1)).map
          (fun i => rows.countP (fun row => row.uploadIndex == i.2 && (row.uploadIndex != n && p row))) := by
      apply List.map_congr_left
      intro i hi
      have hge : n + 1 ≤ i.2 := List.le_snd_of_mem_zipIdx hi
      apply List.countP_congr
      intro row _
      by_cases he : row.uploadIndex = i.2
      · have hne : row.uploadIndex ≠ n := by omega
        simp [he,show i.2 ≠ n by omega]
      · simp [he]
    rw [List.zipIdx_cons,List.map_cons,List.sum_cons,hsame,hlater]
    rw [List.countP_eq_countP_filter_add rows p (fun row => row.uploadIndex == n),List.countP_filter,
      List.countP_filter]
    congr 1
    · apply List.countP_congr
      intro row _
      rw [Bool.and_comm]
    · apply List.countP_congr
      intro row _
      simp [bne,Bool.and_comm]

theorem insertJob_batches {batches : Table Uuid ImportBatch}
    (h : insertJob jobId batch? mode rows { db with batches := batches } = .ok db') :
    ∃ mid, insertJob jobId batch? mode rows db = .ok mid ∧ db' = { mid with batches := batches } := by
  simp only [insertJob,bind_ok,require_ok,pure_ok] at h ⊢
  obtain ⟨jobs,hjobs,stored,hstored,rfl⟩ := h
  exact ⟨_,⟨jobs,hjobs,stored,hstored,rfl⟩,rfl⟩

theorem insertJobs_batches {batches : Table Uuid ImportBatch} {jobIds : List (Uuid × ℕ)}
    (h : insertJobs batchId mode rows jobIds { db with batches := batches } = .ok db') :
    ∃ mid, insertJobs batchId mode rows jobIds db = .ok mid ∧ db' = { mid with batches := batches } := by
  induction jobIds generalizing db with
  | nil =>
    cases h
    exact ⟨db,rfl,rfl⟩
  | cons i rest ih =>
    rw [insertJobs,bind_ok] at h
    obtain ⟨next,hnext,hrest⟩ := h
    obtain ⟨mid,hmid,rfl⟩ := insertJob_batches hnext
    obtain ⟨last,hlast,rfl⟩ := ih hrest
    exact ⟨last,by rw [insertJobs,bind_ok]; exact ⟨mid,hmid,hlast⟩,rfl⟩

theorem Books.close (h : Books (some batchId) db) {batches : Table Uuid ImportBatch} (batch : ImportBatch)
    (hget : ∀ id, batches.get? id = if id = batchId then some batch else db.batches.get? id)
    (hmanned : ∃ jobId, db.inBatch batchId jobId = true) (hwaits : batch.status.done = false)
    (hcounted : Counted db (db.inBatch batchId) batch.status batch.errorRows) :
    Sound { db with batches := batches } where
  owned := h.owned
  batched := by
    intro id job other hjob hother
    rw [hget]
    split
    · exact ⟨batch,rfl⟩
    · next hne =>
      rcases h.batched id job other hjob hother with hopen | hbatch
      · exact absurd (Option.some.inj hopen).symm hne
      · exact hbatch
  manned := by
    intro id batch' hbatch
    rw [hget] at hbatch
    split at hbatch
    · next hid => exact hid ▸ hmanned
    · exact h.manned id batch' hbatch
  job := fun id job hjob => (h.job id job hjob).of_eq (fun _ _ => rfl)
  batch := by
    intro id batch' hbatch
    rw [hget] at hbatch
    split at hbatch
    · next hid =>
      cases hbatch
      subst hid
      exact hcounted.of_eq (fun _ _ => rfl)
    · exact (h.batch id batch' hbatch).of_eq (fun _ _ => rfl)
  gate := h.gate
  together := by
    intro id batch' hbatch
    rw [hget] at hbatch
    split at hbatch
    · next hid =>
      cases hbatch
      subst hid
      obtain ⟨jobId,hin⟩ := hmanned
      obtain ⟨job,hjob,hbatchId⟩ := inBatch_iff.mp hin
      refine iff_of_false (by simp [hwaits]) ?_
      intro hall
      have hdone := hall jobId job hjob hbatchId
      rw [h.idle jobId job id hjob hbatchId rfl] at hdone
      cases hdone
    · exact h.together id batch' hbatch

theorem Sound.validateBatch {operation : InstitutionOperation} {jobIds : List Uuid} (h : Sound db)
    {id : Uuid} (hvalidate : validateBatch batchId operation jobIds rows db = .ok (db',id)) :
    Sound db' := by
  simp only [Imports.validateBatch,bind_ok,ensure_ok,require_ok,pure_ok,Prod.mk.injEq,Bool.and_eq_true,
    Bool.not_eq_true',List.isEmpty_eq_false_iff,List.all_eq_true,decide_eq_true_eq] at hvalidate
  obtain ⟨_,⟨hsome,_⟩,_,hindex,batches,hbatches,final,hfinal,rfl,_⟩ := hvalidate
  obtain ⟨mid,hmid,rfl⟩ := insertJobs_batches hfinal
  have habsent : db.batches.get? batchId = none := (Table.insert?_eq_some hbatches).1
  have hopen : Books (some batchId) db := by
    apply h.books
    intro other hother
    exact Option.some.inj hother ▸ habsent
  have hempty : ∀ c, db.countRows (db.inBatch batchId) c = 0 := by
    intro c
    rw [countRows_eq_zero]
    intro r hr
    obtain ⟨job,hjob,hbatchId⟩ := inBatch_iff.mp (mem_part.mp hr).2
    obtain ⟨batch,hbatch⟩ := h.batched r.1.1 job batchId hjob hbatchId
    rw [habsent] at hbatch
    cases hbatch
  obtain ⟨hbooks,hsame,_,hmanned,hcount⟩ := insertJobs_books hopen hmid
  have hcounted : Counted mid (mid.inBatch batchId) (validatedStatus (errorCount rows)) (errorCount rows) := by
    apply counted_validated
    intro c
    rw [hcount,hempty,Nat.zero_add]
    apply sum_uploads
    intro row hrow
    exact Or.inl ⟨Nat.zero_le _,by simpa using hindex row hrow⟩
  have hget := Table.get?_insert? hbatches
  rw [← hsame] at hget
  refine hbooks.close _ hget (hmanned ?_) (validatedStatus_waits (errorCount rows)).1 hcounted
  intro hnil
  have hlength := congrArg List.length hnil
  rw [List.length_zipIdx] at hlength
  exact hsome (List.length_eq_zero_iff.mp hlength)

end LatexCore.Imports
