import LatexCore.Imports.Requests

/-! # Marks

A mark of a team of an applied job changes the status of some rows of the job,
and then writes the counters of the job and of its batch. The books stay right
where the rows that it counted are those that it commits to.
-/
namespace LatexCore.Imports
open Core Foundation
open Institution (InstitutionError)
variable {db db' seen seenIn : Db} {jobId : Uuid} {externalTeamKey : String} {reasons : List String}
  {job : ImportJob}

theorem modifyBatchOf_get? (hjob : db.jobs.get? jobId = some job)
    (f : Uuid → ImportBatch → ImportBatch) (id : Uuid) :
    (db.modifyBatchOf jobId f).get? id =
      (db.batches.get? id).map (fun batch => if job.batchId = some id then f id batch else batch) := by
  rw [Db.modifyBatchOf,hjob,Option.bind_some]
  cases hbatch : job.batchId with
  | none => simp
  | some batchId =>
    dsimp only
    rw [Table.get?_modify]
    by_cases hid : id = batchId
    · subst hid
      simp
    · have hne : ¬batchId = id := fun he => hid he.symm
      simp [hid,hne]

theorem Sound.marked (h : Sound db) (hjob : db.jobs.get? jobId = some job)
    (hdone : job.status.done = true)
    (hclosed : ∀ batchId batch, job.batchId = some batchId → db.batches.get? batchId = some batch →
      batch.status.done = true)
    {p : RowKey → ImportRow → Bool} {f : ImportRow → ImportRow}
    (hrows : db'.rows = db.rows.updateWhere p f)
    (hof : ∀ key row, p key row = true → key.1 = jobId) (hf : ∀ row, (f row).status ≠ .error)
    (status : ImportStatus) (errorRows : ℕ) (batchStatus : Uuid → ImportStatus) (batchErrors : Uuid → ℕ)
    (hjobs : ∀ id, db'.jobs.get? id = (db.jobs.get? id).map (fun job => if id = jobId then { job with
      status := status
      errorRows := errorRows } else job))
    (hbatches : ∀ id, db'.batches.get? id = (db.batches.get? id).map (fun batch =>
      if job.batchId = some id then { batch with
        status := batchStatus id
        errorRows := batchErrors id } else batch))
    (hdone' : status.done = true) (hclosed' : ∀ id, job.batchId = some id → (batchStatus id).done = true)
    (hcounted : Counted db' (fun id => id == jobId) status errorRows)
    (hcountedIn : ∀ batchId, job.batchId = some batchId →
      Counted db' (db.inBatch batchId) (batchStatus batchId) (batchErrors batchId)) : Sound db' := by
  have hin : ∀ batchId, db'.inBatch batchId = db.inBatch batchId := by
    apply inBatch_eq
    intro id
    rw [hjobs id,Option.map_map]
    congr 1
    funext job
    dsimp only [Function.comp_apply]
    split <;> rfl
  have houtside : ∀ scope c, scope jobId = false → db'.countRows scope c = db.countRows scope c := by
    intro scope c hscope
    apply countRows_updateWhere hrows
    intro key row hkey hp
    rw [hof key row hp,hscope] at hkey
    cases hkey
  have hjobCases : ∀ {id job'}, db'.jobs.get? id = some job' → ∃ old, db.jobs.get? id = some old ∧
      job'.batchId = old.batchId ∧ job'.status.done = old.status.done ∧
      (id ≠ jobId → job' = old) := by
    intro id job' hget
    rw [hjobs id,Option.map_eq_some_iff] at hget
    obtain ⟨old,hold,rfl⟩ := hget
    refine ⟨old,hold,?_⟩
    by_cases hid : id = jobId
    · subst hid
      rw [hjob] at hold
      cases hold
      simp [hdone,hdone']
    · simp [hid]
  have hbatchCases : ∀ {id batch'}, db'.batches.get? id = some batch' → ∃ old,
      db.batches.get? id = some old ∧ batch'.status.done = old.status.done ∧
      (job.batchId ≠ some id → batch' = old) := by
    intro id batch' hget
    rw [hbatches id,Option.map_eq_some_iff] at hget
    obtain ⟨old,hold,rfl⟩ := hget
    refine ⟨old,hold,?_⟩
    by_cases hid : job.batchId = some id
    · simp [hid,hclosed' id hid,hclosed id old hid hold]
    · simp [hid]
  constructor
  · intro key row hget
    rw [hrows,Table.get?_updateWhere,Option.map_eq_some_iff] at hget
    obtain ⟨old,hold,_⟩ := hget
    obtain ⟨job',hjob'⟩ := h.owned key old hold
    exact ⟨_,by rw [hjobs,hjob']; rfl⟩
  · intro id job' batchId hget hbatchId
    obtain ⟨old,hold,hsame,_,_⟩ := hjobCases hget
    obtain ⟨batch,hb⟩ := h.batched id old batchId hold (hsame ▸ hbatchId)
    exact ⟨_,by rw [hbatches,hb]; rfl⟩
  · intro id batch hget
    obtain ⟨old,hold,_⟩ := hbatchCases hget
    rw [hin id]
    exact h.manned id old hold
  · intro id job' hget
    by_cases hid : id = jobId
    · subst hid
      rw [hjobs,hjob,Option.map_some,if_pos rfl] at hget
      cases hget
      exact hcounted
    · obtain ⟨old,hold,_,_,hsame⟩ := hjobCases hget
      rw [hsame hid]
      exact (h.job id old hold).of_eq (fun c _ => houtside _ c (by simpa using fun he => hid he.symm))
  · intro id batch' hget
    rw [hin id]
    by_cases hid : job.batchId = some id
    · rw [hbatches,Option.map_eq_some_iff] at hget
      obtain ⟨old,_,rfl⟩ := hget
      rw [if_pos hid]
      exact hcountedIn id hid
    · obtain ⟨old,hold,_,hsame⟩ := hbatchCases hget
      rw [hsame hid]
      apply (h.batch id old hold).of_eq
      intro c _
      apply houtside
      rw [Bool.eq_false_iff]
      intro hmem
      obtain ⟨job',hjob',hbatchId⟩ := inBatch_iff.mp hmem
      rw [hjob] at hjob'
      cases hjob'
      exact hid hbatchId
  · intro batchId hpos id job' hget hbatchId
    obtain ⟨old,hold,hsame,hstatus,_⟩ := hjobCases hget
    rw [hstatus]
    rw [hsame] at hbatchId
    refine h.gate batchId ?_ id old hold hbatchId
    rw [hin batchId] at hpos
    obtain ⟨r,hr,herror⟩ := countRows_pos.mp hpos
    obtain ⟨hrow,hscope⟩ := mem_part.mp hr
    rw [hrows,Table.get?_updateWhere,Option.map_eq_some_iff] at hrow
    obtain ⟨row,hrow,hr2⟩ := hrow
    refine countRows_pos.mpr ⟨(r.1,row),mem_part.mpr ⟨hrow,hscope⟩,?_⟩
    rw [← hr2] at herror
    split at herror
    · exact absurd (by simpa [RowStatus.isError] using herror) (hf row)
    · exact herror
  · intro id batch' hget
    obtain ⟨old,hold,hstatus,_⟩ := hbatchCases hget
    rw [hstatus,h.together id old hold]
    constructor
    · intro hall jobId' job' hget' hbatchId
      obtain ⟨old',hold',hsame,hstatus',_⟩ := hjobCases hget'
      rw [hstatus']
      exact hall jobId' old' hold' (hsame ▸ hbatchId)
    · intro hall jobId' old' hold' hbatchId
      by_cases hid : jobId' = jobId
      · subst hid
        rw [hjob] at hold'
        cases hold'
        exact hdone
      · refine hall jobId' old' ?_ hbatchId
        rw [hjobs,hold',Option.map_some,if_neg hid]

theorem countRows_seen {scope scope' : Uuid → Bool} {seen' : Db} {p : RowKey → ImportRow → Bool}
    {f : ImportRow → ImportRow} (c : RowStatus → Bool) (hrows : db'.rows = db.rows.updateWhere p f)
    (hseen : seen'.rows = seen.rows.updateWhere p f) (hpart : seen.part scope' = db.part scope) :
    seen'.countRows scope' c = db'.countRows scope c := by
  rw [Db.countRows,Db.countRows,hrows,hseen,countRows_update,countRows_update,hpart]

theorem countRows_isError {scope : Uuid → Bool} {p : RowKey → ImportRow → Bool}
    {f : ImportRow → ImportRow} (hrows : db'.rows = db.rows.updateWhere p f)
    (hf : ∀ row, (f row).status ≠ .error) (h : db.countRows scope RowStatus.isError = 0) :
    db'.countRows scope RowStatus.isError = 0 := by
  rw [Db.countRows,hrows,countRows_update,List.countP_eq_zero]
  intro r hr
  have hclean := countRows_eq_zero.mp h r hr
  split
  · simpa [RowStatus.isError] using hf r.2
  · simpa using hclean

theorem markRows_unresolved {scope : Uuid → Bool} (hscope : scope jobId = true)
    (hrow : ∃ key row, db.rows.get? key = some row ∧ ofTeam jobId externalTeamKey key row = true) :
    0 < (markRows jobId externalTeamKey reasons db).countRows scope RowStatus.isUnresolved := by
  obtain ⟨key,row,hget,hof⟩ := hrow
  have hkey : key.1 = jobId := by
    simp only [ofTeam,Bool.and_eq_true,beq_iff_eq] at hof
    exact hof.1
  refine Table.count_pos.mpr ⟨key,_,by rw [markRows,Table.get?_updateWhere,hget,Option.map_some],?_⟩
  rw [hkey,hscope,Bool.true_and]
  by_cases hstatus : row.status = .unresolved
  · simp [newlyUnresolved,ImportRow.unresolved,hof,hstatus,RowStatus.isUnresolved]
  · simp [newlyUnresolved,ImportRow.unresolved,hof,hstatus,RowStatus.isUnresolved]

theorem markRows_wrong (hclean : db.countRows (fun id => id == jobId) RowStatus.isError = 0) :
    (markRows jobId externalTeamKey reasons db).wrongRows jobId = db.wrongRows jobId +
      db.rows.count (newlyUnresolved jobId externalTeamKey) := by
  rw [Db.wrongRows,Db.wrongRows,Db.countRows,Db.countRows,markRows,Table.count_updateWhere]
  apply Table.count_add
  intro r hr
  have hnot : r.1.1 = jobId → r.2.status ≠ .error := by
    intro hjob herror
    have hmem : r ∈ db.part (fun id => id == jobId) :=
      mem_part.mpr ⟨Table.mem_rows_iff.mp hr,by simpa using hjob⟩
    have hfalse := countRows_eq_zero.mp hclean r hmem
    simp [RowStatus.isError,herror] at hfalse
  by_cases hof : ofTeam jobId externalTeamKey r.1 r.2 = true
  · have hjob : r.1.1 = jobId := by
      simp only [ofTeam,Bool.and_eq_true,beq_iff_eq] at hof
      exact hof.1
    have hstatus := hnot hjob
    cases hs : r.2.status <;>
      simp [newlyUnresolved,ImportRow.unresolved,hof,hjob,hs,RowStatus.wrong] at hstatus ⊢
  · simp [newlyUnresolved,hof]

theorem Sound.markTeamUnresolved (h : Sound db) (hjob : db.jobs.get? jobId = some job)
    (hdone : job.status.done = true)
    (hclosed : ∀ batchId batch, job.batchId = some batchId → db.batches.get? batchId = some batch →
      batch.status.done = true)
    (hrow : ∃ key row, db.rows.get? key = some row ∧ ofTeam jobId externalTeamKey key row = true)
    (hseen : ∀ batchId, job.batchId = some batchId →
      seenIn.part (seenIn.inBatch batchId) = db.part (db.inBatch batchId)) :
    Sound (markTeamUnresolved jobId externalTeamKey reasons seenIn db) := by
  have hcounted := h.job jobId job hjob
  have herror := hcounted.clean hdone
  have hpart : ∀ batchId, job.batchId = some batchId → db.inBatch batchId jobId = true :=
    fun batchId hbatchId => inBatch_iff.mpr ⟨job,hjob,hbatchId⟩
  have hiff : ∀ scope : Uuid → Bool, scope jobId = true → (ImportStatus.incomplete = .incomplete ↔
      0 < (markRows jobId externalTeamKey reasons db).countRows scope RowStatus.isUnresolved) :=
    fun scope hscope => iff_of_true rfl (markRows_unresolved hscope hrow)
  have herrorless : ∀ row : ImportRow, (row.unresolved reasons).status ≠ .error := by
    intro row
    simp [ImportRow.unresolved]
  apply h.marked hjob hdone hclosed (p := newlyUnresolved jobId externalTeamKey)
    (f := ImportRow.unresolved reasons) rfl (fun key row hp => ?_) herrorless .incomplete
    (job.errorRows + db.rows.count (newlyUnresolved jobId externalTeamKey))
    (fun _ => .incomplete) (markRows jobId externalTeamKey reasons seenIn).wrongRowsIn
  · intro id
    change ((db.jobs.modify jobId _).get? id) = _
    rw [Table.get?_modify]
    by_cases hid : id = jobId
    · subst hid
      rw [if_pos rfl,hjob]
      simp
    · simp [hid]
  · intro id
    exact modifyBatchOf_get? hjob _ id
  · rfl
  · intro _ _
    rfl
  · refine ⟨?_,hiff (fun id => id == jobId) (beq_self_eq_true jobId),fun _ => countRows_isError rfl herrorless herror⟩
    rw [hcounted.errors]
    exact (markRows_wrong herror).symm
  · intro batchId hbatchId
    obtain ⟨batch,hbatch⟩ := h.batched jobId job batchId hjob hbatchId
    have hcountedIn := h.batch batchId batch hbatch
    refine ⟨?_,hiff _ (hpart batchId hbatchId),fun _ => countRows_isError rfl herrorless
      (hcountedIn.clean (hclosed batchId batch hbatchId hbatch))⟩
    exact countRows_seen _ rfl rfl (hseen batchId hbatchId)
  · simp only [newlyUnresolved,ofTeam,Bool.and_eq_true,beq_iff_eq] at hp
    exact hp.1.1

theorem Counted.resolved {scope : Uuid → Bool} {wrong : ℕ} (hwrong : wrong = db.countRows scope RowStatus.wrong)
    (hclean : db.countRows scope RowStatus.isError = 0) :
    Counted db scope (resolvedStatus wrong) wrong := by
  refine ⟨hwrong,?_,fun _ => hclean⟩
  rw [← wrong_eq_unresolved hclean,← hwrong]
  unfold resolvedStatus
  split
  · simp_all
  · simp
    omega

theorem Sound.markTeamResolved (h : Sound db) (hjob : db.jobs.get? jobId = some job)
    (hdone : job.status.done = true)
    (hclosed : ∀ batchId batch, job.batchId = some batchId → db.batches.get? batchId = some batch →
      batch.status.done = true)
    (hseen : seen.part (fun id => id == jobId) = db.part (fun id => id == jobId))
    (hseenIn : ∀ batchId, job.batchId = some batchId →
      seenIn.part (seenIn.inBatch batchId) = db.part (db.inBatch batchId)) :
    Sound (markTeamResolved jobId externalTeamKey seen seenIn db) := by
  have herror := (h.job jobId job hjob).clean hdone
  have herrorless : ∀ row : ImportRow, row.resolved.status ≠ .error := by
    intro row
    rw [ImportRow.resolved]
    rcases settled_status row with hs | hs <;> simp [hs]
  have hresolved : ∀ wrong, (resolvedStatus wrong).done = true := by
    intro wrong
    unfold resolvedStatus
    split <;> rfl
  apply h.marked hjob hdone hclosed (p := stillUnresolved jobId externalTeamKey)
    (f := ImportRow.resolved) rfl (fun key row hp => ?_) herrorless
    (resolvedStatus ((clearRows jobId externalTeamKey seen).wrongRows jobId))
    ((clearRows jobId externalTeamKey seen).wrongRows jobId)
    (fun id => resolvedStatus ((clearRows jobId externalTeamKey seenIn).wrongRowsIn id))
    (clearRows jobId externalTeamKey seenIn).wrongRowsIn
  · intro id
    change ((db.jobs.modify jobId _).get? id) = _
    rw [Table.get?_modify]
    by_cases hid : id = jobId
    · subst hid
      rw [if_pos rfl,hjob]
      simp
    · simp [hid]
  · intro id
    exact modifyBatchOf_get? hjob _ id
  · exact hresolved _
  · intro _ _
    exact hresolved _
  · exact Counted.resolved (countRows_seen _ rfl rfl hseen)
      (countRows_isError rfl herrorless herror)
  · intro batchId hbatchId
    obtain ⟨batch,hbatch⟩ := h.batched jobId job batchId hjob hbatchId
    exact Counted.resolved (countRows_seen _ rfl rfl (hseenIn batchId hbatchId))
      (countRows_isError rfl herrorless
        ((h.batch batchId batch hbatch).clean (hclosed batchId batch hbatchId hbatch)))
  · simp only [stillUnresolved,ofTeam,Bool.and_eq_true,beq_iff_eq] at hp
    exact hp.1.1

end LatexCore.Imports
