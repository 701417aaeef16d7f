import LatexCore.Foundation.Runs
import LatexCore.Queue.Effects

/-! # Invariants of the queue state machine

Every reachable job row has consistent worker, lease, attempt and finish
columns, the running jobs stay under both limits, and artifacts belong to
terminal jobs. A terminal row and its artifacts never change again.
-/
namespace LatexCore.Queue
open Core Foundation
variable {limits : QueueLimits} {db db' : Db} {op : QueueOp}

/-- The relations between the columns of one job row. -/
structure Job.WellFormed (limits : QueueLimits) (j : Job) : Prop where
  attempts : j.attemptCount ≤ limits.maxAttempts
  budget : j.state = .queued → j.attemptCount < limits.maxAttempts
  neverClaimed : j.state ≠ .claimed
  worker : j.workerId.isSome = true ↔ j.state = .running
  lease : j.leaseUntil.isSome = true ↔ j.state = .running
  finished : j.finishedAt.isSome = true ↔ j.state.terminal = true

theorem Job.New.wellFormed {j : Job} (h : j.New) : j.WellFormed limits := by
  cases h
  constructor <;> simp [Job.queued,JobState.terminal,JobState.outstanding,limits.maxAttempts_pos]

theorem JobStep.wellFormed {j j' : Job} (h : JobStep limits j op j') (hj : j.WellFormed limits) :
    j'.WellFormed limits := by
  obtain ⟨hattempts,hbudget,hclaimed,hworker,hlease,hfinished⟩ := hj
  cases h with
  | renewed leaseMillis now hr =>
    constructor <;> simp_all [Job.renew]
  | cancellationRequested ho =>
    by_cases hq : j.state = .queued
    · constructor <;>
        simp [Job.requestCancellation,hq,hattempts,JobState.terminal,JobState.outstanding]
    · constructor <;> simp_all [Job.requestCancellation]
  | recovered now hl =>
    by_cases hc : j.cancellationRequested = true
    · constructor <;> simp [Job.recover,hc,hattempts,JobState.terminal,JobState.outstanding]
    · by_cases hb : limits.maxAttempts ≤ j.attemptCount
      · constructor <;> simp [Job.recover,hc,hb,hattempts,JobState.terminal,JobState.outstanding]
      · constructor <;> simp [Job.recover,hc,hb,hattempts,JobState.terminal,JobState.outstanding]
        omega
  | finished state errorClass error cacheSource now hr ht =>
    constructor <;> cases state <;>
      simp_all [Job.finish,JobState.terminal,JobState.outstanding]
  | requeued error hr ha =>
    constructor <;> simp_all [Job.requeue,JobState.terminal,JobState.outstanding]

theorem claimBy_wellFormed {j : Job} (hj : j.WellFormed limits) (hq : j.state = .queued)
    (worker : WorkerId) (leaseMillis : ℕ) (now : Timestamp) :
    (j.claimBy worker leaseMillis now).WellFormed limits := by
  have hb := hj.budget hq
  have hf := hj.finished
  constructor <;> simp_all [Job.claimBy,JobState.terminal,JobState.outstanding] <;> omega

/-- No transition other than a claim takes a lease. -/
theorem JobStep.leased {j j' : Job} (h : JobStep limits j op j') :
    j'.userId = j.userId ∧ (j'.state.leased = true → j.state.leased = true) := by
  cases h with
  | renewed leaseMillis now hr => exact ⟨rfl,fun hl => hl⟩
  | cancellationRequested ho =>
    refine ⟨rfl,?_⟩
    by_cases hq : j.state = .queued <;> simp [Job.requestCancellation,hq,JobState.leased]
  | recovered now hl => exact ⟨rfl,fun _ => hl⟩
  | finished state errorClass error cacheSource now hr ht => exact ⟨rfl,fun _ => by simp [hr,JobState.leased]⟩
  | requeued error hr ha => exact ⟨rfl,fun _ => by simp [hr,JobState.leased]⟩

theorem JobStep.not_terminal {j j' : Job} (h : JobStep limits j op j') : j.state.terminal = false := by
  cases h with
  | renewed leaseMillis now hr => simp [hr,JobState.terminal,JobState.outstanding]
  | cancellationRequested ho => simp [JobState.terminal,ho]
  | recovered now hl => cases hs : j.state <;> simp_all [JobState.leased,JobState.terminal,JobState.outstanding]
  | finished state errorClass error cacheSource now hr ht => simp [hr,JobState.terminal,JobState.outstanding]
  | requeued error hr ha => simp [hr,JobState.terminal,JobState.outstanding]

theorem JobStep.origin {j j' : Job} (h : JobStep limits j op j') :
    j'.workspaceId = j.workspaceId ∧ j'.inputs = j.inputs := by
  cases h <;> exact ⟨rfl,rfl⟩

theorem rowChange_modify {t : Table JobId Job} {id : JobId} {j : Job} (f : Job → Job)
    (hj : t.get? id = some j) (h : JobStep limits j op (f j)) (k : JobId) :
    RowChange limits op (t.get? k) ((t.modify id f).get? k) := by
  by_cases hk : k = id
  · subst hk
    simpa [hj] using RowChange.changed h
  · rw [Table.get?_modify_of_ne t hk]
    exact .same _

theorem rowChange_recoverRows (db : Db) (now : Timestamp) (k : JobId) :
    RowChange limits op (db.jobs.get? k) ((recoverRows limits db now).jobs.get? k) := by
  simp only [recoverRows,Table.get?_updateWhere]
  cases hj : db.jobs.get? k with
  | none => exact .same _
  | some j =>
    by_cases he : j.expired now = true
    · have hl : j.state.leased = true := by
        simp only [Job.expired,Bool.and_eq_true] at he
        exact he.1
      simpa [he] using RowChange.changed (JobStep.recovered now hl)
    · simpa [he] using RowChange.same (some j)

theorem Completed.rows {job : JobId} {worker : WorkerId} {fresh : FreshIds} {clock : Clock}
    (h : Completed limits job worker fresh clock db db') (k : JobId) :
    RowChange limits op (db.jobs.get? k) (db'.jobs.get? k) := by
  cases h with
  | cancelled j hj hc hheld hstill =>
    exact rowChange_modify _ hj (.finished _ _ _ _ _ (heldBy_iff.mp hheld).1 rfl) k
  | settled j hj hc hheld state hs errorClass error cacheSource artifacts rows hrows cache _ hf =>
    have ht : state.terminal = true := by rcases hs with rfl | rfl | rfl <;> rfl
    exact RowChange.extend (rowChange_modify _ hj
      (.finished state errorClass error cacheSource clock.finished (heldBy_iff.mp hheld).1 ht) k)
      (finalizeV2Build_extend hf).1
  | requeued j hj hc hheld ha error =>
    exact rowChange_modify _ hj (.requeued error (heldBy_iff.mp hheld).1 ha) k

theorem Stepped.rowChange (h : Stepped limits db op db')
    (hop : ∀ worker locked clock, op ≠ .claim worker locked clock) (k : JobId) :
    RowChange limits op (db.jobs.get? k) (db'.jobs.get? k) := by
  cases h with
  | idle => exact .same _
  | enqueued j hnew jobs hi =>
    rw [Table.get?_insert? hi k]
    split
    · next hk =>
      rw [hk,(Table.insert?_eq_some hi).1]
      exact .new hnew
    · exact .same _
  | claimed id j hj hq leaseMillis hglobal huser => exact absurd rfl (hop _ _ _)
  | renewed j hj hheld leaseMillis =>
    exact rowChange_modify _ hj (.renewed _ _ (heldBy_iff.mp hheld).1) k
  | cancellationRequested j hj ho hr => exact rowChange_modify _ hj (.cancellationRequested ho) k
  | recovered hmax todo htodo _ hf =>
    exact (rowChange_recoverRows db _ k).extend (finalizeFailed_extend hf).1
  | completed job worker fresh clock hop _ hc => exact hc.rows k
  | evicted cache => exact .same _
  | submitted mid ha _ answer hs =>
    obtain ⟨schedulers,rfl,-,-⟩ := admitSubmission_ok ha
    exact hs.extend.1.rowChange k

theorem Stepped.rows (h : Stepped limits db op db') :
    (∀ k, RowChange limits op (db.jobs.get? k) (db'.jobs.get? k)) ∨
      ∃ id j worker leaseMillis now, db.jobs.get? id = some j ∧ j.state = .queued ∧
        db.jobs.count (fun _ j => j.state.leased) < limits.globalRunning ∧
        db.jobs.count (fun _ active => active.userId == j.userId && active.state.leased) <
          limits.perUserRunning ∧ db' = claimRow db id worker leaseMillis now := by
  by_cases hop : ∃ worker locked clock, op = .claim worker locked clock
  · obtain ⟨worker,locked,clock,rfl⟩ := hop
    cases h with
    | idle => exact Or.inl (fun k => .same _)
    | claimed id j hj hq leaseMillis hglobal huser =>
      exact Or.inr ⟨id,j,_,leaseMillis,_,hj,hq,hglobal,huser,rfl⟩
    | completed job worker fresh clock hop _ hc => cases hop
  · exact Or.inl (h.rowChange (fun worker locked clock heq => hop ⟨worker,locked,clock,heq⟩))

theorem insertArtifacts_ok {job : JobId} {key : CompileKey} {artifacts : List PersistedArtifact}
    {t t' : Table ArtifactId Artifact} (h : insertArtifacts job key artifacts t = .ok t')
    (a : ArtifactId) :
    t'.get? a = t.get? a ∨ t.get? a = none ∧ ∃ row, t'.get? a = some row ∧ row.jobId = job := by
  induction artifacts generalizing t with
  | nil =>
    cases h
    exact Or.inl rfl
  | cons first rest ih =>
    simp only [insertArtifacts,bind_ok,require_ok] at h
    obtain ⟨_,-,_,-,_,-,_,-,mid,hm,h⟩ := h
    have hget := Table.get?_insert? hm a
    rcases ih h with hkept | ⟨hnone,row,hrow,hjob⟩
    · by_cases ha : a = first.artifactId
      · rw [if_pos ha] at hget
        exact Or.inr ⟨ha ▸ (Table.insert?_eq_some hm).1,_,hkept.trans hget,rfl⟩
      · exact Or.inl (hkept.trans (hget.trans (if_neg ha)))
    · refine Or.inr ⟨?_,row,hrow,hjob⟩
      by_cases ha : a = first.artifactId
      · simp [if_pos ha,hnone] at hget
      · rw [← hget.trans (if_neg ha)]
        exact hnone

theorem Stepped.artifacts (h : Stepped limits db op db') (a : ArtifactId) :
    db'.artifacts.get? a = db.artifacts.get? a ∨
      db.artifacts.get? a = none ∧ ∃ row j j', db'.artifacts.get? a = some row ∧
        db.jobs.get? row.jobId = some j ∧ j.state = .running ∧
        db'.jobs.get? row.jobId = some j' ∧ j'.state.terminal = true := by
  cases h with
  | idle => exact Or.inl rfl
  | enqueued j hnew jobs hi => exact Or.inl rfl
  | claimed id j hj hq leaseMillis hglobal huser => exact Or.inl rfl
  | renewed j hj hheld leaseMillis => exact Or.inl rfl
  | cancellationRequested j hj ho hr => exact Or.inl rfl
  | recovered hmax todo htodo _ hf => exact Or.inl (by rw [(finalizeFailed_extend hf).2]; rfl)
  | completed job worker fresh clock hop _ hc =>
    cases hc with
    | cancelled j hj hc hheld hstill => exact Or.inl rfl
    | requeued j hj hc hheld ha error => exact Or.inl rfl
    | settled j hj hc hheld state hs errorClass error cacheSource artifacts rows hrows cache _ hf =>
      obtain ⟨hext,hart⟩ := finalizeV2Build_extend hf
      rw [hart]
      rcases insertArtifacts_ok hrows a with hkept | ⟨hnone,row,hrow,hjob⟩
      · exact Or.inl hkept
      · have hfin : db'.jobs.get? job =
            some (j.finish state errorClass error cacheSource clock.finished) :=
          hext.kept (by simp [hj])
        refine Or.inr ⟨hnone,row,j,_,hrow,hjob ▸ hj,(heldBy_iff.mp hheld).1,hjob ▸ hfin,?_⟩
        rcases hs with rfl | rfl | rfl <;> rfl
  | evicted cache => exact Or.inl rfl
  | submitted mid ha _ answer hs =>
    obtain ⟨schedulers,rfl,-,-⟩ := admitSubmission_ok ha
    exact Or.inl (by rw [hs.extend.2])

structure QueueInvariant (limits : QueueLimits) (db : Db) : Prop where
  globalRunning : db.jobs.count (fun _ j => j.state.leased) ≤ limits.globalRunning
  userRunning : ∀ user, db.jobs.count (fun _ j => j.userId == user && j.state.leased) ≤
    limits.perUserRunning
  rows : ∀ id j, db.jobs.get? id = some j → j.WellFormed limits
  artifacts : ∀ a row, db.artifacts.get? a = some row →
    ∃ j, db.jobs.get? row.jobId = some j ∧ j.state.terminal = true

theorem queueInvariant_empty (limits : QueueLimits) : QueueInvariant limits .empty := by
  constructor <;> simp [Db.empty]

theorem RowChange.wellFormed {o : Option Job} {j' : Job} (h : RowChange limits op o (some j'))
    (ho : ∀ j, o = some j → j.WellFormed limits) : j'.WellFormed limits := by
  cases h with
  | same => exact ho j' rfl
  | new hnew => exact hnew.wellFormed
  | changed hstep => exact hstep.wellFormed (ho _ rfl)

theorem RowChange.terminal {j : Job} {o : Option Job} (h : RowChange limits op (some j) o)
    (hj : j.state.terminal = true) : o = some j := by
  cases h with
  | same => rfl
  | changed hstep => simp [hstep.not_terminal] at hj

theorem RowChange.origin {j : Job} {o : Option Job} (h : RowChange limits op (some j) o) :
    ∃ j', o = some j' ∧ j'.workspaceId = j.workspaceId ∧ j'.inputs = j.inputs := by
  cases h with
  | same => exact ⟨j,rfl,rfl,rfl⟩
  | changed hstep => exact ⟨_,rfl,hstep.origin⟩

theorem RowChange.leased {o : Option Job} {j' : Job} (h : RowChange limits op o (some j'))
    (hl : j'.state.leased = true) :
    ∃ j, o = some j ∧ j.userId = j'.userId ∧ j.state.leased = true := by
  cases h with
  | same => exact ⟨j',rfl,rfl,hl⟩
  | new hnew =>
    cases hnew
    cases hl
  | changed hstep => exact ⟨_,rfl,hstep.leased.1.symm,hstep.leased.2 hl⟩

/-- A terminal row survives every call as it is. -/
theorem Stepped.terminal_kept (h : Stepped limits db op db') {k : JobId} {j : Job}
    (hj : db.jobs.get? k = some j) (ht : j.state.terminal = true) : db'.jobs.get? k = some j := by
  rcases h.rows with hrows | ⟨id,q,worker,leaseMillis,now,hq,hstate,-,-,rfl⟩
  · exact (hj ▸ hrows k).terminal ht
  · have hne : k ≠ id := by
      rintro rfl
      rw [hq] at hj
      cases hj
      simp [hstate,JobState.terminal,JobState.outstanding] at ht
    simpa [claimRow,Table.get?_modify_of_ne _ hne] using hj

theorem Stepped.globalRunning (h : Stepped limits db op db')
    (hinv : db.jobs.count (fun _ j => j.state.leased) ≤ limits.globalRunning) :
    db'.jobs.count (fun _ j => j.state.leased) ≤ limits.globalRunning := by
  rcases h.rows with hrows | ⟨id,q,worker,leaseMillis,now,hq,hstate,hroom,-,rfl⟩
  · refine le_trans (Table.count_le_of_imp ?_) hinv
    intro k j' hj' hl
    obtain ⟨j,hj,-,hleased⟩ := (hj' ▸ hrows k).leased hl
    exact ⟨j,hj,hleased⟩
  · refine le_trans (Table.count_le_succ_of_imp id ?_) hroom
    intro k j' hne hj' hl
    exact ⟨j',by simpa [claimRow,Table.get?_modify_of_ne _ hne] using hj',hl⟩

theorem Stepped.userRunning (h : Stepped limits db op db') (user : UserId)
    (hinv : db.jobs.count (fun _ j => j.userId == user && j.state.leased) ≤ limits.perUserRunning) :
    db'.jobs.count (fun _ j => j.userId == user && j.state.leased) ≤ limits.perUserRunning := by
  rcases h.rows with hrows | ⟨id,q,worker,leaseMillis,now,hq,hstate,-,hroom,rfl⟩
  · refine le_trans (Table.count_le_of_imp ?_) hinv
    intro k j' hj' hl
    simp only [Bool.and_eq_true,beq_iff_eq] at hl
    obtain ⟨j,hj,huser,hleased⟩ := (hj' ▸ hrows k).leased hl.2
    exact ⟨j,hj,by simp [huser,hl.1,hleased]⟩
  · by_cases hu : q.userId = user
    · subst hu
      refine le_trans (Table.count_le_succ_of_imp id ?_) hroom
      intro k j' hne hj' hl
      exact ⟨j',by simpa [claimRow,Table.get?_modify_of_ne _ hne] using hj',hl⟩
    · refine le_trans (Table.count_le_of_imp ?_) hinv
      intro k j' hj' hl
      by_cases hk : k = id
      · subst hk
        simp only [claimRow,Table.get?_modify_self,hq,Option.map_some,Option.some.injEq] at hj'
        subst hj'
        simp [Job.claimBy,hu] at hl
      · exact ⟨j',by simpa [claimRow,Table.get?_modify_of_ne _ hk] using hj',hl⟩

theorem Stepped.wellFormed (h : Stepped limits db op db')
    (hinv : ∀ id j, db.jobs.get? id = some j → j.WellFormed limits) (k : JobId) (j' : Job)
    (hj' : db'.jobs.get? k = some j') : j'.WellFormed limits := by
  rcases h.rows with hrows | ⟨id,q,worker,leaseMillis,now,hq,hstate,-,-,rfl⟩
  · exact (hj' ▸ hrows k).wellFormed (hinv k)
  · by_cases hk : k = id
    · subst hk
      simp only [claimRow,Table.get?_modify_self,hq,Option.map_some,Option.some.injEq] at hj'
      subst hj'
      exact claimBy_wellFormed (hinv k q hq) hstate _ _ _
    · exact hinv k j' (by simpa [claimRow,Table.get?_modify_of_ne _ hk] using hj')

theorem Stepped.queueInvariant (h : Stepped limits db op db') (hinv : QueueInvariant limits db) :
    QueueInvariant limits db' := by
  refine ⟨h.globalRunning hinv.globalRunning,fun user => h.userRunning user (hinv.userRunning user),
    h.wellFormed hinv.rows,?_⟩
  intro a row hrow
  rcases h.artifacts a with hkept | ⟨-,row',-,j',hrow',-,-,hj',ht⟩
  · obtain ⟨j,hj,ht⟩ := hinv.artifacts a row (hkept ▸ hrow)
    exact ⟨j,h.terminal_kept hj ht,ht⟩
  · rw [hrow] at hrow'
    cases hrow'
    exact ⟨j',hj',ht⟩

/-- The terminal rows of the earlier tables and their artifacts are those of the later ones. -/
def TerminalKept (db db' : Db) : Prop :=
  ∀ k j, db.jobs.get? k = some j → j.state.terminal = true → db'.jobs.get? k = some j ∧
    ∀ a row, row.jobId = k → (db'.artifacts.get? a = some row ↔ db.artifacts.get? a = some row)

theorem TerminalKept.refl (db : Db) : TerminalKept db db := fun _ _ hj _ => ⟨hj,fun _ _ _ => Iff.rfl⟩

theorem TerminalKept.trans {a b c : Db} (hab : TerminalKept a b) (hbc : TerminalKept b c) :
    TerminalKept a c := by
  intro k j hj ht
  obtain ⟨hb,hartb⟩ := hab k j hj ht
  obtain ⟨hc,hartc⟩ := hbc k j hb ht
  exact ⟨hc,fun id row hrow => (hartc id row hrow).trans (hartb id row hrow)⟩

theorem Stepped.terminalKept (h : Stepped limits db op db') : TerminalKept db db' := by
  intro k j hj ht
  refine ⟨h.terminal_kept hj ht,?_⟩
  intro a row hrow
  rcases h.artifacts a with hkept | ⟨hnone,row',q,-,hrow',hq,hrunning,-,-⟩
  · rw [hkept]
  · have hne : row ≠ row' := by
      rintro rfl
      rw [hrow,hj] at hq
      cases hq
      simp [hrunning,JobState.terminal,JobState.outstanding] at ht
    simp [hnone,hrow',Ne.symm hne]

/-- What the queue promises of its tables: the concurrency limits, the attempt budget, the
lease and finish columns, and artifacts for terminal jobs alone. -/
structure QueueContract (limits : QueueLimits) (db : Db) : Prop where
  globalRunning : db.jobs.count (fun _ j => j.state == .running) ≤ limits.globalRunning
  userRunning : ∀ user, db.jobs.count (fun _ j => j.userId == user && j.state == .running) ≤
    limits.perUserRunning
  attempts : ∀ id j, db.jobs.get? id = some j → j.attemptCount ≤ limits.maxAttempts
  lease : ∀ id j, db.jobs.get? id = some j →
    (j.workerId.isSome = true ↔ j.state = .running) ∧ (j.leaseUntil.isSome = true ↔ j.state = .running)
  finished : ∀ id j, db.jobs.get? id = some j →
    (j.finishedAt.isSome = true ↔ j.state.terminal = true)
  artifacts : ∀ a row, db.artifacts.get? a = some row →
    ∃ j, db.jobs.get? row.jobId = some j ∧ j.state.terminal = true

theorem QueueInvariant.contract (h : QueueInvariant limits db) : QueueContract limits db := by
  refine ⟨?_,?_,fun id j hj => (h.rows id j hj).attempts,
    fun id j hj => ⟨(h.rows id j hj).worker,(h.rows id j hj).lease⟩,
    fun id j hj => (h.rows id j hj).finished,h.artifacts⟩
  · refine le_trans (Table.count_le_of_imp ?_) h.globalRunning
    intro k j hj hr
    exact ⟨j,hj,by simp [beq_iff_eq.mp hr,JobState.leased]⟩
  · intro user
    refine le_trans (Table.count_le_of_imp ?_) (h.userRunning user)
    intro k j hj hr
    simp only [Bool.and_eq_true,beq_iff_eq] at hr
    exact ⟨j,hj,by simp [hr.1,hr.2,JobState.leased]⟩

/-- Every reachable state meets the contract of the queue, and from it on no terminal job
changes its row or its artifacts. -/
theorem queue_contract (limits : QueueLimits) (ops more : List QueueOp) :
    QueueContract limits (run (step limits) .empty ops) ∧
      TerminalKept (run (step limits) .empty ops) (run (step limits) .empty (ops ++ more)) := by
  refine ⟨(run_invariant (QueueInvariant limits) (fun db op h => (step_stepped limits db op).queueInvariant h)
    (queueInvariant_empty limits) ops).contract,?_⟩
  rw [run_append]
  exact run_relates TerminalKept TerminalKept.refl TerminalKept.trans
    (fun db op => (step_stepped limits db op).terminalKept) _ more

end LatexCore.Queue
