import LatexCore.Imports.Marks
import LatexCore.Imports.Uploads

/-! # The states of imports agree with their rows

Along every run the rows of a job are handed to the datasets at most once. While
jobs of a batch are applied with their batch, and marks are committed to the rows
that they counted, the states and the counters of jobs and batches are those that
their rows ask for. An apply of the last job of a batch breaks this: the job is
applied and the batch still waits.
-/
namespace LatexCore.Imports
open Core Foundation
open Institution (InstitutionError)
variable {texts : Texts} {w : World} {label : Label}

/-! ## Rows that have been handed over -/

structure Handed (w : World) : Prop where
  settled : ∀ key ∈ w.handed, ∃ row, w.db.rows.get? key = some row ∧ row.status ≠ .valid
  nodup : w.handed.Nodup

theorem insertRows_keep {jobId : Uuid} {rows : List SourceRow} {t t' : Table RowKey ImportRow}
    (h : rows.foldlM (insertRow jobId) t = .ok t') {key : RowKey} {row : ImportRow}
    (hrow : t.get? key = some row) : t'.get? key = some row := by
  induction rows generalizing t with
  | nil =>
    cases h
    exact hrow
  | cons source rest ih =>
    rw [List.foldlM_cons,bind_ok] at h
    obtain ⟨mid,hmid,hrest⟩ := h
    obtain ⟨stored,_,hinsert⟩ := insertRow_ok hmid
    apply ih hrest
    rw [Table.get?_insert? hinsert,if_neg]
    · exact hrow
    · rintro rfl
      rw [(Table.insert?_eq_some hinsert).1] at hrow
      cases hrow

theorem insertJobs_keep {batchId : Uuid} {mode : ImportMode} {rows : List SourceRow}
    {jobIds : List (Uuid × ℕ)} {db db' : Db} (h : insertJobs batchId mode rows jobIds db = .ok db')
    {key : RowKey} {row : ImportRow} (hrow : db.rows.get? key = some row) :
    db'.rows.get? key = some row := by
  induction jobIds generalizing db with
  | nil =>
    cases h
    exact hrow
  | cons i rest ih =>
    rw [insertJobs,bind_ok] at h
    obtain ⟨mid,hmid,hrest⟩ := h
    exact ih hrest (insertRows_keep (insertJob_ok hmid).2.2.2 hrow)

theorem validateUpload_keep {jobId : Uuid} {mode : ImportMode} {rows : List SourceRow} {db : Db}
    {key : RowKey} {row : ImportRow} (hrow : db.rows.get? key = some row) :
    (commit (validateUpload jobId mode rows) db).rows.get? key = some row := by
  apply commit_cases (fun db' : Db => db'.rows.get? key = some row) hrow
  intro db' _ h
  simp only [validateUpload,bind_ok,pure_ok,Prod.mk.injEq] at h
  obtain ⟨mid,hmid,rfl,_⟩ := h
  exact insertRows_keep (insertJob_ok hmid).2.2.2 hrow

theorem validateBatch_keep {batchId : Uuid} {operation : InstitutionOperation} {jobIds : List Uuid}
    {rows : List SourceRow} {db : Db} {key : RowKey} {row : ImportRow}
    (hrow : db.rows.get? key = some row) :
    (commit (validateBatch batchId operation jobIds rows) db).rows.get? key = some row := by
  apply commit_cases (fun db' : Db => db'.rows.get? key = some row) hrow
  intro db' _ h
  simp only [validateBatch,bind_ok,ensure_ok,require_ok,pure_ok,Prod.mk.injEq] at h
  obtain ⟨_,_,_,_,batches,_,final,hfinal,rfl,_⟩ := h
  exact insertJobs_keep hfinal hrow

theorem mem_chosenRows {db : Db} {chosen : RowKey → ImportRow → Bool} {dataset : Dataset} {key : RowKey} :
    key ∈ (db.chosenRows chosen dataset).map Prod.fst ↔
      key.2.1 = dataset ∧ ∃ row, db.rows.get? key = some row ∧ chosen key row = true := by
  rw [Db.chosenRows,List.mem_map]
  constructor
  · rintro ⟨⟨k,row⟩,hmem,rfl⟩
    rw [List.mem_mergeSort,List.mem_filter,Bool.and_eq_true,beq_iff_eq] at hmem
    exact ⟨hmem.2.1,row,Table.mem_rows_iff.mp hmem.1,hmem.2.2⟩
  · rintro ⟨hdataset,row,hrow,hchosen⟩
    refine ⟨(key,row),?_,rfl⟩
    rw [List.mem_mergeSort,List.mem_filter,Bool.and_eq_true,beq_iff_eq]
    exact ⟨Table.mem_rows_iff.mpr hrow,hdataset,hchosen⟩

theorem chosenRows_nodup (db : Db) (chosen : RowKey → ImportRow → Bool) (dataset : Dataset) :
    ((db.chosenRows chosen dataset).map Prod.fst).Nodup := by
  have hperm := (List.mergeSort_perm (db.rows.rows.filter
    (fun r => r.1.2.1 == dataset && chosen r.1 r.2)) (fun a b => decide (a.1.2.2 ≤ b.1.2.2))).map Prod.fst
  apply hperm.nodup_iff.mpr
  exact db.rows.distinct.sublist (List.filter_sublist.map Prod.fst)

theorem orders_nodup (mode : ImportMode) : (mode.firstOrder ++ mode.lastOrder).Nodup := by
  cases mode <;> decide

theorem mem_handedRows {db : Db} {mode : ImportMode} {chosen assigned : RowKey → ImportRow → Bool}
    {key : RowKey} (h : key ∈ db.handedRows mode chosen assigned) :
    ∃ row, db.rows.get? key = some row ∧ (chosen key row = true ∨ assigned key row = true) := by
  rw [Db.handedRows,List.mem_append,List.mem_flatMap,List.mem_flatMap] at h
  rcases h with ⟨dataset,_,hmem⟩ | ⟨dataset,_,hmem⟩
  · obtain ⟨_,row,hrow,hchosen⟩ := mem_chosenRows.mp hmem
    exact ⟨row,hrow,Or.inl hchosen⟩
  · obtain ⟨_,row,hrow,hassigned⟩ := mem_chosenRows.mp hmem
    exact ⟨row,hrow,Or.inr hassigned⟩

/-- An apply hands every row over once: no dataset is visited twice. -/
theorem handedRows_nodup (db : Db) (mode : ImportMode) (chosen assigned : RowKey → ImportRow → Bool) :
    (db.handedRows mode chosen assigned).Nodup := by
  have horders := orders_nodup mode
  have hflat : ∀ (p : RowKey → ImportRow → Bool) {order : List Dataset}, order.Nodup →
      (order.flatMap (fun dataset => (db.chosenRows p dataset).map Prod.fst)).Nodup := by
    intro p order horder
    rw [List.nodup_flatMap]
    refine ⟨fun dataset _ => chosenRows_nodup db p dataset,?_⟩
    apply horder.imp
    intro a b hne key ha hb
    exact hne ((mem_chosenRows.mp ha).1.symm.trans (mem_chosenRows.mp hb).1)
  rw [List.nodup_append] at horders
  rw [Db.handedRows,List.nodup_append]
  refine ⟨hflat chosen horders.1,hflat assigned horders.2.1,?_⟩
  intro key hfirst other hlast he
  subst he
  obtain ⟨a,ha,hmem⟩ := List.mem_flatMap.mp hfirst
  obtain ⟨b,hb,hmem'⟩ := List.mem_flatMap.mp hlast
  exact horders.2.2 a ha b hb ((mem_chosenRows.mp hmem).1.symm.trans (mem_chosenRows.mp hmem').1)

theorem Handed.keep (h : Handed w) {w' : World} (hhanded : w'.handed = w.handed)
    (hrows : ∀ key row, w.db.rows.get? key = some row →
      ∃ row', w'.db.rows.get? key = some row' ∧ (row.status ≠ .valid → row'.status ≠ .valid)) :
    Handed w' := by
  constructor
  · intro key hkey
    rw [hhanded] at hkey
    obtain ⟨row,hrow,hstatus⟩ := h.settled key hkey
    obtain ⟨row',hrow',himp⟩ := hrows key row hrow
    exact ⟨row',hrow',himp hstatus⟩
  · rw [hhanded]
    exact h.nodup

theorem Handed.update (h : Handed w) {w' : World} (hhanded : w'.handed = w.handed)
    {p : RowKey → ImportRow → Bool} {f : ImportRow → ImportRow}
    (hrows : w'.db.rows = w.db.rows.updateWhere p f) (hf : ∀ row, (f row).status ≠ .valid) :
    Handed w' := by
  apply h.keep hhanded
  intro key row hrow
  refine ⟨_,by rw [hrows,Table.get?_updateWhere,hrow,Option.map_some],?_⟩
  intro hstatus
  by_cases hp : p key row = true
  · simpa [hp] using hf row
  · simpa [hp] using hstatus

theorem settled_not_valid (row : ImportRow) : row.settled.status ≠ .valid := by
  rcases settled_status row with hs | hs <;> simp [hs]

theorem Handed.settle (h : Handed w) {w' : World} (more : List RowKey)
    {p : RowKey → ImportRow → Bool} (hhanded : w'.handed = w.handed ++ more) (hnodup : more.Nodup)
    (hrows : w'.db.rows = w.db.rows.updateWhere p ImportRow.settled)
    (hmore : ∀ key ∈ more, ∃ row, w.db.rows.get? key = some row ∧ p key row = true)
    (hvalid : ∀ key row, p key row = true → row.status = .valid) : Handed w' := by
  have hold : Handed { w' with handed := w.handed } := h.update rfl hrows settled_not_valid
  constructor
  · intro key hkey
    rw [hhanded,List.mem_append] at hkey
    rcases hkey with hkey | hkey
    · exact hold.settled key hkey
    · obtain ⟨row,hrow,hp⟩ := hmore key hkey
      refine ⟨row.settled,?_,settled_not_valid row⟩
      rw [hrows,Table.get?_updateWhere,hrow,Option.map_some,if_pos hp]
  · rw [hhanded,List.nodup_append]
    refine ⟨h.nodup,hnodup,?_⟩
    intro key hkey other hother he
    subst he
    obtain ⟨row,hrow,hstatus⟩ := h.settled key hkey
    obtain ⟨row',hrow',hp⟩ := hmore key hother
    rw [hrow] at hrow'
    cases hrow'
    exact hstatus (hvalid key row hp)

theorem Handed.step (h : Handed w) (label : Label) : Handed (w.step texts label) := by
  have hsame : ∀ {w' : World}, w'.handed = w.handed → w'.db.rows = w.db.rows → Handed w' := by
    intro w' hhanded hrows
    exact h.keep hhanded (fun key row hrow => ⟨row,by rw [hrows,hrow],id⟩)
  cases label with
  | validateUpload jobId mode rows =>
    exact h.keep rfl (fun key row hrow => ⟨row,validateUpload_keep hrow,id⟩)
  | validateBatch batchId operation jobIds rows =>
    exact h.keep rfl (fun key row hrow => ⟨row,validateBatch_keep hrow,id⟩)
  | applyImport jobId facts =>
    rw [World.step]
    split
    · exact h
    · next db _ happly =>
      obtain ⟨job,hjob,⟨hdone,rfl⟩ | ⟨hstatus,_,_,hrows,_⟩⟩ := applyImport_cases happly
      · refine hsame ?_ rfl
        simp [Db.handedByJob,hjob,hdone]
      · have hwaits : job.status.done = false := by rw [hstatus]; rfl
        refine h.settle (w.db.handedRows job.mode (ofJob jobId) (ofJob jobId)) ?_
          (handedRows_nodup ..) hrows ?_ ?_
        · simp [Db.handedByJob,hjob,hwaits]
        · intro key hkey
          obtain ⟨row,hrow,hp | hp⟩ := mem_handedRows hkey <;> exact ⟨row,hrow,hp⟩
        · intro key row hp
          simp only [ofJob,Bool.and_eq_true,beq_iff_eq] at hp
          exact hp.2
  | applyBatch batchId facts =>
    rw [World.step]
    split
    · exact h
    · next db _ happly =>
      obtain ⟨batch,hbatch,⟨hdone,rfl⟩ | ⟨hstatus,_,hrows,_⟩⟩ := applyBatch_cases happly
      · refine hsame ?_ rfl
        simp [Db.handedByBatch,hbatch,hdone]
      · have hwaits : batch.status.done = false := by rw [hstatus]; rfl
        refine h.settle (w.db.handedByBatch batchId) rfl ?_ hrows ?_ ?_
        · simp only [Db.handedByBatch,hbatch,hwaits]
          exact handedRows_nodup ..
        · intro key hkey
          simp only [Db.handedByBatch,hbatch,hwaits] at hkey
          obtain ⟨row,hrow,hp | hp⟩ := mem_handedRows hkey <;>
            exact ⟨row,hrow,(Bool.and_eq_true_iff.mp hp).1⟩
        · intro key row hp
          simp only [ofBatch,Bool.and_eq_true,beq_iff_eq] at hp
          exact hp.2
  | countJob client => exact hsame rfl rfl
  | countBatch client => exact hsame rfl rfl
  | markTeamUnresolved client jobId externalTeamKey reasons =>
    refine h.update (p := newlyUnresolved jobId externalTeamKey) (f := ImportRow.unresolved reasons)
      rfl rfl ?_
    intro row
    simp [ImportRow.unresolved]
  | markTeamResolved client jobId externalTeamKey =>
    exact h.update (p := stillUnresolved jobId externalTeamKey) (f := ImportRow.resolved) rfl rfl
      settled_not_valid
  | elsewhere db => exact hsame rfl rfl

/-! ## Reported teams -/

def Reported (w : World) : Prop :=
  ∀ r ∈ w.reported, ∃ key row, w.db.rows.get? key = some row ∧ ofTeam r.1 r.2 key row = true ∧
    row.status = .unresolved

theorem Reported.keep (h : Reported w) {w' : World} (hreported : ∀ r ∈ w'.reported, r ∈ w.reported)
    (hrows : ∀ key row, w.db.rows.get? key = some row → row.status = .unresolved →
      w'.db.rows.get? key = some row) : Reported w' := by
  intro r hr
  obtain ⟨key,row,hrow,hof,hstatus⟩ := h r (hreported r hr)
  exact ⟨key,row,hrows key row hrow hstatus,hof,hstatus⟩

theorem updateWhere_keep {t : Table RowKey ImportRow} {p : RowKey → ImportRow → Bool}
    {f : ImportRow → ImportRow} {key : RowKey} {row : ImportRow} (hrow : t.get? key = some row)
    (hp : p key row = false) : (t.updateWhere p f).get? key = some row := by
  rw [Table.get?_updateWhere,hrow,Option.map_some,hp]
  rfl

theorem Reported.step (h : Reported w) (hkeeps : w.keeps label) : Reported (w.step texts label) := by
  cases label with
  | validateUpload jobId mode rows =>
    exact h.keep (fun _ hr => hr) (fun key row hrow _ => validateUpload_keep hrow)
  | validateBatch batchId operation jobIds rows =>
    exact h.keep (fun _ hr => hr) (fun key row hrow _ => validateBatch_keep hrow)
  | applyImport jobId facts =>
    rw [World.step]
    split
    · exact h
    · next db _ happly =>
      obtain ⟨job,hjob,⟨_,rfl⟩ | ⟨_,_,_,hrows,_⟩⟩ := applyImport_cases happly
      · exact h.keep (fun _ hr => hr) (fun key row hrow _ => hrow)
      · refine h.keep (fun _ hr => hr) (fun key row hrow hstatus => ?_)
        dsimp only
        rw [hrows]
        exact updateWhere_keep hrow (by simp [ofJob,hstatus])
  | applyBatch batchId facts =>
    rw [World.step]
    split
    · exact h
    · next db _ happly =>
      obtain ⟨batch,hbatch,⟨_,rfl⟩ | ⟨_,_,hrows,_⟩⟩ := applyBatch_cases happly
      · exact h.keep (fun _ hr => hr) (fun key row hrow _ => hrow)
      · refine h.keep (fun _ hr => hr) (fun key row hrow hstatus => ?_)
        dsimp only
        rw [hrows]
        exact updateWhere_keep hrow (by simp [ofBatch,hstatus])
  | countJob client => exact h.keep (fun _ hr => hr) (fun key row hrow _ => hrow)
  | countBatch client => exact h.keep (fun _ hr => hr) (fun key row hrow _ => hrow)
  | markTeamUnresolved client jobId externalTeamKey reasons =>
    have hstays : ∀ key row, w.db.rows.get? key = some row → row.status = .unresolved →
        (w.db.rows.updateWhere (newlyUnresolved jobId externalTeamKey)
          (ImportRow.unresolved reasons)).get? key = some row :=
      fun key row hrow hstatus => updateWhere_keep hrow (by simp [newlyUnresolved,hstatus])
    intro r hr
    rcases List.mem_cons.mp hr with rfl | hr
    · obtain ⟨key,row,hrow,hof⟩ := hkeeps.2
      by_cases hstatus : row.status = .unresolved
      · exact ⟨key,row,hstays key row hrow hstatus,hof,hstatus⟩
      · refine ⟨key,row.unresolved reasons,?_,hof,rfl⟩
        change (w.db.rows.updateWhere _ _).get? key = _
        rw [Table.get?_updateWhere,hrow,Option.map_some,if_pos]
        simp [newlyUnresolved,hof,hstatus]
    · obtain ⟨key,row,hrow,hof,hstatus⟩ := h r hr
      exact ⟨key,row,hstays key row hrow hstatus,hof,hstatus⟩
  | markTeamResolved client jobId externalTeamKey =>
    intro r hr
    obtain ⟨hmem,hne⟩ := List.mem_filter.mp hr
    obtain ⟨key,row,hrow,hof,hstatus⟩ := h r hmem
    refine ⟨key,row,updateWhere_keep hrow ?_,hof,hstatus⟩
    rw [Bool.eq_false_iff]
    intro hstill
    simp only [stillUnresolved,ofTeam,Bool.and_eq_true,beq_iff_eq] at hstill hof
    have hkey : some r.2 = some externalTeamKey := hof.2.symm.trans hstill.1.2
    have he : r = (jobId,externalTeamKey) :=
      Prod.ext (hof.1.symm.trans hstill.1.1) (Option.some.inj hkey)
    simp [he] at hne
  | elsewhere db => exact h.keep (fun _ hr => hr) (fun key row hrow _ => hrow)

/-! ## The contract -/

structure ImportsAgree (w : World) : Prop where
  once : w.handed.Nodup
  gate : ∀ batchId batch, w.db.batches.get? batchId = some batch →
    0 < w.db.countRows (w.db.inBatch batchId) RowStatus.isError →
    ∀ jobId job, w.db.jobs.get? jobId = some job → job.batchId = some batchId →
      job.status.done = false
  together : ∀ batchId batch, w.db.batches.get? batchId = some batch →
    (batch.status.done = true ↔ ∀ jobId job, w.db.jobs.get? jobId = some job →
      job.batchId = some batchId → job.status.done = true)
  job : ∀ jobId job, w.db.jobs.get? jobId = some job →
    (job.status = .incomplete ↔
      0 < w.db.countRows (fun id => id == jobId) RowStatus.isUnresolved) ∧
    job.errorRows = w.db.wrongRows jobId
  batch : ∀ batchId batch, w.db.batches.get? batchId = some batch →
    (batch.status = .incomplete ↔
      0 < w.db.countRows (w.db.inBatch batchId) RowStatus.isUnresolved) ∧
    batch.errorRows = w.db.wrongRowsIn batchId
  reported : ∀ r ∈ w.reported, ∃ key row, w.db.rows.get? key = some row ∧
    row.teamKey = some r.2 ∧ row.status = .unresolved ∧
    (key.1 = r.1 ∨ ∃ batchId, w.db.inBatch batchId r.1 = true ∧ w.db.inBatch batchId key.1 = true)

theorem Sound.step (h : Sound w.db) (hkeeps : w.keeps label) : Sound (w.step texts label).db := by
  cases label with
  | validateUpload jobId mode rows => exact commit_cases Sound h (fun _ _ hok => h.validateUpload hok)
  | validateBatch batchId operation jobIds rows =>
    exact commit_cases Sound h (fun _ _ hok => h.validateBatch hok)
  | applyImport jobId facts =>
    rw [World.step]
    split
    · exact h
    · next db _ happly => exact h.applyImport hkeeps happly
  | applyBatch batchId facts =>
    rw [World.step]
    split
    · exact h
    · next db _ happly => exact h.applyBatch happly
  | countJob client => exact h
  | countBatch client => exact h
  | markTeamUnresolved client jobId externalTeamKey reasons =>
    obtain ⟨⟨job,hjob,hdone,hbatch⟩,hrow⟩ := hkeeps
    exact h.markTeamUnresolved hjob hdone
      (fun batchId batch hof hget => (hbatch batchId hof).1 batch hget) hrow
      (fun batchId hof => (hbatch batchId hof).2)
  | markTeamResolved client jobId externalTeamKey =>
    obtain ⟨⟨job,hjob,hdone,hbatch⟩,hpart⟩ := hkeeps
    exact h.markTeamResolved hjob hdone
      (fun batchId batch hof hget => (hbatch batchId hof).1 batch hget) hpart
      (fun batchId hof => (hbatch batchId hof).2)
  | elsewhere db =>
    exact ⟨h.owned,h.batched,h.manned,fun id job hjob => (h.job id job hjob).of_eq (fun _ _ => rfl),
      fun id batch hbatch => (h.batch id batch hbatch).of_eq (fun _ _ => rfl),h.gate,h.together⟩

theorem sound_start (db : Db) : Sound (World.start db).db where
  owned := fun _ _ h => by cases h
  batched := fun _ _ _ h => by cases h
  manned := fun _ _ h => by cases h
  job := fun _ _ h => by cases h
  batch := fun _ _ h => by cases h
  gate := fun _ _ _ _ h => by cases h
  together := fun _ _ h => by cases h

/-- In every run whose applies and marks keep the books, the states and the counters of jobs and
batches agree with their rows. -/
theorem imports_agree (texts : Texts) (db : Db) (ops : List Label)
    (h : Along (World.step texts) World.keeps (World.start db) ops) :
    ImportsAgree (run (World.step texts) (World.start db) ops) := by
  have hsound : Sound (run (World.step texts) (World.start db) ops).db :=
    h.invariant (fun w => Sound w.db) (fun _ _ hs hkeeps => hs.step hkeeps) (sound_start db)
  have hreported : Reported (run (World.step texts) (World.start db) ops) := by
    apply h.invariant Reported (fun _ _ hs hkeeps => hs.step hkeeps)
    intro r hr
    cases hr
  have hhanded : Handed (run (World.step texts) (World.start db) ops) := by
    apply run_invariant Handed (fun _ label hs => hs.step label)
    refine ⟨?_,List.nodup_nil⟩
    intro key hkey
    cases hkey
  refine ⟨hhanded.nodup,?_,hsound.together,?_,?_,?_⟩
  · intro batchId _ _ hpos jobId job hjob hof
    exact hsound.gate batchId hpos jobId job hjob hof
  · intro jobId job hjob
    have hcounted := hsound.job jobId job hjob
    exact ⟨hcounted.unresolved,hcounted.errors⟩
  · intro batchId batch hbatch
    have hcounted := hsound.batch batchId batch hbatch
    exact ⟨hcounted.unresolved,hcounted.errors⟩
  · intro r hr
    obtain ⟨key,row,hrow,hof,hstatus⟩ := hreported r hr
    simp only [ofTeam,Bool.and_eq_true,beq_iff_eq] at hof
    exact ⟨key,row,hrow,hof.2,hstatus,Or.inl hof.1⟩

/-! ## Two sample runs -/

def sampleTexts : Texts := ⟨fun _ => none,fun _ => none,fun _ => none,fun _ => none⟩

def sampleFacts : ApplyFacts := ⟨fun _ accounts => .ok accounts,fun _ payloads => payloads,fun _ _ => .refl _⟩

def sampleDb : Db where
  now := 0
  tables := fun _ => .empty
  accounts := ⟨fun _ => .empty,.empty⟩
  teamLinks := .empty
  programmesHeld := []
  batches := .empty
  jobs := .empty
  rows := .empty

def sampleRows : List SourceRow :=
  [⟨0,.paperTeams,2,.obj [("external_team_key",.str "T")],
      .obj [("external_team_key",.str "T"),("team_name",.str "Team")],none,none⟩,
    ⟨1,.schools,2,.obj [("school_id",.str "S")],.obj [("school_id",.str "S")],none,none⟩]

def sampleRun : List Label :=
  [.validateBatch 1 .add [10,11] sampleRows,.applyBatch 1 sampleFacts,.countBatch 0,
    .markTeamUnresolved 0 10 "T" ["MISSING_LEADER"]]

def sampleApplied : World := run (World.step sampleTexts) (World.start sampleDb) (sampleRun.take 3)

theorem sampleRun_keeps : Along (World.step sampleTexts) World.keeps (World.start sampleDb) sampleRun := by
  refine ⟨trivial,trivial,trivial,⟨?_,?_⟩,trivial⟩
  · have hjob : (sampleApplied.db.jobs.get? 10).any (fun job => job.status.done && job.batchId == some 1) := by
      decide +kernel
    have hbatch : (sampleApplied.db.batches.get? 1).all (fun batch => batch.status.done) = true := by
      decide +kernel
    rw [Option.any_eq_true] at hjob
    obtain ⟨job,hget,hjob⟩ := hjob
    rw [Bool.and_eq_true,beq_iff_eq] at hjob
    refine ⟨job,hget,hjob.1,?_⟩
    intro batchId hof
    rw [hjob.2,Option.some.injEq] at hof
    subst hof
    refine ⟨?_,?_⟩
    · intro batch hb
      have hsame : sampleApplied.db.batches.get? 1 = some batch := hb
      rw [hsame] at hbatch
      exact hbatch
    · change ((sampleApplied.counted 0).2.part _) = _
      rfl
  · have hrow : (sampleApplied.db.rows.get? (10,.paperTeams,2)).any
        (fun row => ofTeam 10 "T" (10,.paperTeams,2) row) := by
      decide +kernel
    rw [Option.any_eq_true] at hrow
    obtain ⟨row,hget,hof⟩ := hrow
    exact ⟨_,row,hget,hof⟩

theorem imports_agree_marked :
    ImportsAgree (run (World.step sampleTexts) (World.start sampleDb) sampleRun) :=
  imports_agree sampleTexts sampleDb sampleRun sampleRun_keeps

/-- The job of a batch with one file is applied alone: all jobs of the batch are applied, and the
batch still waits. -/
theorem child_applied_alone : ¬ImportsAgree (run (World.step sampleTexts) (World.start sampleDb)
    [.validateBatch 1 .add [10] (sampleRows.take 1),.applyImport 10 sampleFacts]) := by
  intro h
  have hbatch : ((run (World.step sampleTexts) (World.start sampleDb) [.validateBatch 1 .add [10]
      (sampleRows.take 1),.applyImport 10 sampleFacts]).db.batches.get? 1).any
        (fun batch => !batch.status.done) := by
    decide +kernel
  have hjobs : (run (World.step sampleTexts) (World.start sampleDb) [.validateBatch 1 .add [10]
      (sampleRows.take 1),.applyImport 10 sampleFacts]).db.jobs.rows.all (fun r => r.2.status.done) := by
    decide +kernel
  rw [Option.any_eq_true] at hbatch
  obtain ⟨batch,hget,hwaits⟩ := hbatch
  have hdone := (h.together 1 batch hget).mpr (by
    intro jobId job hjob _
    exact List.all_eq_true.mp hjobs _ (Table.mem_rows_iff.mpr hjob))
  simp [hdone] at hwaits

end LatexCore.Imports
