import LatexCore.Imports.Reapply
import LatexCore.Imports.Uploads

/-! # Spellings of keys and references

Two uploads that differ in the spelling of UUIDs and integers only: they get the same
verdicts exactly if the texts compare alike, and if the statements of an apply also read
the same from their rows, the uploads leave the same database.

The validated rows of two spellings are stored as rows of jobs with the same actions and
codes. Where a row is refused, neither upload can be applied; otherwise both are applied
in lockstep, for some order in which the planner visits the records.
-/
namespace LatexCore.Imports
open Core Foundation
open Institution (InstitutionError)

/-! ## Uploads of two spellings -/

section Uploads
variable {texts : Texts} {mode : ImportMode} {effect : Dataset → Value → Value → Prop}
variable {db db' : Db} {facts facts' : ApplyFacts} {jobId batchId : Uuid}
variable {rows others : List SourceRow} {row other : SourceRow}

/-! ## Stored rows -/

structure SameStored (effect : Dataset → Value → Value → Prop) (row other : SourceRow) : Prop where
  place : SamePlace row other
  code : errorCode row = errorCode other
  action : row.error = none → actionFor row = actionFor other
  effect : row.error = none → effect row.dataset row.payload other.payload

theorem SameStored.error (h : SameStored effect row other) : row.error.isSome = other.error.isSome := by
  have hcode := congrArg Option.isSome h.code
  rwa [errorCode,errorCode,Option.isSome_map,Option.isSome_map] at hcode

theorem SameStored.none (h : SameStored effect row other) (hnone : row.error = none) : other.error = none := by
  have herror := h.error
  rw [hnone] at herror
  exact Option.isNone_iff_eq_none.mp (by simpa using herror.symm)

theorem importRow_alike (jobId : Uuid) (h : SameStored effect row other) :
    importRow row = none ∧ importRow other = none ∨ ∃ stored stored', importRow row = some stored ∧ importRow other = some stored' ∧
      SameRow effect (jobId,row.dataset,row.rowNumber) stored stored' := by
  cases herror : row.error with
  | some error =>
    have hsome : row.error.isSome = true := by rw [herror]; rfl
    have hsome' : other.error.isSome = true := h.error ▸ hsome
    refine .inr ⟨_,_,if_pos hsome,if_pos hsome',rfl,rfl,h.code,?_⟩
    exact fun hvalid => absurd hvalid (by simp)
  | none =>
    have hnone' := h.none herror
    rw [importRow,importRow,herror,hnone',h.action herror]
    cases haction : RowAction.parse? (actionFor other) with
    | none => exact .inl ⟨rfl,rfl⟩
    | some action => exact .inr ⟨_,_,rfl,rfl,rfl,rfl,rfl,fun _ => h.effect herror⟩

theorem insertRow_lockstep {t t' : Table RowKey ImportRow} (ht : Table.Related (SameRow effect) t t')
    (h : SameStored effect row other) :
    Lockstep (Table.Related (SameRow effect)) (insertRow jobId t row) (insertRow jobId t' other) := by
  rw [insertRow,insertRow]
  rcases importRow_alike jobId h with ⟨hnone,hnone'⟩ | ⟨stored,stored',hstored,hstored',hsame⟩
  · rw [hnone,hnone']
    exact .fails _
  · rw [hstored,hstored']
    have hkey : (jobId,other.dataset,other.rowNumber) = (jobId,row.dataset,row.rowNumber) := by
      rw [h.place.dataset,h.place.number]
    change Lockstep _ (require (t.insert? (jobId,row.dataset,row.rowNumber) stored) _)
      (require (t'.insert? (jobId,other.dataset,other.rowNumber) stored') _)
    rw [hkey]
    rcases ht.insert? hsame with ⟨hnone,hnone'⟩ | ⟨u,u',hu,hu',hrelated⟩
    · rw [hnone,hnone']
      exact .fails _
    · rw [hu,hu']
      exact .ends hrelated

theorem countP_related {α β : Type} {related : α → β → Prop} {p : α → Bool} {q : β → Bool} {xs : List α} {ys : List β}
    (h : List.Forall₂ related xs ys) (hp : ∀ x y, related x y → p x = q y) : xs.countP p = ys.countP q := by
  induction h with
  | nil => rfl
  | cons hfirst _ ih => rw [List.countP_cons,List.countP_cons,ih,hp _ _ hfirst]

theorem errorCount_alike (h : List.Forall₂ (SameStored effect) rows others) : errorCount rows = errorCount others :=
  countP_related h (fun _ _ hsame => hsame.error)

theorem actionCount_alike (h : List.Forall₂ (SameStored effect) rows others) (action : String) :
    actionCount rows action = actionCount others action := by
  refine countP_related h (fun row other hsame => ?_)
  cases herror : row.error with
  | some error =>
    have hsome := hsame.error
    rw [herror] at hsome
    obtain ⟨error',herror'⟩ := Option.isSome_iff_exists.mp hsome.symm
    rw [herror']
    rfl
  | none => rw [hsame.none herror,hsame.action herror]

theorem insertJob_lockstep {batch? : Option Uuid} (hdb : SameDb effect db db')
    (h : List.Forall₂ (SameStored effect) rows others) :
    Lockstep (SameDb effect) (insertJob jobId batch? mode rows db) (insertJob jobId batch? mode others db') := by
  rw [insertJob,insertJob,errorCount_alike h,h.length_eq,← hdb.now,← hdb.jobs]
  refine .share _ (fun jobs _ => ?_)
  have hrows : Lockstep (Table.Related (SameRow effect)) (rows.foldlM (insertRow jobId) db.rows)
      (others.foldlM (insertRow jobId) db'.rows) :=
    .foldlM h hdb.rows (fun t t' row other ht hsame => insertRow_lockstep ht hsame)
  refine hrows.bind (fun t t' ht => .pure ?_)
  exact ⟨rfl,hdb.tables,hdb.accounts,hdb.teamLinks,hdb.programmesHeld,hdb.batches,rfl,ht⟩

theorem insertJobs_lockstep {jobs : List (Uuid × ℕ)} (hdb : SameDb effect db db')
    (h : List.Forall₂ (SameStored effect) rows others) :
    Lockstep (SameDb effect) (insertJobs batchId mode rows jobs db) (insertJobs batchId mode others jobs db') := by
  induction jobs generalizing db db' with
  | nil => exact .ends hdb
  | cons job rest ih =>
    have hfiltered : List.Forall₂ (SameStored effect) (rows.filter (fun row => row.uploadIndex == job.2))
        (others.filter (fun row => row.uploadIndex == job.2)) := by
      refine List.rel_filter (fun row other hsame => ?_) h
      dsimp only
      rw [hsame.place.upload]
    rw [insertJobs,insertJobs]
    exact (insertJob_lockstep hdb hfiltered).bind (fun mid mid' hmid => ih hmid)

theorem validateUpload_lockstep (hdb : SameDb effect db db') (h : List.Forall₂ (SameStored effect) rows others) :
    Lockstep (fun r r' => SameDb effect r.1 r'.1 ∧ r.2 = r'.2) (validateUpload jobId mode rows db)
      (validateUpload jobId mode others db') := by
  rw [validateUpload,validateUpload]
  exact (insertJob_lockstep hdb h).bind (fun mid mid' hmid => .pure ⟨hmid,rfl⟩)

theorem all_related {α β : Type} {related : α → β → Prop} {p : α → Bool} {q : β → Bool} {xs : List α} {ys : List β}
    (h : List.Forall₂ related xs ys) (hp : ∀ x y, related x y → p x = q y) : xs.all p = ys.all q := by
  induction h with
  | nil => rfl
  | cons hfirst _ ih => rw [List.all_cons,List.all_cons,ih,hp _ _ hfirst]

theorem validateBatch_lockstep {operation : InstitutionOperation} {jobIds : List Uuid} (hdb : SameDb effect db db')
    (h : List.Forall₂ (SameStored effect) rows others) :
    Lockstep (fun r r' => SameDb effect r.1 r'.1 ∧ r.2 = r'.2) (validateBatch batchId operation jobIds rows db)
      (validateBatch batchId operation jobIds others db') := by
  have hplaces : rows.all (fun row => row.uploadIndex < jobIds.length) =
      others.all (fun row => row.uploadIndex < jobIds.length) := by
    refine all_related h (fun row other hsame => ?_)
    rw [hsame.place.upload]
  rw [validateBatch,validateBatch,hplaces,errorCount_alike h,h.length_eq,actionCount_alike h,actionCount_alike h,
    actionCount_alike h,actionCount_alike h,← hdb.batches]
  refine .share _ (fun _ _ => .share _ (fun _ _ => .share _ (fun batches _ => ?_)))
  have hmid : SameDb effect { db with batches := batches } { db' with batches := batches } :=
    ⟨hdb.now,hdb.tables,hdb.accounts,hdb.teamLinks,hdb.programmesHeld,rfl,hdb.jobs,hdb.rows⟩
  exact (insertJobs_lockstep hmid h).bind (fun last last' hlast => .pure ⟨hlast,rfl⟩)

end Uploads

/-! ## Spellings of keys and references -/

variable {texts : Texts} {limits : ImportLimits} {mode : ImportMode} {tables : Tables} {dependents : Dependents}
variable {effect : Dataset → Value → Value → Prop} {db db' : Db} {facts facts' : ApplyFacts} {jobId batchId : Uuid}
variable {rows others : List SourceRow}

/-! ## What a database is but for the texts of stored rows -/

def ImportRow.blanked (row : ImportRow) : ImportRow :=
  { row with
    naturalKey := .null
    payload := .null
    existingPayload := none
    errorMessage := none }

def Db.blanked (db : Db) : Db :=
  { db with rows := db.rows.mapRows ImportRow.blanked }

theorem SameDb.blanked (h : SameDb effect db db') : db.blanked = db'.blanked := by
  have hrows : db.rows.mapRows ImportRow.blanked = db'.rows.mapRows ImportRow.blanked := by
    have hmap : ∀ {rows rows' : List (RowKey × ImportRow)},
        List.Forall₂ (fun r r' => r.1 = r'.1 ∧ SameRow effect r.1 r.2 r'.2) rows rows' →
        rows.map (fun r => (r.1,r.2.blanked)) = rows'.map (fun r => (r.1,r.2.blanked)) := by
      intro rows rows' hrelated
      induction hrelated with
      | nil => rfl
      | cons hfirst _ ih =>
        obtain ⟨hkey,hsame⟩ := hfirst
        rw [List.map_cons,List.map_cons,ih,hkey,ImportRow.blanked,ImportRow.blanked,hsame.action,hsame.status,
          hsame.errorCode]
    rw [Table.mapRows,Table.mapRows,Table.mk.injEq]
    exact hmap h.rows
  rw [Db.blanked,Db.blanked,hrows,h.now,h.tables,h.accounts,h.teamLinks,h.programmesHeld,h.batches,h.jobs]

/-! ## Validated rows -/

theorem decodeAll_congr {α β : Type} {f g : α → Option β} {xs : List α} (h : ∀ x ∈ xs, f x = g x) :
    decodeAll f xs = decodeAll g xs := by
  induction xs with
  | nil => rfl
  | cons x rest ih =>
    rw [decodeAll,decodeAll,h x List.mem_cons_self,ih (fun y hy => h y (List.mem_cons_of_mem x hy))]

theorem actionless (dataset : Dataset) :
    (∀ column ∈ dataset.spec.columns, column ≠ "__action") ∧ ∀ column ∈ dataset.spec.keys, column ≠ "__action" := by
  cases dataset <;> decide

theorem castRecord_acted (row : SourceRow) : castRecord texts row.dataset (acted tables mode row).payload =
    castRecord texts row.dataset row.payload := by
  refine decodeAll_congr fun column hcolumn => ?_
  simp only [acted,Value.get?_set_of_ne ((actionless row.dataset).1 column hcolumn)]

theorem updatedRecord_acted (row : SourceRow) (record : Record) :
    updatedRecord texts row.dataset record (acted tables mode row).payload =
      updatedRecord texts row.dataset record row.payload := by
  refine decodeAll_congr fun column hcolumn => ?_
  simp only [acted,Value.get?_set_of_ne ((actionless row.dataset).1 column hcolumn)]

theorem payloadKey_acted (row : SourceRow) : row.dataset.payloadKey (acted tables mode row).payload =
    row.dataset.payloadKey row.payload := by
  refine List.map_congr_left fun column hcolumn => ?_
  simp only [acted,Value.get?_set_of_ne ((actionless row.dataset).2 column hcolumn)]

def Applicable (tables : Tables) (dependents : Dependents) (mode : ImportMode) (rows : List SourceRow) : Prop :=
  (∀ index row, rows[index]? = some row → Accepted tables dependents mode rows index row) ∧ mode ≠ .validateOnly

/-- If the upload can be applied, the statements of the apply read the same from both. -/
def SameEffects (texts : Texts) (tables : Tables) (dependents : Dependents) (mode : ImportMode)
    (rows others : List SourceRow) : Prop :=
  Applicable tables dependents mode rows →
  ∀ (index : ℕ) (row other : SourceRow), rows[index]? = some row → others[index]? = some other →
    SameEffect texts mode row.dataset row.payload other.payload

theorem stored_alike (effect : Dataset → Value → Value → Prop) (paired : Paired texts rows others)
    (alike : Alike tables dependents mode rows others)
    (heffect : ∀ (index : ℕ) (row other : SourceRow), rows[index]? = some row → others[index]? = some other →
      effect row.dataset (acted tables mode row).payload (acted tables mode other).payload) :
    List.Forall₂ (SameStored effect) (validateRows tables dependents mode rows)
      (validateRows tables dependents mode others) := by
  obtain ⟨hraw,hraw'⟩ := paired.raw
  have hlength : (validateRows tables dependents mode rows).length =
      (validateRows tables dependents mode others).length := by
    rw [validateRows_length,validateRows_length,paired.length]
  refine List.forall₂_iff_get.mpr ⟨hlength,fun index hlt hlt' => ?_⟩
  obtain ⟨row,hrow⟩ : ∃ row, rows[index]? = some row :=
    ⟨_,List.getElem?_eq_getElem (validateRows_length tables dependents mode rows ▸ hlt)⟩
  obtain ⟨other,hother,h⟩ := paired.other_of hrow
  obtain ⟨out,hout,hplace,hcode,hkept⟩ := verdict_get hraw tables dependents mode hrow
  obtain ⟨out',hout',hplace',hcode',hkept'⟩ := verdict_get hraw' tables dependents mode hother
  have hget : (validateRows tables dependents mode rows).get ⟨index,hlt⟩ = out := by
    rw [List.getElem?_eq_getElem hlt,Option.some.injEq] at hout
    exact hout
  have hget' : (validateRows tables dependents mode others).get ⟨index,hlt'⟩ = out' := by
    rw [List.getElem?_eq_getElem hlt',Option.some.injEq] at hout'
    exact hout'
  rw [hget,hget']
  have hruling := alike.ruling_eq paired hrow hother
  have haccepted : out.error = none → Accepted tables dependents mode rows index row := by
    intro hnone
    refine ruling_none.mp ?_
    rw [← hcode,errorCode,hnone]
    rfl
  refine ⟨(hplace.trans h.place).trans ⟨hplace'.upload.symm,hplace'.dataset.symm,hplace'.number.symm⟩,
    by rw [hcode,hcode',hruling],fun hnone => ?_,fun hnone => ?_⟩
  · have haccept := haccepted hnone
    have haccept' := (alike.accepted_iff paired hrow hother).mp haccept
    rw [hkept haccept,hkept' haccept',actionFor_acted h.raw,actionFor_acted h.otherRaw,
      alike.found index row other hrow hother haccept.offered.passes (.inr haccept.referred)]
  · have haccept := haccepted hnone
    have haccept' := (alike.accepted_iff paired hrow hother).mp haccept
    rw [hkept haccept,hkept' haccept']
    exact heffect index row other hrow hother

theorem errorCount_ne_zero (raw : ∀ row ∈ rows, Raw row) {index : ℕ} {row : SourceRow} (hrow : rows[index]? = some row)
    (hrefused : ¬Accepted tables dependents mode rows index row) :
    errorCount (validateRows tables dependents mode rows) ≠ 0 := by
  obtain ⟨out,hout,-,hcode,-⟩ := verdict_get raw tables dependents mode hrow
  obtain ⟨code,hruling⟩ := Option.ne_none_iff_exists'.mp (fun hnone => hrefused (ruling_none.mp hnone))
  rw [hruling] at hcode
  have hpos : 0 < errorCount (validateRows tables dependents mode rows) :=
    List.countP_pos_iff.mpr ⟨out,List.mem_of_getElem? hout,isSome_of_code hcode⟩
  omega

/-! ## The same database -/

def applyUpload (texts : Texts) (tables : Tables) (dependents : Dependents) (mode : ImportMode) (jobId : Uuid)
    (rows : List SourceRow) (db : Db) (facts : ApplyFacts) : Except InstitutionError (Db × Unit) := do
  let stored ← validateUpload jobId mode (validateRows tables dependents mode rows) db
  applyImport texts stored.2 facts stored.1

def applyFiles (texts : Texts) (tables : Tables) (dependents : Dependents) (operation : InstitutionOperation)
    (batchId : Uuid) (jobIds : List Uuid) (rows : List SourceRow) (db : Db) (facts : ApplyFacts) :
    Except InstitutionError (Db × Unit) := do
  let stored ← validateBatch batchId operation jobIds (validateRows tables dependents operation.mode rows) db
  applyBatch texts stored.2 facts stored.1

/-- Every outcome of one run is one of the other: an error, or a database but for the texts of stored rows. -/
def SameOutcomes (run run' : ApplyFacts → Except InstitutionError (Db × Unit)) : Prop :=
  (∀ facts, ∃ facts', facts'.settle = facts.settle ∧
    (run facts).map (fun r => r.1.blanked) = (run' facts').map (fun r => r.1.blanked)) ∧
  ∀ facts', ∃ facts, facts.settle = facts'.settle ∧
    (run facts).map (fun r => r.1.blanked) = (run' facts').map (fun r => r.1.blanked)

theorem sameOutcomes_of_visits (effect : Dataset → Value → Value → Prop)
    {run run' : ApplyFacts → Except InstitutionError (Db × Unit)}
    {payloads others : Dataset → List Value}
    (hpayloads : ∀ dataset, List.Forall₂ (SameEffect texts mode dataset) (payloads dataset) (others dataset))
    (h : ∀ facts facts' : ApplyFacts, facts'.settle = facts.settle →
      (∀ dataset, List.Forall₂ (SameEffect texts mode dataset) (facts.visits dataset (payloads dataset))
        (facts'.visits dataset (others dataset))) →
      Lockstep (fun r r' => SameDb effect r.1 r'.1) (run facts) (run' facts')) : SameOutcomes run run' := by
  constructor
  · intro facts
    obtain ⟨facts',hsettle,hvisits⟩ := exists_visits hpayloads facts
    exact ⟨facts',hsettle,(h facts facts' hsettle hvisits).map_eq (fun r r' hsame => hsame.blanked)⟩
  · intro facts'
    have hflip : ∀ dataset, List.Forall₂ (flip (SameEffect texts mode dataset)) (others dataset) (payloads dataset) :=
      fun dataset => (hpayloads dataset).flip
    obtain ⟨facts,hsettle,hvisits⟩ := exists_visits hflip facts'
    exact ⟨facts,hsettle,(h facts facts' hsettle.symm (fun dataset => (hvisits dataset).flip)).map_eq
      (fun r r' hsame => hsame.blanked)⟩

theorem sameOutcomes_bind {store store' : Except InstitutionError (Db × Uuid)}
    {next : Db × Uuid → ApplyFacts → Except InstitutionError (Db × Unit)}
    (hstore : Lockstep (fun r r' => SameDb effect r.1 r'.1 ∧ r.2 = r'.2) store store')
    (hnext : ∀ r r', store = .ok r → SameDb effect r.1 r'.1 → r.2 = r'.2 → SameOutcomes (next r) (next r')) :
    SameOutcomes (fun facts => store >>= fun r => next r facts) (fun facts => store' >>= fun r => next r facts) := by
  cases hstore with
  | fails e => exact ⟨fun facts => ⟨facts,rfl,rfl⟩,fun facts => ⟨facts,rfl,rfl⟩⟩
  | ends h => exact hnext _ _ rfl h.1 h.2

theorem sameDb_refl (effect : Dataset → Value → Value → Prop)
    (hrefl : ∀ dataset payload, effect dataset payload payload) (db : Db) : SameDb effect db db :=
  ⟨rfl,rfl,rfl,rfl,rfl,rfl,rfl,
    Table.related_self (fun _ row => ⟨rfl,rfl,rfl,fun _ => hrefl _ row.payload⟩) db.rows⟩

structure SameApplies (texts : Texts) (tables : Tables) (dependents : Dependents) (mode : ImportMode)
    (rows others : List SourceRow) : Prop where
  upload : ∀ jobId db, SameOutcomes (applyUpload texts tables dependents mode jobId rows db)
    (applyUpload texts tables dependents mode jobId others db)
  batch : ∀ operation batchId jobIds db, operation.mode = mode →
    SameOutcomes (applyFiles texts tables dependents operation batchId jobIds rows db)
      (applyFiles texts tables dependents operation batchId jobIds others db)

theorem sameEffect_acted {row other : SourceRow} (hdataset : row.dataset = other.dataset)
    (h : SameEffect texts mode row.dataset row.payload other.payload) :
    SameEffect texts mode row.dataset (acted tables mode row).payload (acted tables mode other).payload := by
  refine ⟨fun hupdate hdelete => ?_,fun hupdate record => ?_,fun hmode => ?_⟩
  · rw [castRecord_acted,hdataset,castRecord_acted,← hdataset]
    exact h.record hupdate hdelete
  · rw [updatedRecord_acted,hdataset,updatedRecord_acted,← hdataset]
    exact h.update hupdate record
  · rw [payloadKey_acted,hdataset,payloadKey_acted,← hdataset]
    exact h.key hmode

theorem stored_job {rows : List SourceRow} {r : Db × Uuid} (h : validateUpload jobId mode rows db = .ok r) :
    r.2 = jobId ∧ ∀ job, r.1.jobs.get? jobId = some job →
      job.mode = mode ∧ (errorCount rows ≠ 0 → job.status = .failed) := by
  simp only [validateUpload,bind_ok,pure_ok] at h
  obtain ⟨mid,hmid,rfl⟩ := h
  refine ⟨rfl,fun job hjob => ?_⟩
  rw [(insertJob_ok hmid).2.2.1,if_pos rfl,Option.some.injEq] at hjob
  subst hjob
  exact ⟨rfl,fun herrors => if_neg herrors⟩

theorem stored_batch {operation : InstitutionOperation} {jobIds : List Uuid} {rows : List SourceRow} {r : Db × Uuid}
    (h : validateBatch batchId operation jobIds rows db = .ok r) : r.2 = batchId ∧
      ∀ batch, r.1.batches.get? batchId = some batch →
        batch.operation = operation ∧ (errorCount rows ≠ 0 → batch.status = .failed) := by
  simp only [validateBatch,bind_ok,require_ok,pure_ok] at h
  obtain ⟨-,-,-,-,batches,hbatches,last,hlast,rfl⟩ := h
  obtain ⟨mid,-,rfl⟩ := insertJobs_batches hlast
  refine ⟨rfl,fun batch hbatch => ?_⟩
  rw [Table.get?_insert? hbatches,if_pos rfl,Option.some.injEq] at hbatch
  subst hbatch
  exact ⟨rfl,fun herrors => if_neg herrors⟩

theorem lastOrder_apart (mode : ImportMode) : ∀ dataset ∈ mode.lastOrder, dataset ∉ mode.firstOrder := by
  cases mode <;> decide

section Outcomes
variable (paired : Paired texts rows others) (alike : Alike tables dependents mode rows others)
include paired alike

theorem applies_live (heffects : SameEffects texts tables dependents mode rows others)
    (applicable : Applicable tables dependents mode rows) : SameApplies texts tables dependents mode rows others := by
  have hstored := stored_alike (SameEffect texts mode) paired alike (fun index row other hrow hother =>
    sameEffect_acted (paired.row index row other hrow hother).place.dataset
      (heffects applicable index row other hrow hother))
  have hself := sameDb_refl (SameEffect texts mode) (fun dataset payload =>
    sameEffect_refl texts mode dataset payload)
  refine ⟨fun jobId db => ?_,fun operation batchId jobIds db hmode => ?_⟩
  · refine sameOutcomes_bind (validateUpload_lockstep (hself db) hstored) (fun r r' hr hsame hid => ?_)
    obtain ⟨hjobId,hjob⟩ := stored_job hr
    rw [← hid,hjobId]
    refine sameOutcomes_of_visits (SameEffect texts mode) (payloadsOf_related hsame (choice_ofJob _ jobId)) ?_
    intro facts facts' hsettle hvisits
    exact applyImport_lockstep hsame (fun job h => (hjob job h).1) hsettle hvisits
  · subst hmode
    refine sameOutcomes_bind (validateBatch_lockstep (hself db) hstored) (fun r r' hr hsame hid => ?_)
    obtain ⟨hbatchId,hbatch⟩ := stored_batch hr
    rw [← hid,hbatchId]
    have choice := choice_ofBatch (SameEffect texts operation.mode) r.1 batchId
    have hpayloads : ∀ dataset, List.Forall₂ (SameEffect texts operation.mode dataset)
        (if dataset ∈ operation.mode.firstOrder then r.1.payloadsOf (changed r.1 batchId) dataset
          else r.1.payloadsOf (written r.1 batchId) dataset)
        (if dataset ∈ operation.mode.firstOrder then r'.1.payloadsOf (changed r.1 batchId) dataset
          else r'.1.payloadsOf (written r.1 batchId) dataset) := by
      intro dataset
      split
      · exact payloadsOf_related hsame (choice.taking RowAction.changes) dataset
      · exact payloadsOf_related hsame (choice.taking RowAction.writes) dataset
    refine sameOutcomes_of_visits (SameEffect texts operation.mode) hpayloads (fun facts facts' hsettle hvisits =>
      applyBatch_lockstep hsame (fun batch h => congrArg _ (hbatch batch h).1) hsettle ?_ ?_)
    · intro dataset hdataset
      have hvisit := hvisits dataset
      rwa [if_pos hdataset,if_pos hdataset] at hvisit
    · intro dataset hdataset
      have hvisit := hvisits dataset
      have hnot := lastOrder_apart operation.mode dataset hdataset
      rwa [if_neg hnot,if_neg hnot] at hvisit

theorem applies_refused (hrefused : ¬Applicable tables dependents mode rows) :
    SameApplies texts tables dependents mode rows others := by
  have hstored := stored_alike (fun _ _ _ => True) paired alike (fun _ _ _ _ _ => trivial)
  have hself := sameDb_refl (fun _ _ _ => True) (fun _ _ => trivial)
  have herrors : mode = .validateOnly ∨ errorCount (validateRows tables dependents mode rows) ≠ 0 := by
    by_cases hmode : mode = .validateOnly
    · exact .inl hmode
    · right
      by_contra hzero
      refine hrefused ⟨fun index row hrow => ?_,hmode⟩
      by_contra hnot
      exact errorCount_ne_zero paired.raw.1 hrow hnot hzero
  have hnil : ∀ dataset : Dataset, List.Forall₂ (SameEffect texts mode dataset) [] [] := fun _ => .nil
  refine ⟨fun jobId db => ?_,fun operation batchId jobIds db hmode => ?_⟩
  · refine sameOutcomes_bind (validateUpload_lockstep (hself db) hstored) (fun r r' hr hsame hid => ?_)
    obtain ⟨hjobId,hjob⟩ := stored_job hr
    rw [← hid,hjobId]
    exact sameOutcomes_of_visits (fun _ _ _ => True) hnil (fun facts facts' _ _ =>
      applyImport_refused hsame.jobs (fun job h => herrors.imp (fun hmode => (hjob job h).1.trans hmode) (hjob job h).2))
  · subst hmode
    have herror := herrors.resolve_left (by cases operation <;> decide)
    refine sameOutcomes_bind (validateBatch_lockstep (hself db) hstored) (fun r r' hr hsame hid => ?_)
    obtain ⟨hbatchId,hbatch⟩ := stored_batch hr
    rw [← hid,hbatchId]
    exact sameOutcomes_of_visits (fun _ _ _ => True) hnil (fun facts facts' _ _ =>
      applyBatch_refused hsame.batches (fun batch h => (hbatch batch h).2 herror))

end Outcomes

/-- Two spellings of an upload get the same verdicts exactly if their texts compare alike; and if the
statements of an apply also read the same from them, they leave the same database. -/
theorem spellings_agree_iff (texts : Texts) (limits : ImportLimits) (mode : ImportMode) (tables : Tables)
    (dependents : Dependents) (twins : List (Twin texts limits mode)) :
    (SameVerdicts tables dependents mode (twins.map (·.row)) (twins.map (·.otherRow)) ↔
      Alike tables dependents mode (twins.map (·.row)) (twins.map (·.otherRow))) ∧
    (Alike tables dependents mode (twins.map (·.row)) (twins.map (·.otherRow)) →
      SameEffects texts tables dependents mode (twins.map (·.row)) (twins.map (·.otherRow)) →
      SameApplies texts tables dependents mode (twins.map (·.row)) (twins.map (·.otherRow))) := by
  have paired := twins_paired twins
  refine ⟨sameVerdicts_iff paired,fun alike heffects => ?_⟩
  by_cases applicable : Applicable tables dependents mode (twins.map (·.row))
  · exact applies_live paired alike heffects applicable
  · exact applies_refused paired alike applicable

/-! ## A department in upper case -/

def lowerCase : String := uuidText 10

def upperCase : String := "00000000-0000-0000-0000-00000000000A"

def readUuid (text : String) : Option Uuid := if text = lowerCase ∨ text = upperCase then some 10 else none

def readInt (text : String) : Option ℤ := if text = "3" ∨ text = "03" then some 3 else none

def spelledTexts : Texts := ⟨readUuid,readUuid,readInt,readInt⟩

/-- A database with a department and a member of it. -/
def departmentTables : Tables
  | .departments => oneRecord [lowerCase] [("department_id",.str lowerCase)]
  | .faculty => oneRecord ["F1"] [("faculty_id",.str "F1"),("dept_id",.str lowerCase)]
  | _ => Table.empty

def facultyLine (department : String) : Line := ⟨.faculty,["faculty_id","dept_id"],["F2",department],none⟩

def facultyRow (department : String) : SourceRow where
  uploadIndex := 0
  dataset := .faculty
  rowNumber := 2
  naturalKey := .obj [("faculty_id",.str "F2")]
  payload := .obj [("faculty_id",.str "F2"),("dept_id",.str department)]
  existingPayload := none
  error := none

def facultyTwin : Twin spelledTexts .default .addOnly where
  rowNumber := 2
  uploadIndex := 0
  line := facultyLine lowerCase
  other := facultyLine upperCase
  row := facultyRow lowerCase
  otherRow := facultyRow upperCase
  respelled := by
    refine ⟨rfl,rfl,rfl,.cons ⟨rfl,.inl rfl⟩ (.cons ⟨rfl,.inr ?_⟩ .nil)⟩
    exact ⟨by decide,by decide,.inl ⟨by decide,10,by decide,by decide⟩⟩
  valid := by rfl
  read := by rfl
  otherRead := by rfl

/-- The department of the database is not found under its name in upper case. -/
theorem upper_case_missing : ¬SameVerdicts departmentTables noDependents .addOnly
    ([facultyTwin].map (·.row)) ([facultyTwin].map (·.otherRow)) := by
  intro h
  have hcodes := (h 0 _ _ rfl rfl).1
  revert hcodes
  decide

def capacityLine (projects : String) : Line :=
  ⟨.facultyGuideCapacity,["capacity_id","faculty_id","ug_max_projects"],[lowerCase,"F1",projects],none⟩

def capacityRow (projects : String) : SourceRow where
  uploadIndex := 0
  dataset := .facultyGuideCapacity
  rowNumber := 2
  naturalKey := .obj [("capacity_id",.str lowerCase)]
  payload := .obj [("capacity_id",.str lowerCase),("faculty_id",.str "F1"),("ug_max_projects",.str projects)]
  existingPayload := none
  error := none

def capacityTwin : Twin spelledTexts .default .addOnly where
  rowNumber := 2
  uploadIndex := 0
  line := capacityLine "3"
  other := capacityLine "03"
  row := capacityRow "3"
  otherRow := capacityRow "03"
  respelled := by
    refine ⟨rfl,rfl,rfl,.cons ⟨rfl,.inl rfl⟩ (.cons ⟨rfl,.inl rfl⟩ (.cons ⟨rfl,.inr ?_⟩ .nil))⟩
    exact ⟨by decide,by decide,.inr ⟨by decide,3,by decide,by decide⟩⟩
  valid := by rfl
  read := by rfl
  otherRead := by rfl

theorem at_zero {α : Type} {x y : α} {index : ℕ} (h : [x][index]? = some y) : index = 0 ∧ x = y := by
  cases index with
  | zero => exact ⟨rfl,by simpa using h⟩
  | succ index => simp at h

theorem capacity_verdicts : SameVerdicts departmentTables noDependents .addOnly ([capacityTwin].map (·.row))
    ([capacityTwin].map (·.otherRow)) := by
  intro index row other hrow hother
  have hlt := (List.getElem?_eq_some_iff.mp hrow).1
  rw [validateRows_length] at hlt
  obtain rfl : index = 0 := by simpa using hlt
  obtain rfl := Option.some.inj hrow
  obtain rfl := Option.some.inj hother
  decide

theorem capacity_effects : SameEffects spelledTexts departmentTables noDependents .addOnly
    ([capacityTwin].map (·.row)) ([capacityTwin].map (·.otherRow)) := by
  intro _ index row other hrow hother
  obtain ⟨rfl,rfl⟩ := at_zero hrow
  obtain ⟨-,rfl⟩ := at_zero hother
  exact ⟨fun _ _ => by rfl,nofun,fun h => absurd h (by decide)⟩

/-- A capacity with a leading zero is applied as the one without. -/
theorem leading_zero_applied : SameApplies spelledTexts departmentTables noDependents .addOnly
    ([capacityTwin].map (·.row)) ([capacityTwin].map (·.otherRow)) := by
  obtain ⟨hverdicts,happlies⟩ := spellings_agree_iff spelledTexts .default .addOnly departmentTables noDependents
    [capacityTwin]
  exact happlies (hverdicts.mp capacity_verdicts) capacity_effects

end LatexCore.Imports
