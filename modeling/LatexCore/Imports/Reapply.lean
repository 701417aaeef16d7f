import LatexCore.Foundation.Lockstep
import LatexCore.Imports.Alike
import LatexCore.Imports.Requests

/-! # Applies of two spellings

An insertion reads a record from the cells of a row, an update sets the cells that are
there, and an update or a deletion finds its record by the text of the key. Two databases
that differ in rows of jobs from which the statements read the same take an apply in
lockstep: it fails with the same error in both or leaves them the same but for the texts
of these rows.
-/
namespace LatexCore.Imports
open Core Foundation
open Institution (InstitutionError)

variable {texts : Texts} {mode : ImportMode} {dataset : Dataset} {payload other : Value}

/-- A statement of the mode reads the same from both payloads. -/
structure SameEffect (texts : Texts) (mode : ImportMode) (dataset : Dataset) (payload other : Value) : Prop where
  record : mode ≠ .updateOnly → mode ≠ .deleteOnly →
    castRecord texts dataset payload = castRecord texts dataset other
  update : mode = .updateOnly → ∀ record : Record,
    updatedRecord texts dataset record payload = updatedRecord texts dataset record other
  key : mode = .updateOnly ∨ mode = .deleteOnly → dataset.payloadKey payload = dataset.payloadKey other

theorem sameEffect_refl (texts : Texts) (mode : ImportMode) (dataset : Dataset) (payload : Value) :
    SameEffect texts mode dataset payload payload := ⟨fun _ _ => rfl,fun _ _ => rfl,fun _ => rfl⟩

/-! ## Statements -/

variable {payloads others : List Value}

theorem applyQuery_eq (hinsert : mode ≠ .updateOnly) (hdelete : mode ≠ .deleteOnly)
    (h : List.Forall₂ (SameEffect texts mode dataset) payloads others) (merge : Bool) (tables : Tables) :
    applyQuery texts dataset merge payloads tables = applyQuery texts dataset merge others tables := by
  have hmerge : ∀ (s : Tables × List RecordKey) (payload other : Value), SameEffect texts mode dataset payload other →
      mergeRecord texts dataset s.1 s.2 payload = mergeRecord texts dataset s.1 s.2 other := by
    intro s payload other heffect
    rw [mergeRecord,mergeRecord,heffect.record hinsert hdelete]
  have hplain : ∀ (s : Tables) (payload other : Value), SameEffect texts mode dataset payload other →
      insertRecord texts dataset s payload = insertRecord texts dataset s other := by
    intro s payload other heffect
    rw [insertRecord,insertRecord,heffect.record hinsert hdelete]
  rw [applyQuery,applyQuery]
  split
  · rw [foldlM_related h hmerge]
  · rw [foldlM_related h hplain]

theorem updateRecord_eq (heffect : SameEffect texts .updateOnly dataset payload other) (tables : Tables) :
    updateRecord texts dataset tables payload = updateRecord texts dataset tables other := by
  rw [updateRecord,updateRecord,heffect.key (.inl rfl)]
  split
  · rfl
  · next old _ => rw [heffect.update rfl old]

theorem payloadKeys_eq (h : List.Forall₂ (SameEffect texts .deleteOnly dataset) payloads others) :
    payloads.map dataset.payloadKey = others.map dataset.payloadKey := by
  induction h with
  | nil => rfl
  | cons hfirst _ ih => rw [List.map_cons,List.map_cons,hfirst.key (.inr rfl),ih]

/-! ## Databases -/

/-- The rows differ in texts only, and valid ones in such as the relation allows. -/
structure SameRow (effect : Dataset → Value → Value → Prop) (key : RowKey) (row other : ImportRow) : Prop where
  action : row.action = other.action
  status : row.status = other.status
  errorCode : row.errorCode = other.errorCode
  effect : row.status = .valid → effect key.2.1 row.payload other.payload

structure SameDb (effect : Dataset → Value → Value → Prop) (db db' : Db) : Prop where
  now : db.now = db'.now
  tables : db.tables = db'.tables
  accounts : db.accounts = db'.accounts
  teamLinks : db.teamLinks = db'.teamLinks
  programmesHeld : db.programmesHeld = db'.programmesHeld
  batches : db.batches = db'.batches
  jobs : db.jobs = db'.jobs
  rows : Table.Related (SameRow effect) db.rows db'.rows

variable {effect : Dataset → Value → Value → Prop} {db db' : Db} {facts facts' : ApplyFacts}

theorem SameDb.setTables (h : SameDb effect db db') (tables : Tables) :
    SameDb effect { db with tables := tables } { db' with tables := tables } :=
  ⟨h.now,rfl,h.accounts,h.teamLinks,h.programmesHeld,h.batches,h.jobs,h.rows⟩

theorem SameDb.setAccounts (h : SameDb effect db db') (accounts : Accounts) :
    SameDb effect { db with accounts := accounts } { db' with accounts := accounts } :=
  ⟨h.now,h.tables,rfl,h.teamLinks,h.programmesHeld,h.batches,h.jobs,h.rows⟩

theorem SameDb.holds (h : SameDb effect db db') : db.holds = db'.holds := by
  funext dataset key
  simp only [Db.holds,h.teamLinks,h.programmesHeld]

theorem applyTable_lockstep (h : SameDb effect db db')
    (hpayloads : List.Forall₂ (SameEffect texts mode dataset) payloads others)
    (hvisits : mode = .updateOnly →
      List.Forall₂ (SameEffect texts mode dataset) (facts.visits dataset payloads) (facts'.visits dataset others)) :
    Lockstep (SameDb effect) (applyTable texts mode facts dataset payloads db)
      (applyTable texts mode facts' dataset others db') := by
  cases mode with
  | validateOnly =>
    rw [applyTable,applyTable,← h.tables,applyQuery_eq (by decide) (by decide) hpayloads]
    exact .share _ (fun tables _ => .pure (h.setTables tables))
  | merge =>
    rw [applyTable,applyTable,← h.tables,applyQuery_eq (by decide) (by decide) hpayloads]
    exact .share _ (fun tables _ => .pure (h.setTables tables))
  | addOnly =>
    rw [applyTable,applyTable,← h.tables,applyQuery_eq (by decide) (by decide) hpayloads]
    exact .share _ (fun tables _ => .pure (h.setTables tables))
  | updateOnly =>
    have hquery : updateQuery texts dataset (facts.visits dataset payloads) db.tables =
        updateQuery texts dataset (facts'.visits dataset others) db.tables :=
      foldlM_related (hvisits rfl) (fun s _ _ heffect => updateRecord_eq heffect s) db.tables
    rw [applyTable,applyTable,← h.tables,hquery]
    exact .share _ (fun tables _ => .pure (h.setTables tables))
  | deleteOnly =>
    have hkeys := payloadKeys_eq hpayloads
    have hquery : deleteQuery dataset (db.holds dataset) payloads db.tables =
        deleteQuery dataset (db'.holds dataset) others db.tables := by
      rw [deleteQuery,deleteQuery,hkeys,h.holds]
    have hlinks : deleteLinks dataset payloads db.accounts = deleteLinks dataset others db.accounts := by
      rw [deleteLinks,deleteLinks]
      split
      · rfl
      · rw [hkeys]
    rw [applyTable,applyTable,← h.tables,hquery,← h.accounts,hlinks]
    exact .share _ (fun tables _ => .pure ((h.setTables tables).setAccounts _))

/-! ## The chosen rows -/

def Db.payloadsOf (db : Db) (chosen : RowKey → ImportRow → Bool) (dataset : Dataset) : List Value :=
  (db.chosenRows chosen dataset).map (fun r => r.2.payload)

structure Choice (effect : Dataset → Value → Value → Prop) (chosen : RowKey → ImportRow → Bool) : Prop where
  valid : ∀ key row, chosen key row = true → row.status = .valid
  alike : ∀ key row other, SameRow effect key row other → chosen key row = chosen key other

variable {chosen assigned : RowKey → ImportRow → Bool}

theorem payloadsOf_related (h : SameDb effect db db') (choice : Choice effect chosen) (dataset : Dataset) :
    List.Forall₂ (effect dataset) (db.payloadsOf chosen dataset) (db'.payloadsOf chosen dataset) := by
  have hfilter : List.Forall₂ (fun r r' : RowKey × ImportRow => r.1 = r'.1 ∧ SameRow effect r.1 r.2 r'.2)
      (db.rows.rows.filter (fun r => r.1.2.1 == dataset && chosen r.1 r.2))
      (db'.rows.rows.filter (fun r => r.1.2.1 == dataset && chosen r.1 r.2)) := by
    refine List.rel_filter (fun r r' hr => ?_) h.rows
    dsimp only
    rw [choice.alike _ _ _ hr.2,hr.1]
  have hrows : List.Forall₂ (fun r r' : RowKey × ImportRow => r.1 = r'.1 ∧ SameRow effect r.1 r.2 r'.2)
      (db.chosenRows chosen dataset) (db'.chosenRows chosen dataset) := by
    refine forall₂_mergeSort hfilter (fun r s r' s' hr hs => ?_)
    rw [hr.1,hs.1]
  have hchosen : ∀ r ∈ db.chosenRows chosen dataset, r.1.2.1 = dataset ∧ r.2.status = .valid := by
    intro r hr
    rw [Db.chosenRows,List.mem_mergeSort,List.mem_filter,Bool.and_eq_true,beq_iff_eq] at hr
    exact ⟨hr.2.1,choice.valid _ _ hr.2.2⟩
  refine List.forall₂_map_left_iff.mpr (List.forall₂_map_right_iff.mpr ?_)
  refine ((List.forall₂_and_left _ _).mpr ⟨hchosen,hrows⟩).imp fun r r' hr => ?_
  obtain ⟨⟨hdataset,hvalid⟩,-,hsame⟩ := hr
  exact hdataset ▸ hsame.effect hvalid

/-! ## Applies -/

def SameVisits (texts : Texts) (mode : ImportMode) (facts facts' : ApplyFacts) (order : List Dataset)
    (chosen : RowKey → ImportRow → Bool) (db db' : Db) : Prop :=
  ∀ dataset ∈ order, List.Forall₂ (SameEffect texts mode dataset)
    (facts.visits dataset (db.payloadsOf chosen dataset)) (facts'.visits dataset (db'.payloadsOf chosen dataset))

theorem payloadsOf_rows {mid : Db} (hrows : mid.rows = db.rows) (chosen : RowKey → ImportRow → Bool)
    (dataset : Dataset) : mid.payloadsOf chosen dataset = db.payloadsOf chosen dataset := by
  rw [Db.payloadsOf,Db.chosenRows,hrows,Db.payloadsOf,Db.chosenRows]

theorem applyTables_lockstep {order : List Dataset} (h : SameDb (SameEffect texts mode) db db')
    (choice : Choice (SameEffect texts mode) chosen)
    (hvisits : SameVisits texts mode facts facts' order chosen db db') :
    Lockstep (SameDb (SameEffect texts mode)) (applyTables texts mode facts chosen order db)
      (applyTables texts mode facts' chosen order db') := by
  induction order generalizing db db' with
  | nil => exact .ends h
  | cons dataset rest ih =>
    have hpayloads := payloadsOf_related h choice dataset
    have hempty : (db.payloadsOf chosen dataset).isEmpty = (db'.payloadsOf chosen dataset).isEmpty := by
      rw [Bool.eq_iff_iff,List.isEmpty_iff_length_eq_zero,List.isEmpty_iff_length_eq_zero,hpayloads.length_eq]
    have hstep : Lockstep (SameDb (SameEffect texts mode))
        (if (db.payloadsOf chosen dataset).isEmpty then .ok db
          else applyTable texts mode facts dataset (db.payloadsOf chosen dataset) db)
        (if (db'.payloadsOf chosen dataset).isEmpty then .ok db'
          else applyTable texts mode facts' dataset (db'.payloadsOf chosen dataset) db') := by
      rw [hempty]
      split
      · exact .ends h
      · exact applyTable_lockstep h hpayloads (fun _ => hvisits dataset List.mem_cons_self)
    rw [applyTables,applyTables,List.foldlM_cons,List.foldlM_cons]
    refine (hstep.strengthen (fun mid mid' hmid hmid' hsame =>
      (⟨hsame,?_,?_⟩ : SameDb (SameEffect texts mode) mid mid' ∧ mid.rows = db.rows ∧ mid'.rows = db'.rows))).bind
      (fun mid mid' hmid => ih hmid.1 ?_)
    · split at hmid
      · obtain rfl := Except.ok.inj hmid
        rfl
      · exact (applyTable_keeps hmid).rows
    · split at hmid'
      · obtain rfl := Except.ok.inj hmid'
        rfl
      · exact (applyTable_keeps hmid').rows
    · intro other hother
      rw [payloadsOf_rows hmid.2.1,payloadsOf_rows hmid.2.2]
      exact hvisits other (List.mem_cons_of_mem dataset hother)

theorem applyRows_lockstep (h : SameDb (SameEffect texts mode) db db')
    (choice : Choice (SameEffect texts mode) chosen) (choice' : Choice (SameEffect texts mode) assigned)
    (hsettle : facts'.settle = facts.settle)
    (hfirst : SameVisits texts mode facts facts' mode.firstOrder chosen db db')
    (hlast : SameVisits texts mode facts facts' mode.lastOrder assigned db db') :
    Lockstep (SameDb (SameEffect texts mode)) (applyRows texts mode facts chosen assigned db)
      (applyRows texts mode facts' chosen assigned db') := by
  rw [applyRows,applyRows,hsettle]
  refine ((applyTables_lockstep h choice hfirst).strengthen (fun mid mid' hmid hmid' hsame =>
    (⟨hsame,(applyTables_keeps hmid).rows,(applyTables_keeps hmid').rows⟩ :
      SameDb (SameEffect texts mode) mid mid' ∧ mid.rows = db.rows ∧ mid'.rows = db'.rows))).bind ?_
  rintro mid mid' ⟨hsame,hrows,hrows'⟩
  have haccounts : facts.settle mid.tables mid.accounts = facts.settle mid'.tables mid'.accounts := by
    rw [hsame.tables,hsame.accounts]
  rw [haccounts]
  refine .share _ (fun accounts _ => applyTables_lockstep (hsame.setAccounts accounts) choice' ?_)
  intro dataset hdataset
  have hmid : { mid with accounts := accounts }.rows = db.rows := hrows
  have hmid' : { mid' with accounts := accounts }.rows = db'.rows := hrows'
  rw [payloadsOf_rows hmid,payloadsOf_rows hmid']
  exact hlast dataset hdataset

/-! ## Jobs and batches -/

variable {jobId batchId : Uuid}

theorem related_settled (h : SameDb effect db db') {chosen : RowKey → ImportRow → Bool}
    (choice : Choice effect chosen) : Table.Related (SameRow effect) (db.rows.updateWhere chosen ImportRow.settled)
      (db'.rows.updateWhere chosen ImportRow.settled) := by
  refine h.rows.updateWhere (fun key row other hsame => choice.alike key row other hsame) ?_
  intro key row other hsame
  refine ⟨hsame.action,?_,hsame.errorCode,?_⟩
  · rw [ImportRow.settled,ImportRow.settled,hsame.action]
  · intro hvalid
    rw [ImportRow.settled] at hvalid
    split at hvalid
    · cases hvalid
    · cases hvalid

theorem rowsWith_eq (h : SameDb effect db db') : db.rowsWith = db'.rowsWith := by
  funext jobId action
  exact h.rows.count (fun key row other hsame => by rw [hsame.action])

theorem choice_ofJob (effect : Dataset → Value → Value → Prop) (jobId : Uuid) : Choice effect (ofJob jobId) := by
  refine ⟨fun key row hchosen => ?_,fun key row other hsame => ?_⟩
  · rw [ofJob,Bool.and_eq_true,beq_iff_eq,beq_iff_eq] at hchosen
    exact hchosen.2
  · rw [ofJob,ofJob,hsame.status]

theorem choice_ofBatch (effect : Dataset → Value → Value → Prop) (db : Db) (batchId : Uuid) :
    Choice effect (ofBatch db batchId) := by
  refine ⟨fun key row hchosen => ?_,fun key row other hsame => ?_⟩
  · rw [ofBatch,Bool.and_eq_true,beq_iff_eq] at hchosen
    exact hchosen.2
  · rw [ofBatch,ofBatch,hsame.status]

theorem Choice.taking {chosen : RowKey → ImportRow → Bool} (choice : Choice effect chosen)
    (taken : RowAction → Bool) : Choice effect (fun key row => chosen key row && taken row.action) := by
  refine ⟨fun key row hchosen => ?_,fun key row other hsame => ?_⟩
  · rw [Bool.and_eq_true] at hchosen
    exact choice.valid key row hchosen.1
  · rw [choice.alike key row other hsame,hsame.action]

theorem exists_visits {related : Dataset → Value → Value → Prop} {payloads others : Dataset → List Value}
    (h : ∀ dataset, List.Forall₂ (related dataset) (payloads dataset) (others dataset)) (facts : ApplyFacts) :
    ∃ facts' : ApplyFacts, facts'.settle = facts.settle ∧ ∀ dataset,
      List.Forall₂ (related dataset) (facts.visits dataset (payloads dataset))
        (facts'.visits dataset (others dataset)) := by
  classical
  have hlift : ∀ dataset, ∃ visited, List.Forall₂ (related dataset)
      (facts.visits dataset (payloads dataset)) visited ∧ visited.Perm (others dataset) := fun dataset =>
    List.perm_comp_forall₂ (facts.visited dataset (payloads dataset)) (h dataset)
  choose visited hrelated hperm using hlift
  refine ⟨⟨facts.settle,fun dataset given => if given = others dataset then visited dataset else given,?_⟩,rfl,?_⟩
  · intro dataset given
    split
    · next heq => exact heq ▸ hperm dataset
    · exact .refl _
  · intro dataset
    dsimp only
    rw [if_pos rfl]
    exact hrelated dataset

theorem applyImport_lockstep (h : SameDb (SameEffect texts mode) db db')
    (hmode : ∀ job, db.jobs.get? jobId = some job → job.mode = mode) (hsettle : facts'.settle = facts.settle)
    (hvisits : ∀ dataset, List.Forall₂ (SameEffect texts mode dataset)
      (facts.visits dataset (db.payloadsOf (ofJob jobId) dataset))
      (facts'.visits dataset (db'.payloadsOf (ofJob jobId) dataset))) :
    Lockstep (fun r r' => SameDb (SameEffect texts mode) r.1 r'.1) (applyImport texts jobId facts db)
      (applyImport texts jobId facts' db') := by
  have choice := choice_ofJob (SameEffect texts mode) jobId
  rw [applyImport,applyImport,← h.jobs]
  refine .share _ (fun job hjob => .share _ (fun _ _ => ?_))
  have hjobMode := hmode job (require_ok.mp hjob)
  rw [hjobMode]
  split
  · exact .pure h
  · refine .share _ (fun _ _ => ?_)
    refine (applyRows_lockstep h choice choice hsettle (fun dataset _ => hvisits dataset)
      (fun dataset _ => hvisits dataset)).bind (fun mid mid' hmid => .pure ?_)
    have happlied : ∀ job : ImportJob, job.applied mid jobId = job.applied mid' jobId := by
      intro job
      rw [ImportJob.applied,ImportJob.applied,rowsWith_eq hmid]
    refine ⟨hmid.now,hmid.tables,hmid.accounts,hmid.teamLinks,hmid.programmesHeld,hmid.batches,?_,
      related_settled hmid choice⟩
    dsimp only
    rw [hmid.jobs]
    simp only [happlied]

/-- The rows of a batch that the first statements of an apply take, and those that the last take. -/
def changed (db : Db) (batchId : Uuid) (key : RowKey) (row : ImportRow) : Bool :=
  ofBatch db batchId key row && row.action.changes

def written (db : Db) (batchId : Uuid) (key : RowKey) (row : ImportRow) : Bool :=
  ofBatch db batchId key row && row.action.writes

theorem ofBatch_eq (h : SameDb effect db db') (batchId : Uuid) : ofBatch db batchId = ofBatch db' batchId := by
  funext key row
  rw [ofBatch,ofBatch,Db.inBatch,Db.inBatch,h.jobs]

theorem applyBatch_lockstep (h : SameDb (SameEffect texts mode) db db')
    (hmode : ∀ batch, db.batches.get? batchId = some batch → batch.operation.mode = mode)
    (hsettle : facts'.settle = facts.settle)
    (hfirst : SameVisits texts mode facts facts' mode.firstOrder (changed db batchId) db db')
    (hlast : SameVisits texts mode facts facts' mode.lastOrder (written db batchId) db db') :
    Lockstep (fun r r' => SameDb (SameEffect texts mode) r.1 r'.1) (applyBatch texts batchId facts db)
      (applyBatch texts batchId facts' db') := by
  have choice := choice_ofBatch (SameEffect texts mode) db batchId
  rw [applyBatch,applyBatch,← h.batches,← ofBatch_eq h]
  refine .share _ (fun batch hbatch => ?_)
  rw [hmode batch (require_ok.mp hbatch)]
  split
  · exact .pure h
  · refine .share _ (fun _ _ => ?_)
    refine (applyRows_lockstep h (choice.taking RowAction.changes) (choice.taking RowAction.writes) hsettle hfirst
      hlast).bind (fun mid mid' hmid => .pure ?_)
    have happlied : mid.applyJobs batchId = mid'.applyJobs batchId := by
      rw [Db.applyJobs,Db.applyJobs,Table.mk.injEq,hmid.jobs]
      refine List.map_congr_left fun r _ => ?_
      rw [ImportJob.applied,ImportJob.applied,rowsWith_eq hmid]
    refine ⟨hmid.now,hmid.tables,hmid.accounts,hmid.teamLinks,hmid.programmesHeld,?_,happlied,?_⟩
    · dsimp only
      rw [hmid.batches]
    · dsimp only
      rw [← ofBatch_eq hmid]
      exact related_settled hmid (choice_ofBatch _ mid batchId)

/-! ## Uploads that cannot be applied -/

variable {related : Db × Unit → Db × Unit → Prop}

theorem applyImport_refused (hjobs : db.jobs = db'.jobs)
    (hrefused : ∀ job, db.jobs.get? jobId = some job → job.mode = .validateOnly ∨ job.status = .failed) :
    Lockstep related (applyImport texts jobId facts db) (applyImport texts jobId facts' db') := by
  rw [applyImport,applyImport,← hjobs]
  refine .share _ (fun job hjob => .share _ (fun _ hmode => ?_))
  rw [ensure_ok,decide_eq_true_eq] at hmode
  have hstatus := (hrefused job (require_ok.mp hjob)).resolve_left hmode
  rw [hstatus]
  refine .share _ (fun _ hvalidated => ?_)
  rw [ensure_ok] at hvalidated
  simp at hvalidated

theorem applyBatch_refused (hbatches : db.batches = db'.batches)
    (hrefused : ∀ batch, db.batches.get? batchId = some batch → batch.status = .failed) :
    Lockstep related (applyBatch texts batchId facts db) (applyBatch texts batchId facts' db') := by
  rw [applyBatch,applyBatch,← hbatches]
  refine .share _ (fun batch hbatch => ?_)
  rw [hrefused batch (require_ok.mp hbatch)]
  refine .share _ (fun _ hvalidated => ?_)
  rw [ensure_ok] at hvalidated
  simp at hvalidated

end LatexCore.Imports
