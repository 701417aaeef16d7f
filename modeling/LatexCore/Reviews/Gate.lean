import LatexCore.Papers.Desired
import LatexCore.Papers.Exactness
import LatexCore.Reviews.Lifecycle
import LatexCore.Reviews.RoundEffects

/-! # The review gate

The contract of the review rounds along a run. A round is opened over a build of
the state that the scheduler desires, and the scheduler takes the desired state
from a submission whatever the workspace has become since its capture. While no
submission comes late, the baseline of a round is the content that its workspace
has at that moment.
-/
namespace LatexCore.Reviews
open Core Foundation Workspace
open Papers (DesiredCurrent Governed Traced contentId paperCodec secondMain)
open Queue (sampleLimits sampleClock sampleSuccess zeroDigest)
variable {codec : Codec} {bytesPut : Set Bytes} {w : World} {label : Label} {id : Uuid}

def World.answer (w : World) : Label → Option OpenedRound
  | .openReviewRound i expected id =>
    w.participants[i]?.bind (fun p =>
      (openReviewRound p expected id w.papers.db w.tables).toOption.map Prod.snd)
  | _ => none

/-- The blobs whose write a step performs. -/
def blobsPut (codec : Codec) (w : World) : Label → List Bytes
  | .papers label => Papers.blobsPut codec w.papers label
  | _ => []

def bytesOf (codec : Codec) (w : World) (ops : List Label) : Set Bytes :=
  {b | b ∈ emitted (World.step codec) (blobsPut codec) w ops}

def timely (codec : Codec) (w : World) : Label → Bool
  | .papers label => !Papers.submitsLate codec w.papers label && !Papers.restores label
  | _ => true

structure ExactBaseline (codec : Codec) (db : Papers.Db) (r : ReviewRound) : Prop where
  intro ::
  exists_build : ∃ id build job, r.baselineBuildId = some id ∧
    r.baselineVersionId = build.versionId ∧ r.baselineStateHash = some build.stateHash ∧
    db.queue.builds.get? id = some build ∧ build.status = .succeeded ∧
    (∃ k artifact, db.queue.artifacts.get? k = some artifact ∧ artifact.jobId = build.compileJobId ∧
      artifact.kind = .pdf) ∧
    db.queue.jobs.get? build.compileJobId = some job ∧
    ∃ head state m, db.store.heads.get? r.workspaceId = some head ∧
      Replayed db.store r.workspaceId head.durableVersion state ∧ state.toManifest = .ok m ∧
      job.inputs.snapshotId = manifestSnapshotId codec m

structure RoundStep (codec : Codec) (w : World) (label : Label) : Prop where
  closed : ∀ id r, w.tables.rounds.get? id = some r → r.status = .closed →
    (w.step codec label).tables.rounds.get? id = some r
  submitted : ∀ id r, w.tables.rounds.get? id = some r → r.submitted = true →
    (w.step codec label).tables.rounds.get? id = some r ∨ ∃ i p, label = .closeReviewRound i id ∧
      w.participants[i]? = some p ∧ p.role = .writer ∧
        (w.step codec label).tables.rounds.get? id = some (r.close w.papers.db.now)
  created : ∀ id r, w.tables.rounds.get? id = none →
    (w.step codec label).tables.rounds.get? id = some r →
      r.status = .openForReview ∧ ExactBaseline codec w.papers.db r ∧
        ∀ k r', w.tables.rounds.get? k = some r' → r'.workspaceId = r.workspaceId →
          r'.roundNumber < r.roundNumber
  newThread : ∀ id r, w.tables.threads.get? id = none →
    (w.step codec label).tables.threads.get? id = some r → OfOpenRound w.tables r
  thread : ∀ id r, w.tables.threads.get? id = some r →
    ∃ r', (w.step codec label).tables.threads.get? id = some r' ∧
      r'.reviewRoundId = r.reviewRoundId ∧ r'.workspaceId = r.workspaceId

structure RoundContract (codec : Codec) (w : World) (ops : List Label) : Prop where
  sound : ∀ pre post, ops = pre ++ post → RoundsSound (run (World.step codec) w pre).tables
  steps : Along (World.step codec) (RoundStep codec) w ops
  same : ∀ pre first mid second post a a', ops = pre ++ first :: (mid ++ second :: post) →
    (run (World.step codec) w pre).answer first = some a →
    (run (World.step codec) w (pre ++ first :: mid)).answer second = some a' →
    a'.round.workspaceId = a.round.workspaceId →
    (∀ r, (run (World.step codec) w (pre ++ first :: mid)).tables.rounds.get? a.id = some r →
      r.status ≠ .closed) →
    a'.id = a.id ∧ a'.round = a.round ∧ a'.created = false
  once : (((emitted (World.step codec) (fun w label => (w.answer label).toList) w ops).filter
    OpenedRound.created).map OpenedRound.id).Nodup

/-! ## Baselines -/

/-- What the machine keeps while no submission comes late. -/
structure Timely (codec : Codec) (bytesPut : Set Bytes) (w : World) : Prop where
  governed : Governed codec bytesPut w.papers
  desired : DesiredCurrent codec w.papers.db
  traced : Traced w.papers.db.queue
  rounds : RoundsSound w.tables
  owned : Owned w.tables

theorem Timely.step (h : Timely codec bytesPut w) (hfree : CollisionFree codec bytesPut)
    (hput : ∀ bytes ∈ blobsPut codec w label, bytes ∈ bytesPut) (hguard : timely codec w label = true) :
    Timely codec bytesPut (w.step codec label) := by
  have hrounds := (step_rounds codec w label).sound h.rounds
  have howned : Owned (w.step codec label).tables := step_owned h.owned label
  have hidle {papers : Papers.World} (hpapers : papers = w.papers.tick) :
      Governed codec bytesPut papers ∧ DesiredCurrent codec papers.db ∧ Traced papers.db.queue := by
    subst hpapers
    exact ⟨h.governed.tick.1,h.desired.keep (fun _ => rfl) (fun _ => rfl),h.traced⟩
  have hpapers : Governed codec bytesPut (w.step codec label).papers ∧
      DesiredCurrent codec (w.step codec label).papers.db ∧
        Traced (w.step codec label).papers.db.queue := by
    cases label with
    | papers label =>
      simp only [timely,Bool.and_eq_true,Bool.not_eq_true'] at hguard
      exact ⟨(Papers.governed_step hfree h.governed hput).1,
        h.desired.step h.governed hguard.1 hguard.2,h.traced.step hguard.2⟩
    | reviewPaper actor paperId =>
      refine hidle ?_
      dsimp only [World.step,World.act]
      split <;> rfl
    | openReviewRound | closeReviewRound | createReviewThread | addReviewMessage
    | transitionReviewThread | updateReviewControls | acceptReviewSuggestion
    | rejectReviewSuggestion =>
      refine hidle ?_
      dsimp only [World.step,World.act,World.serve]
      split <;> rfl
  exact ⟨hpapers.1,hpapers.2.1,hpapers.2.2,hrounds,howned⟩

theorem Timely.baseline (h : Timely codec bytesPut w) {r : ReviewRound} {expected : String}
    {build : Uuid × Queue.Build}
    (hbaseline : reviewBaseline w.papers.db.queue r.workspaceId expected = some build)
    (hid : r.baselineBuildId = some build.1) (hversion : r.baselineVersionId = build.2.versionId)
    (hhash : r.baselineStateHash = some build.2.stateHash) : ExactBaseline codec w.papers.db r := by
  simp only [reviewBaseline,Option.filter_eq_some_iff,Bool.and_eq_true,beq_iff_eq,bne_iff_ne,
    Option.any_eq_true] at hbaseline
  obtain ⟨hcurrent,⟨⟨hstatus,hstate⟩,s,hs,hdesired⟩,hpdf⟩ := hbaseline
  have hbuild : w.papers.db.queue.builds.get? build.1 = some build.2 := by
    simp only [currentBuild,Option.bind_eq_bind,Option.bind_eq_some_iff,Option.pure_def,
      Option.some.injEq] at hcurrent
    obtain ⟨_,_,_,_,_,hrow,rfl⟩ := hcurrent
    exact hrow
  obtain ⟨snapshot,hcontent,hname⟩ := h.desired r.workspaceId expected (by
    rw [Builds.desiredOf,hs]
    exact hdesired)
  obtain ⟨job,hjob,hsnapshot⟩ := h.traced.snapshot hbuild (hstate.trans hname)
  obtain ⟨m,hm,rfl⟩ := Option.map_eq_some_iff.mp hcontent
  obtain ⟨state,hreplayed,hmanifest⟩ := Papers.content_eq_some.mp hm
  have hartifact : ∃ k artifact, w.papers.db.queue.artifacts.get? k = some artifact ∧
      artifact.jobId = build.2.compileJobId ∧ artifact.kind = .pdf := by
    by_contra hnone
    refine hpdf (Table.count_eq_zero.mpr ?_)
    intro k artifact hartifact
    by_contra hmatch
    simp only [Bool.not_eq_false,Bool.and_eq_true,beq_iff_eq] at hmatch
    exact hnone ⟨k,artifact,hartifact,hmatch⟩
  have hhead : ∃ head, w.papers.db.store.heads.get? r.workspaceId = some head ∧
      head.durableVersion = (w.papers.db.store.log r.workspaceId).length := by
    cases hhead : w.papers.db.store.heads.get? r.workspaceId with
    | none =>
      rw [Papers.content_eq_none (h.governed.sound.integrity.headless _ hhead)] at hm
      cases hm
    | some head => exact ⟨head,rfl,(h.governed.sound.integrity.durable _ head hhead).1⟩
  obtain ⟨head,hhead,hlength⟩ := hhead
  refine ⟨build.1,build.2,job,hid,hversion,hhash,hbuild,hstatus,hartifact,hjob,head,state,m,hhead,?_,
    hmanifest,hsnapshot⟩
  rw [hlength]
  exact hreplayed

theorem Timely.roundStep (h : Timely codec bytesPut w) : RoundStep codec w label where
  closed := by
    intro id r hr hclosed
    obtain ⟨r',hr',hcloses⟩ := (step_rounds codec w label).row hr
    rw [hr',hcloses.settled (by simp [hclosed]) (by simp [hclosed])]
  submitted := fun id r hr hsubmitted => (step_rounds codec w label).submitted hr hsubmitted
  created := by
    intro id r hnone hr
    obtain ⟨i,expected,p,-,hp,hopened⟩ := (step_rounds codec w label).new hnone hr
    obtain ⟨expected,build,hbaseline,hid,hversion,hhash⟩ := hopened.baseline
    rw [← hopened.workspace] at hbaseline
    refine ⟨hopened.status,h.baseline hbaseline hid hversion hhash,?_⟩
    intro k r' hr' hspace
    exact hopened.highest k r' hr' (hspace.trans hopened.workspace)
  newThread := fun id r hnone hr => act_gated label hnone r hr
  thread := fun id r hr => step_threadRound h.owned label hr

/-! ## Answers -/

variable (codec) in
theorem answer_ok {a : OpenedRound} (h : w.answer label = some a) :
    ∃ i expected id p, label = .openReviewRound i expected id ∧
      openReviewRound p expected id w.papers.db w.tables =
        .ok ((w.step codec label).tables,a) := by
  cases label with
  | openReviewRound i expected id =>
    simp only [World.answer,Option.bind_eq_some_iff,Option.map_eq_some_iff,
      Papers.toOption_eq_some] at h
    obtain ⟨p,hp,⟨t',a⟩,hok,rfl⟩ := h
    refine ⟨i,expected,id,p,rfl,?_⟩
    have htables : (w.step codec (.openReviewRound i expected id)).tables = t' := by
      simp only [World.step,World.act,World.serve,hp]
      exact commit_ok hok
    rw [htables]
    exact hok
  | _ => cases h

variable (codec) in
theorem answer_row {a : OpenedRound} (h : w.answer label = some a) :
    (w.step codec label).tables.rounds.get? a.id = some a.round ∧ a.round.submitted = true ∧
      (a.created = true → w.tables.rounds.get? a.id = none) := by
  obtain ⟨i,expected,id,p,-,hok⟩ := answer_ok codec h
  rcases openReviewRound_cases hok with ⟨hcreated,-,-,hrow,-,-,hsubmitted⟩ | ⟨-,rfl,hopened⟩
  · refine ⟨hrow,hsubmitted,?_⟩
    intro htrue
    rw [hcreated] at htrue
    cases htrue
  · exact ⟨hopened.row,hopened.submitted,fun _ => hopened.fresh⟩

theorem answer_open (codec : Codec) {a : OpenedRound} (hs : RoundsSound w.tables) (h : w.answer label = some a)
    {r : ReviewRound} (hr : w.tables.rounds.get? id = some r) (hsubmitted : r.submitted = true)
    (hspace : r.workspaceId = a.round.workspaceId) : a = ⟨id,r,false⟩ := by
  obtain ⟨i,expected,k,p,-,hok⟩ := answer_ok codec h
  have hopen : r.status = .openForReview := by
    simp only [ReviewRound.submitted,Bool.and_eq_true,beq_iff_eq] at hsubmitted
    exact hsubmitted.1.1.1
  rcases openReviewRound_cases hok with ⟨hcreated,-,hold,-,-,hstatus,-⟩ | ⟨-,rfl,hopened⟩
  · have hid := hs.single _ _ _ _ hr hold hspace hopen hstatus
    rw [← hid,hr,Option.some.injEq] at hold
    cases a
    simp_all
  · have hne : id ≠ a.id := by
      rintro rfl
      rw [hopened.fresh] at hr
      cases hr
    have hw := hspace.trans hopened.workspace
    have hrow := hopened.others id hne
    rw [get?_closeStaleRounds,hr] at hrow
    simp only [Option.map_some,hw,beq_self_eq_true,ReviewRound.stale,hsubmitted,Bool.not_true,
      Bool.and_false,Bool.false_eq_true,if_false] at hrow
    exact absurd hopen (hopened.alone id r hne hrow hw)

/-- The submitted round, or the closed row that has become of it. -/
def Closable (id : Uuid) (r : ReviewRound) (w : World) : Prop :=
  ∃ r', w.tables.rounds.get? id = some r' ∧ (r' = r ∨ r'.status = .closed)

theorem Closable.step {r : ReviewRound} (h : Closable id r w) (hsubmitted : r.submitted = true)
    (label : Label) : Closable id r (w.step codec label) := by
  obtain ⟨r',hr',rfl | hclosed⟩ := h
  · rcases (step_rounds codec w label).submitted hr' hsubmitted with hrow | ⟨_,_,_,_,_,hrow⟩
    · exact ⟨r',hrow,Or.inl rfl⟩
    · exact ⟨_,hrow,Or.inr rfl⟩
  · obtain ⟨r₁,hr₁,hcloses⟩ := (step_rounds codec w label).row hr'
    rw [hcloses.settled (by simp [hclosed]) (by simp [hclosed])] at hr₁
    exact ⟨r',hr₁,Or.inr hclosed⟩

def ReportedOnce (w : World) (out : List OpenedRound) : Prop :=
  ((out.filter OpenedRound.created).map OpenedRound.id).Nodup ∧
    ∀ a ∈ out, ∃ r, w.tables.rounds.get? a.id = some r

theorem ReportedOnce.step {out : List OpenedRound} (h : ReportedOnce w out) (label : Label) :
    ReportedOnce (w.step codec label) (out ++ (w.answer label).toList) := by
  obtain ⟨hnodup,hrows⟩ := h
  have hold : ∀ a ∈ out, ∃ r, (w.step codec label).tables.rounds.get? a.id = some r := by
    intro a ha
    obtain ⟨r,hr⟩ := hrows a ha
    obtain ⟨r',hr',-⟩ := (step_rounds codec w label).row hr
    exact ⟨r',hr'⟩
  cases hanswer : w.answer label with
  | none => simpa using ⟨hnodup,hold⟩
  | some a =>
    obtain ⟨hrow,-,hfresh⟩ := answer_row codec hanswer
    refine ⟨?_,?_⟩
    · cases hcreated : a.created with
      | false => simpa [List.filter_append,hcreated] using hnodup
      | true =>
        simp only [Option.toList_some,List.filter_append,List.map_append,List.filter_cons,hcreated,
          if_true,List.filter_nil,List.map_cons,List.map_nil]
        refine hnodup.append (List.nodup_singleton _) ?_
        intro k hk hnew
        obtain ⟨b,hb,rfl⟩ := List.mem_map.mp hk
        obtain ⟨r,hr⟩ := hrows b (List.mem_filter.mp hb).1
        rw [List.mem_singleton.mp hnew,hfresh hcreated] at hr
        cases hr
    · intro b hb
      rcases List.mem_append.mp hb with hb | hb
      · exact hold b hb
      · rw [Option.toList_some,List.mem_singleton] at hb
        exact ⟨a.round,hb ▸ hrow⟩

/-! ## Runs -/

def Schema (rounds : Table Uuid ReviewRound) : Prop :=
  RoundsSound ⟨rounds,.empty,.empty,.empty,.empty,.empty⟩

theorem timely_initial (tenants : List TenantId) (users : List UserId)
    (roles : Table UserId GlobalRole) (templates : List Uuid) (programmes : List String)
    (packs : List Uuid) {rounds : Table Uuid ReviewRound} (hrounds : Schema rounds) :
    Timely codec bytesPut
      (.initial (.initial tenants users roles templates programmes packs) rounds) where
  governed := Papers.governed_initial ..
  desired := fun _ _ h => by cases h
  traced := Papers.traced_empty
  rounds := hrounds
  owned := owned_initial _ _

/-- In a run without a late submission every round is opened over the content of its workspace. -/
theorem rounds_are_gated (codec : Codec) (tenants : List TenantId) (users : List UserId)
    (roles : Table UserId GlobalRole) (templates : List Uuid) (programmes : List String)
    (packs : List Uuid) (rounds : Table Uuid ReviewRound) (ops : List Label) (hrounds : Schema rounds)
    (hfree : CollisionFree codec (bytesOf codec
      (.initial (.initial tenants users roles templates programmes packs) rounds) ops))
    (hguard : Along (World.step codec) (fun w label => timely codec w label = true)
      (.initial (.initial tenants users roles templates programmes packs) rounds) ops) :
    RoundContract codec (.initial (.initial tenants users roles templates programmes packs) rounds)
      ops := by
  let start := World.initial (.initial tenants users roles templates programmes packs) rounds
  have hstart : Timely codec (bytesOf codec start ops) start := timely_initial _ _ _ _ _ _ hrounds
  have hputs : Along (World.step codec)
      (fun w label => ∀ bytes ∈ blobsPut codec w label, bytes ∈ bytesOf codec start ops) start ops :=
    (emitted_forall_iff (fun _ => True) (fun _ _ _ => trivial) (fun _ _ _ => Iff.rfl) trivial
      ops).mp (fun _ h => h)
  have hboth := hguard.and hputs
  have hstep : ∀ w label, Timely codec (bytesOf codec start ops) w →
      (timely codec w label = true ∧ ∀ bytes ∈ blobsPut codec w label, bytes ∈ bytesOf codec start ops) →
        Timely codec (bytesOf codec start ops) (w.step codec label) :=
    fun _ _ h hlabel => h.step hfree hlabel.2 hlabel.1
  have hreached : ∀ pre post, ops = pre ++ post →
      Timely codec (bytesOf codec start ops) (run (World.step codec) start pre) := by
    intro pre post heq
    have hpre := hboth
    rw [heq] at hpre
    rw [heq] at hstep hstart ⊢
    exact (along_append.mp hpre).1.invariant _ hstep hstart
  constructor
  · intro pre post heq
    exact (hreached pre post heq).rounds
  · exact hboth.of_invariant _ hstep (fun _ _ h _ => h.roundStep) hstart
  · intro pre first mid second post a a' heq hfirst hsecond hspace hopen
    have hsound := (hreached (pre ++ first :: mid) (second :: post) (by simp [heq])).rounds
    obtain ⟨hrow,hsubmitted,-⟩ := answer_row codec hfirst
    have hclosable : Closable a.id a.round (run (World.step codec) start (pre ++ first :: mid)) := by
      rw [run_append,run_cons]
      exact run_invariant (Closable a.id a.round)
        (fun _ label h => h.step hsubmitted label) ⟨a.round,hrow,Or.inl rfl⟩ mid
    obtain ⟨r,hr,rfl | hclosed⟩ := hclosable
    · rw [answer_open codec hsound hsecond hr hsubmitted hspace.symm]
      exact ⟨rfl,rfl,rfl⟩
    · exact absurd hclosed (hopen r hr)
  · exact (run_invariant_emitted ReportedOnce (fun _ _ label h => h.step label)
      ⟨List.nodup_nil,fun _ h => by cases h⟩ ops).1

/-! ## A late submission -/

def legacyRound : ReviewRound :=
  { sampleRound with
    submittedByLeaderWriterId := none
    baselineBuildId := none
    baselineStateHash := none
    status := .legacy }

def legacyRounds : Table Uuid ReviewRound := ⟨[(29,legacyRound)],List.nodup_singleton _⟩

def gateStart : World := .initial sampleStart.papers legacyRounds

theorem schema_legacyRounds : Schema legacyRounds := by
  have honly : ∀ id r, legacyRounds.get? id = some r → id = 29 := by
    intro id r hr
    have hmem := Table.mem_rows_iff.mpr hr
    rw [legacyRounds,List.mem_singleton] at hmem
    exact (Prod.mk.inj hmem).1
  constructor
  · exact fun id id' r r' hr hr' _ _ => (honly id r hr).trans (honly id' r' hr').symm
  · exact fun id id' r r' hr hr' _ _ _ => (honly id r hr).trans (honly id' r' hr').symm

/-- The submission of the first captured state. -/
def submitFirst (build : Uuid) (t : Timestamp) : Label :=
  .papers (.submitV2Build 0 0 2 "auto" zeroDigest "texlive" ⟨some "active",true⟩
    (fun b => b) ⟨build,build + 100⟩ (sampleClock t))

def builtRun : List Label :=
  [.papers (.put sampleText),
    .papers (.request (.createInitializedPaperTeam 1 0 0 "Paper" 2 [2] [3] sampleMain
      sampleTextDigest 4 7 8)),
    .papers (.capture 7),submitFirst 50 4,
    .papers (.queue sampleLimits (.claim 5 [] (sampleClock 5)) rfl),
    .papers (.queue sampleLimits (sampleSuccess 50 5 60 6) rfl),.reviewPaper 2 7,.reviewPaper 3 7]

/-- The leader opens a round, twice, the mentor comments on it, and the leader closes it. -/
def reviewedRun : List Label :=
  builtRun ++
    [.openReviewRound 0 sampleManifestDigest.toHex 30,.openReviewRound 0 sampleManifestDigest.toHex 31,
      .createReviewThread 1 sampleSuggestion ⟨40,41,42⟩,.closeReviewRound 0 30]

theorem rounds_are_gated_reviewed :
    ((run (World.step paperCodec) gateStart reviewedRun).tables.rounds.get? 30).map
        ReviewRound.status = some .closed ∧
      RoundContract paperCodec gateStart reviewedRun := by
  have hfacts : ((run (World.step paperCodec) gateStart reviewedRun).tables.rounds.get? 30).map
        ReviewRound.status = some .closed ∧
      ((emitted (World.step paperCodec) (blobsPut paperCodec) gateStart reviewedRun).dedup.map
        paperCodec.sha256).Nodup ∧
      ∀ e ∈ trace (World.step paperCodec) gateStart reviewedRun, timely paperCodec e.1 e.2 = true := by
    decide +kernel
  obtain ⟨hclosed,hdigests,hguard⟩ := hfacts
  refine ⟨hclosed,rounds_are_gated paperCodec _ _ _ _ _ _ _ reviewedRun schema_legacyRounds ?_
    (along_iff_trace.mpr hguard)⟩
  intro a ha b hb
  exact List.inj_on_of_nodup_map hdigests (List.mem_dedup.mpr ha) (List.mem_dedup.mpr hb)

def lateRun : List Label :=
  builtRun ++
    [.papers (.request (.createFile 0 2 1 secondMain sampleTextDigest 4 ⟨61,80⟩)),submitFirst 51 9]

/-- A round that is opened then has the state before the edit as its baseline. -/
theorem late_submission_gates_old_content :
    CollisionFree paperCodec (bytesOf paperCodec gateStart
        (lateRun ++ [.openReviewRound 0 sampleManifestDigest.toHex 30])) ∧
      ¬RoundContract paperCodec gateStart
        (lateRun ++ [.openReviewRound 0 sampleManifestDigest.toHex 30]) := by
  let opened := lateRun ++ [Label.openReviewRound 0 sampleManifestDigest.toHex 30]
  let before := run (World.step paperCodec) gateStart lateRun
  let round := (before.step paperCodec
    (.openReviewRound 0 sampleManifestDigest.toHex 30)).tables.rounds.get? 30
  have hfacts : ((emitted (World.step paperCodec) (blobsPut paperCodec) gateStart opened).dedup.map
        paperCodec.sha256).Nodup ∧ before.tables.rounds.get? 30 = none ∧ round.isSome = true ∧
      (((round.bind ReviewRound.baselineBuildId).bind before.papers.db.queue.builds.get?).bind
        (fun b => before.papers.db.queue.jobs.get? b.compileJobId)).map
          (fun j => j.inputs.snapshotId) = some sampleManifestDigest ∧
      round.map ReviewRound.workspaceId = some 0 ∧
      (before.papers.db.store.heads.get? 0).map HeadRow.durableVersion =
        some (before.papers.db.store.log 0).length ∧
      contentId paperCodec before.papers.db.store 0 = some Papers.secondManifestDigest := by
    decide +kernel
  obtain ⟨hdigests,hnone,hround,hsnapshot,hspace,hlength,hcontent⟩ := hfacts
  refine ⟨?_,?_⟩
  · intro a ha b hb
    exact List.inj_on_of_nodup_map hdigests (List.mem_dedup.mpr ha) (List.mem_dedup.mpr hb)
  · intro h
    obtain ⟨r,hr⟩ := Option.isSome_iff_exists.mp hround
    have hstep := along_iff.mp h.steps lateRun _ [] rfl
    obtain ⟨-,⟨id,build,job,hid,-,-,hbuild,-,-,hjob,head,state,m,hhead,hreplayed,hmanifest,hsame⟩,-⟩ :=
      hstep.created 30 r hnone hr
    rw [hr,Option.map_some,Option.some.injEq] at hspace
    rw [hr,Option.bind_some,hid,Option.bind_some,hbuild,Option.bind_some,hjob,Option.map_some,
      Option.some.injEq] at hsnapshot
    rw [hspace] at hhead hreplayed
    rw [hhead,Option.map_some,Option.some.injEq] at hlength
    rw [hlength] at hreplayed
    rw [contentId,Papers.content_eq_some.mpr ⟨state,hreplayed,hmanifest⟩,Option.map_some,← hsame,
      hsnapshot,Option.some.injEq] at hcontent
    exact absurd hcontent (by decide)

end LatexCore.Reviews
