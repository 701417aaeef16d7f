import LatexCore.Reviews.Effects
import LatexCore.Workspace.History

/-! # The life cycle of a review thread

A thread and its suggestion are two state machines that three operations move
together. The answers of a suggestion look at the suggestion alone, so a thread
that was resolved before its suggestion was answered leaves its state without a
mentor and keeps the time of its resolution.
-/
namespace LatexCore.Reviews
open Core Foundation Workspace
open Queue (zeroDigest)
variable {codec : Codec} {w : World} {label : Label} {id : Uuid}

/-- The suggestions that a step takes out of `PENDING`. -/
def answered (codec : Codec) (w : World) (label : Label) : List Uuid :=
  (w.tables.suggestions.select (fun _ s => s.status == .pending)).filter (fun id =>
    !((w.step codec label).tables.suggestions.get? id).any (fun s => s.status == .pending))

structure ThreadSound (t : Tables) (id : Uuid) (r : ReviewThread) : Prop where
  resolvedAt : r.resolvedAt.isSome = true ↔ r.state = .resolved
  rejected : r.state = .rejected ↔ ∃ s, t.suggestions.get? id = some s ∧ s.status = .rejected

def ThreadsSound (t : Tables) : Prop := ∀ id r, t.threads.get? id = some r → ThreadSound t id r

structure ThreadStep (codec : Codec) (w : World) (label : Label) (id : Uuid) (r : ReviewThread) :
    Prop where
  rejected : r.state = .rejected →
    ∃ r', (w.step codec label).tables.threads.get? id = some r' ∧ r'.state = .rejected
  resolved : r.state = .resolved →
    ∃ r', (w.step codec label).tables.threads.get? id = some r' ∧
      (r'.state = .resolved ∨ r'.state = .reopened ∧ ∃ i p,
        label = .transitionReviewThread i id .reopened ∧ w.participants[i]? = some p ∧
          p.role = .mentor)

def AcceptedInRun (visited : List (World × Label)) (id : Uuid) (r : ReviewThread)
    (s : ReviewSuggestion) : Prop :=
  ∃ v i sequence p, (v,Label.acceptReviewSuggestion i id sequence) ∈ visited ∧
    v.participants[i]? = some p ∧ p.role = .writer ∧ s.acceptedByWriterUserId = some p.actor ∧
      Edited v id r p.actor sequence

structure LifeCycle (codec : Codec) (w : World) (ops : List Label) : Prop where
  sound : ∀ pre post, ops = pre ++ post → ThreadsSound (run (World.step codec) w pre).tables
  steps : Along (World.step codec)
    (fun v label => ∀ id r, v.tables.threads.get? id = some r → ThreadStep codec v label id r) w ops
  answered : (emitted (World.step codec) (answered codec) w ops).Nodup
  accepted : ∀ id s, (run (World.step codec) w ops).tables.suggestions.get? id = some s →
    s.status = .accepted → ∃ r, (run (World.step codec) w ops).tables.threads.get? id = some r ∧
      AcceptedInRun (trace (World.step codec) w ops) id r s

def answersResolved (w : World) : Label → Bool
  | .acceptReviewSuggestion _ id _ | .rejectReviewSuggestion _ id _ =>
    (w.tables.threads.get? id).any (fun r => r.state == .resolved) &&
      (w.tables.suggestions.get? id).any (fun s => s.status == .pending)
  | _ => false

/-! ## One step -/

theorem transitionValid_target {role : GlobalRole} {threadType : ThreadType}
    {current target : ThreadState} (h : transitionValid role threadType current target = true) :
    target ≠ .rejected ∧ current ≠ .rejected ∧
      (current = .resolved → target = .reopened ∧ role = .mentor) := by
  cases role <;> cases current <;> cases target <;> simp [transitionValid] at h ⊢

theorem ThreadsSound.step (hown : Owned w.tables) (h : ThreadsSound w.tables)
    (hguard : answersResolved w label = false) : ThreadsSound (w.step codec label).tables := by
  intro id r' hr'
  have hmoved := step_moved codec hown label id
  generalize hbefore : w.tables.reviewed id = before at hmoved
  generalize hafter : (w.step codec label).tables.reviewed id = after at hmoved
  obtain ⟨hthread,hs⟩ := Prod.mk.inj hbefore
  obtain ⟨hthread',hs'⟩ := Prod.mk.inj hafter
  rw [hr'] at hthread'
  rcases hmoved with _ | ⟨_,hstate,hresolved,hpending⟩ | ⟨_,hlife⟩ | ⟨hp,hvalid⟩ |
    ⟨hp,_,hpending,_⟩ | ⟨hp,_,hpending⟩
  · cases hthread'
  · cases hthread'
    refine ⟨?_,?_⟩
    · simp [hstate,hresolved]
    · simp only [hstate,reduceCtorEq,false_iff]
      rintro ⟨s,hsome,hrejected⟩
      rw [hs'] at hsome
      rw [hpending s hsome] at hrejected
      cases hrejected
  · cases hthread'
    obtain ⟨hresolved,hrejected⟩ := h id _ hthread
    refine ⟨?_,?_⟩
    · rw [hlife.resolvedAt,hlife.state]
      exact hresolved
    · rw [hlife.state,hs',← hs]
      exact hrejected
  · cases hthread'
    obtain ⟨hresolved,hrejected⟩ := h id _ hthread
    obtain ⟨htarget,hcurrent,-⟩ := transitionValid_target hvalid
    refine ⟨?_,?_⟩
    · simp only [ReviewThread.move]
      split
      · next htarget => simp [htarget]
      · next htarget => simp [htarget]
    · rw [hs',← hs,← hrejected]
      exact iff_of_false htarget hcurrent
  · cases hthread'
    obtain ⟨hresolved,-⟩ := h id _ hthread
    have hopen := hguard
    simp only [answersResolved,hthread,hs,Option.any_some,hpending,beq_self_eq_true,Bool.and_true,
      beq_eq_false_iff_ne] at hopen
    refine ⟨?_,?_⟩
    · simpa [ReviewThread.answer,hopen] using hresolved
    · rw [hs']
      simp [ReviewThread.answer,ReviewSuggestion.accept]
  · cases hthread'
    obtain ⟨hresolved,-⟩ := h id _ hthread
    have hopen := hguard
    simp only [answersResolved,hthread,hs,Option.any_some,hpending,beq_self_eq_true,Bool.and_true,
      beq_eq_false_iff_ne] at hopen
    refine ⟨?_,?_⟩
    · simpa [ReviewThread.answer,hopen] using hresolved
    · rw [hs']
      simp [ReviewThread.answer,ReviewSuggestion.reject]

theorem ThreadsSound.threadStep (hown : Owned w.tables) (h : ThreadsSound w.tables)
    (hguard : answersResolved w label = false) {r : ReviewThread}
    (hr : w.tables.threads.get? id = some r) : ThreadStep codec w label id r := by
  have hmoved := step_moved codec hown label id
  generalize hbefore : w.tables.reviewed id = before at hmoved
  generalize hafter : (w.step codec label).tables.reviewed id = after at hmoved
  obtain ⟨hthread,hs⟩ := Prod.mk.inj hbefore
  obtain ⟨hthread',hs'⟩ := Prod.mk.inj hafter
  rw [hr] at hthread
  obtain ⟨-,hrejected⟩ := h id r hr
  have hanswered {s : ReviewSuggestion} (hsome : w.tables.suggestions.get? id = some s)
      (hpending : s.status = .pending) : r.state ≠ .rejected := by
    intro hstate
    obtain ⟨s',hsome',hstatus⟩ := hrejected.mp hstate
    rw [hsome] at hsome'
    cases hsome'
    rw [hpending] at hstatus
    cases hstatus
  rcases hmoved with _ | ⟨_,hstate,hresolved,hpending⟩ | ⟨_,hlife⟩ | ⟨hp,hvalid⟩ |
    ⟨hp,_,hpending,_⟩ | ⟨hp,_,hpending⟩
  · cases hthread
  · cases hthread
  · cases hthread
    refine ⟨fun hstate => ⟨_,hthread',hlife.state.trans hstate⟩,?_⟩
    exact fun hstate => ⟨_,hthread',Or.inl (hlife.state.trans hstate)⟩
  · cases hthread
    obtain ⟨-,hcurrent,hreopened⟩ := transitionValid_target hvalid
    refine ⟨fun hstate => absurd hstate hcurrent,?_⟩
    intro hstate
    obtain ⟨rfl,hmentor⟩ := hreopened hstate
    exact ⟨_,hthread',Or.inr ⟨rfl,_,_,rfl,hp,hmentor⟩⟩
  · cases hthread
    refine ⟨fun hstate => absurd hstate (hanswered hs hpending),?_⟩
    intro hstate
    simp [answersResolved,hr,hs,hstate,hpending] at hguard
  · cases hthread
    refine ⟨fun hstate => absurd hstate (hanswered hs hpending),?_⟩
    intro hstate
    simp [answersResolved,hr,hs,hstate,hpending] at hguard

variable (codec) in
theorem step_suggestion (hown : Owned w.tables) (label : Label) {s : ReviewSuggestion}
    (hs : w.tables.suggestions.get? id = some s) :
    ∃ s', (w.step codec label).tables.suggestions.get? id = some s' ∧
      (s.status ≠ .pending → s' = s) := by
  have hmoved := step_moved codec hown label id
  generalize hbefore : w.tables.reviewed id = before at hmoved
  generalize hafter : (w.step codec label).tables.reviewed id = after at hmoved
  obtain ⟨-,hold⟩ := Prod.mk.inj hbefore
  obtain ⟨-,hnew⟩ := Prod.mk.inj hafter
  rw [hs] at hold
  rcases hmoved with _ | ⟨_,_,_,_⟩ | ⟨_,_⟩ | ⟨_,_⟩ | ⟨_,_,hpending,_⟩ | ⟨_,_,hpending⟩
  · cases hold
  · cases hold
  · exact ⟨s,hnew.trans hold.symm,fun _ => rfl⟩
  · exact ⟨s,hnew.trans hold.symm,fun _ => rfl⟩
  · cases hold
    exact ⟨_,hnew,fun h => absurd hpending h⟩
  · cases hold
    exact ⟨_,hnew,fun h => absurd hpending h⟩

theorem mem_answered : id ∈ answered codec w label ↔
    (∃ s, w.tables.suggestions.get? id = some s ∧ s.status = .pending) ∧
      ∀ s, (w.step codec label).tables.suggestions.get? id = some s → s.status ≠ .pending := by
  simp only [answered,List.mem_filter,Table.mem_select,beq_iff_eq,Bool.not_eq_true',
    Option.any_eq_false,beq_eq_false_iff_ne]

def AnsweredOnce (w : World) (out : List Uuid) : Prop :=
  Owned w.tables ∧ out.Nodup ∧
    ∀ id ∈ out, ∃ s, w.tables.suggestions.get? id = some s ∧ s.status ≠ .pending

theorem AnsweredOnce.step {out : List Uuid} (h : AnsweredOnce w out) (label : Label) :
    AnsweredOnce (w.step codec label) (out ++ answered codec w label) := by
  obtain ⟨hown,hnodup,hout⟩ := h
  refine ⟨step_owned hown label,?_,?_⟩
  · have hnew : (answered codec w label).Nodup := (Table.select_nodup _ _).filter _
    refine hnodup.append hnew ?_
    intro id hold hanswered
    obtain ⟨s,hs,hdone⟩ := hout id hold
    obtain ⟨⟨s',hs',hpending⟩,-⟩ := mem_answered.mp hanswered
    rw [hs] at hs'
    cases hs'
    exact hdone hpending
  · intro id hid
    rcases List.mem_append.mp hid with hold | hnew
    · obtain ⟨s,hs,hdone⟩ := hout id hold
      obtain ⟨s',hs',hsame⟩ := step_suggestion codec hown label hs
      exact ⟨s',hs',hsame hdone ▸ hdone⟩
    · obtain ⟨⟨s,hs,-⟩,hdone⟩ := mem_answered.mp hnew
      obtain ⟨s',hs',-⟩ := step_suggestion codec hown label hs
      exact ⟨s',hs',hdone s' hs'⟩

theorem Edited.congr {r r' : ReviewThread} {writer : UserId} {sequence : ℕ}
    (h : Edited w id r writer sequence) (hworkspace : r'.workspaceId = r.workspaceId)
    (hcreated : r'.createdAt = r.createdAt) : Edited w id r' writer sequence := by
  obtain ⟨anchor,u,hanchor,hu,hid,hroom,hactor,htime⟩ := h
  exact ⟨anchor,u,hanchor,hu,hid,hworkspace ▸ hroom,hactor,hcreated ▸ htime⟩

def AcceptedSoFar (w : World) (visited : List (World × Label)) : Prop :=
  Owned w.tables ∧ ∀ id s, w.tables.suggestions.get? id = some s → s.status = .accepted →
    ∃ r, w.tables.threads.get? id = some r ∧ AcceptedInRun visited id r s

theorem AcceptedInRun.mono {visited more : List (World × Label)} {r r' : ReviewThread}
    {s : ReviewSuggestion} (h : AcceptedInRun visited id r s) (hsub : visited ⊆ more)
    (hworkspace : r'.workspaceId = r.workspaceId) (hcreated : r'.createdAt = r.createdAt) :
    AcceptedInRun more id r' s := by
  obtain ⟨v,i,sequence,p,hmem,hp,hrole,hby,hedit⟩ := h
  exact ⟨v,i,sequence,p,hsub hmem,hp,hrole,hby,hedit.congr hworkspace hcreated⟩

theorem AcceptedSoFar.step {visited : List (World × Label)} (h : AcceptedSoFar w visited)
    (label : Label) : AcceptedSoFar (w.step codec label) (visited ++ [(w,label)]) := by
  obtain ⟨hown,haccepted⟩ := h
  refine ⟨step_owned hown label,?_⟩
  intro id s hsome hstatus
  have hmoved := step_moved codec hown label id
  generalize hbefore : w.tables.reviewed id = before at hmoved
  generalize hafter : (w.step codec label).tables.reviewed id = after at hmoved
  obtain ⟨hthread,hs⟩ := Prod.mk.inj hbefore
  obtain ⟨hthread',hs'⟩ := Prod.mk.inj hafter
  rw [hsome] at hs'
  have hsub : visited ⊆ visited ++ [(w,label)] := List.subset_append_left ..
  rcases hmoved with _ | ⟨_,_,_,hpending⟩ | ⟨_,hlife⟩ | ⟨_,_⟩ | ⟨hp,hrole,_,hedit⟩ | ⟨_,_,_⟩
  · cases hs'
  · rw [hpending s hs'.symm] at hstatus
    cases hstatus
  · obtain ⟨r,hr,hrun⟩ := haccepted id s (hs.trans hs'.symm) hstatus
    rw [hthread] at hr
    cases hr
    exact ⟨_,hthread',hrun.mono hsub hlife.workspaceId hlife.createdAt⟩
  · obtain ⟨r,hr,hrun⟩ := haccepted id s (hs.trans hs'.symm) hstatus
    rw [hthread] at hr
    cases hr
    exact ⟨_,hthread',hrun.mono hsub rfl rfl⟩
  · cases hs'
    refine ⟨_,hthread',w,_,_,_,?_,hp,hrole,rfl,hedit.congr rfl rfl⟩
    exact List.mem_append_right _ (List.mem_singleton_self _)
  · cases hs'
    cases hstatus

/-! ## Runs -/

theorem owned_initial (papers : Papers.World) (rounds : Table Uuid ReviewRound) :
    Owned (World.initial papers rounds).tables := fun _ _ => rfl

/-- No suggestion of a resolved thread is answered, and the threads follow their life cycle. -/
theorem threads_follow_life_cycle (codec : Codec) (papers : Papers.World)
    (rounds : Table Uuid ReviewRound) (ops : List Label)
    (hguard : Along (World.step codec) (fun w label => answersResolved w label = false)
      (World.initial papers rounds) ops) :
    LifeCycle codec (World.initial papers rounds) ops := by
  have hinitial : Owned (World.initial papers rounds).tables ∧
      ThreadsSound (World.initial papers rounds).tables :=
    ⟨owned_initial papers rounds,fun _ _ h => by cases h⟩
  have hstep : ∀ w label, Owned w.tables ∧ ThreadsSound w.tables → answersResolved w label = false →
      Owned (w.step codec label).tables ∧ ThreadsSound (w.step codec label).tables :=
    fun _ label h hlabel => ⟨step_owned h.1 label,h.2.step h.1 hlabel⟩
  constructor
  · rintro pre post rfl
    exact ((along_append.mp hguard).1.invariant
      (fun w => Owned w.tables ∧ ThreadsSound w.tables) hstep hinitial).2
  · exact hguard.of_invariant (fun w => Owned w.tables ∧ ThreadsSound w.tables) hstep
      (fun _ _ h hlabel _ _ hr => h.2.threadStep h.1 hlabel hr) hinitial
  · exact (run_invariant_emitted AnsweredOnce (fun _ _ label h => h.step label)
      ⟨hinitial.1,List.nodup_nil,fun _ h => by cases h⟩ ops).2.1
  · exact (run_invariant_emitted AcceptedSoFar (fun _ _ label h => h.step label)
      ⟨hinitial.1,fun _ _ h => by cases h⟩ ops).2

/-! ## An answer after the resolution -/

def sampleRound : ReviewRound where
  paperId := 7
  workspaceId := 0
  roundNumber := 1
  baselineVersionId := 20
  openedByMentorUserId := none
  submittedByLeaderWriterId := some 2
  baselineBuildId := some 21
  baselineStateHash := some zeroDigest.toHex
  status := .openForReview
  openedAt := 0
  closedAt := none

/-- Of the users 1, 2 and 3 the first is an admin, the second a writer, the third a mentor. -/
def sampleStart : World :=
  .initial ⟨.initial [0] [1,2,3] ⟨[(1,.admin),(2,.writer),(3,.mentor)],by decide⟩ [] [] [],[]⟩
    ⟨[(30,sampleRound)],by decide⟩

def sampleAnchor : SourceAnchor := ⟨8,some [1],some [2],"text",zeroDigest.toHex,1,none,1⟩

def sampleSuggestion : ReviewThreadInput where
  threadType := .suggestion
  message := "Say it shorter"
  severity := .note
  category := .writing
  assignedWriterUserId := none
  dueAt := none
  sourceAnchor := some sampleAnchor
  pdfAnchor := none
  suggestedReplacement := some "short"
  sectionLabel := none

/-- A team of the writer and the mentor, and a suggestion of the mentor on its main file. -/
def suggestionRun : List Label :=
  [.papers (.request (.createInitializedPaperTeam 1 0 0 "Paper" 2 [2] [3] sampleMain zeroDigest 4 7 8)),
    .reviewPaper 3 7,.reviewPaper 2 7,.createReviewThread 0 sampleSuggestion ⟨40,41,42⟩]

/-- The writer edits the file, accepts the suggestion with the edit, and the mentor resolves and
reopens the thread. -/
def acceptedRun : List Label :=
  suggestionRun ++
    [.papers (.capture 7),.papers (.request (.collaborationBatch 0 8 1 [⟨2,[1]⟩] zeroDigest 5)),
      .acceptReviewSuggestion 1 40 1,.transitionReviewThread 0 40 .resolved,
      .transitionReviewThread 0 40 .reopened]

theorem threads_follow_life_cycle_accepted :
    (∀ e ∈ trace (World.step sampleCodec) sampleStart acceptedRun, answersResolved e.1 e.2 = false) ∧
      LifeCycle sampleCodec sampleStart acceptedRun := by
  have hguard : ∀ e ∈ trace (World.step sampleCodec) sampleStart acceptedRun,
      answersResolved e.1 e.2 = false := by
    decide +kernel
  exact ⟨hguard,threads_follow_life_cycle sampleCodec _ _ acceptedRun (along_iff_trace.mpr hguard)⟩

def rejectedAfterResolution : List Label :=
  suggestionRun ++ [.transitionReviewThread 1 40 .resolved,.rejectReviewSuggestion 1 40 none]

/-- The thread is rejected without a mentor, and it keeps the time of its resolution. -/
theorem rejected_after_resolution : ¬LifeCycle sampleCodec sampleStart rejectedAfterResolution := by
  intro h
  have hlast : ∃ r, (run (World.step sampleCodec) sampleStart
      rejectedAfterResolution).tables.threads.get? 40 = some r ∧ r.resolvedAt.isSome = true ∧
        r.state = .rejected := by
    decide +kernel
  obtain ⟨r,hr,hresolved,hstate⟩ := hlast
  have hsound := h.sound rejectedAfterResolution [] (List.append_nil _).symm 40 r hr
  rw [hsound.resolvedAt.mp hresolved] at hstate
  cases hstate

end LatexCore.Reviews
