import LatexCore.Foundation.Runs
import LatexCore.Reviews.Machine

/-! # What a step does to a thread

The inversion of every transaction on the threads, and from it the one relation
that says how a step changes a thread together with its suggestion. The life
cycle of the threads is derived from this relation alone.
-/
namespace LatexCore.Reviews
open Core Foundation Workspace
variable {db : Papers.Db} {t t' t₁ t₂ : Tables} {p : Participant} {id : Uuid}

theorem lockThread_ok {w : WorkspaceId} {r : ReviewThread} :
    lockThread t w id = .ok r ↔ t.threads.get? id = some r ∧ r.workspaceId = w := by
  simp [lockThread,Option.filter_eq_some_iff]

/-! ## Insertions -/

/-- Messages and anchors may differ, and nothing else. -/
structure Aside (t t' : Tables) : Prop where
  rounds : t'.rounds = t.rounds
  threads : t'.threads = t.threads
  suggestions : t'.suggestions = t.suggestions

theorem Aside.refl (t : Tables) : Aside t t := ⟨rfl,rfl,rfl⟩

theorem Aside.trans (h : Aside t t₁) (h' : Aside t₁ t₂) : Aside t t₂ :=
  ⟨h'.rounds.trans h.rounds,h'.threads.trans h.threads,h'.suggestions.trans h.suggestions⟩

theorem insertMessage_ok {thread : Uuid} {author : UserId} {body : String} {now : Timestamp}
    (h : insertMessage t id thread author body now = .ok t') : Aside t t' := by
  simp only [insertMessage,bind_ok,pure_ok] at h
  obtain ⟨_,_,messages,_,rfl⟩ := h
  exact ⟨rfl,rfl,rfl⟩

theorem insertSourceAnchor_ok {anchor : SourceAnchor}
    (h : insertSourceAnchor db id anchor t = .ok t') : Aside t t' := by
  simp only [insertSourceAnchor,bind_ok,pure_ok] at h
  obtain ⟨_,_,_,_,_,_,_,_,anchors,_,rfl⟩ := h
  exact ⟨rfl,rfl,rfl⟩

theorem insertPdfAnchor_ok {thread : Uuid} {w : WorkspaceId} {anchor : PdfAnchorInput}
    (h : insertPdfAnchor db id thread w anchor t = .ok t') : Aside t t' := by
  simp only [insertPdfAnchor,bind_ok,pure_ok] at h
  obtain ⟨_,_,_,_,_,_,_,_,anchors,_,rfl⟩ := h
  exact ⟨rfl,rfl,rfl⟩

theorem optionally_ok {α : Type} {input : Option α} {f : α → Tables → Except V2Error Tables}
    (h : optionally input f t = .ok t') (hf : ∀ a, f a t = .ok t' → Aside t t') : Aside t t' := by
  cases input with
  | none =>
    cases h
    exact .refl _
  | some a => exact hf a h

theorem insertRound_ok {round : ReviewRound} (h : insertRound t id round = .ok t') :
    (∀ k r, t.rounds.get? k = some r → r.workspaceId = round.workspaceId →
        r.roundNumber ≠ round.roundNumber ∧ r.status ≠ .openForReview) ∧
      ∃ rounds, t.rounds.insert? id round = some rounds ∧ t' = { t with rounds := rounds } := by
  simp only [insertRound,bind_ok,ensure_ok,require_ok,pure_ok,beq_iff_eq,Table.count_eq_zero] at h
  obtain ⟨_,_,_,_,_,hnumber,_,hopen,rounds,hrounds,rfl⟩ := h
  refine ⟨?_,rounds,hrounds,rfl⟩
  intro k r hr hspace
  have hn := hnumber k r hr
  have ho := hopen k r hr
  rw [hspace,beq_self_eq_true,Bool.true_and] at hn ho
  exact ⟨beq_eq_false_iff_ne.mp hn,beq_eq_false_iff_ne.mp ho⟩

theorem openReviewRound_ok {expected : String} {r : OpenedRound}
    (h : openReviewRound p expected id db t = .ok (t',r)) :
    (∃ current round, openRound (closeStaleRounds t p.workspaceId db.now) p.workspaceId =
        some (current,round) ∧ t' = closeStaleRounds t p.workspaceId db.now ∧
          r = ⟨current,round,false⟩) ∨
      ∃ build round, openRound (closeStaleRounds t p.workspaceId db.now) p.workspaceId = none ∧
        reviewBaseline db.queue p.workspaceId expected = some build ∧
          round = ReviewRound.opened p
            (nextRoundNumber (closeStaleRounds t p.workspaceId db.now) p.workspaceId) build db.now ∧
            insertRound (closeStaleRounds t p.workspaceId db.now) id round = .ok t' ∧
              r = ⟨id,round,true⟩ := by
  simp only [openReviewRound,bind_ok] at h
  obtain ⟨_,_,_,_,_,_,_,_,h⟩ := h
  split at h
  · next current round hopen =>
    cases h
    exact Or.inl ⟨current,round,hopen,rfl,rfl⟩
  · next hopen =>
    simp only [bind_ok,require_ok,pure_ok,Prod.mk.injEq] at h
    obtain ⟨build,hbuild,_,hinsert,rfl,rfl⟩ := h
    exact Or.inr ⟨build,_,hopen,hbuild,rfl,hinsert,rfl⟩

theorem insertThread_ok {thread : ReviewThread} (h : insertThread t id thread = .ok t') :
    ∃ threads, t.threads.insert? id thread = some threads ∧ t' = { t with threads := threads } := by
  simp only [insertThread,bind_ok,require_ok,pure_ok] at h
  obtain ⟨_,_,_,_,threads,hthreads,rfl⟩ := h
  exact ⟨threads,hthreads,rfl⟩

theorem insertSuggestion_ok {replacement : String} (h : insertSuggestion id replacement t = .ok t') :
    ∃ suggestions, t.suggestions.insert? id (.new replacement) = some suggestions ∧
      t' = { t with suggestions := suggestions } := by
  simp only [insertSuggestion,bind_ok,require_ok,pure_ok] at h
  obtain ⟨suggestions,hsuggestions,rfl⟩ := h
  exact ⟨suggestions,hsuggestions,rfl⟩

structure Created (p : Participant) (input : ReviewThreadInput) (id : Uuid) (db : Papers.Db)
    (t t' : Tables) : Prop where
  role : p.role = .mentor
  fresh : t.threads.get? id = none
  rounds : t'.rounds = t.rounds
  thread : ∃ round approval, openRound t p.workspaceId = some round ∧
    ∀ k, t'.threads.get? k =
      if k = id then some (.new input round.1 p approval db.now) else t.threads.get? k
  others : ∀ k, k ≠ id → t'.suggestions.get? k = t.suggestions.get? k
  suggestion : t'.suggestions.get? id = t.suggestions.get? id ∨
    ∃ replacement, t'.suggestions.get? id = some (.new replacement)

theorem createReviewThread_ok {input : ReviewThreadInput} {fresh : FreshThread} {r : Uuid}
    (h : createReviewThread p input fresh db t = .ok (t',r)) :
    Created p input fresh.thread db t t' := by
  simp only [createReviewThread,bind_ok,ensure_ok,require_ok,pure_ok,decide_eq_true_eq,
    Prod.mk.injEq] at h
  obtain ⟨_,hrole,_,_,_,_,round,hround,_,_,_,_,approval,_,_,hthread,_,hmessage,_,hsource,t₁,hpdf,_,
    hsuggestion,rfl,_⟩ := h
  obtain ⟨threads,hinsert,rfl⟩ := insertThread_ok hthread
  have haside : Aside { t with threads := threads } t₁ :=
    ((insertMessage_ok hmessage).trans (optionally_ok hsource fun _ => insertSourceAnchor_ok)).trans
      (optionally_ok hpdf fun _ => insertPdfAnchor_ok)
  have hget := Table.get?_insert? hinsert
  have hfresh := (Table.insert?_eq_some hinsert).1
  cases hreplacement : input.replacement with
  | none =>
    rw [hreplacement] at hsuggestion
    cases hsuggestion
    refine ⟨hrole,hfresh,haside.rounds,⟨round,approval,hround,?_⟩,?_,Or.inl ?_⟩
    · rw [haside.threads]
      exact hget
    · intro k _
      rw [haside.suggestions]
    · rw [haside.suggestions]
  | some replacement =>
    rw [hreplacement] at hsuggestion
    obtain ⟨suggestions,hinsert',rfl⟩ := insertSuggestion_ok hsuggestion
    have hget' := Table.get?_insert? hinsert'
    refine ⟨hrole,hfresh,haside.rounds,⟨round,approval,hround,?_⟩,?_,Or.inr ⟨replacement,?_⟩⟩
    · rw [haside.threads]
      exact hget
    · intro k hk
      rw [hget' k,if_neg hk,haside.suggestions]
    · rw [hget' fresh.thread,if_pos rfl]

/-! ## Moves -/

abbrev Reviewed := Option ReviewThread × Option ReviewSuggestion

def Tables.reviewed (t : Tables) (id : Uuid) : Reviewed := (t.threads.get? id,t.suggestions.get? id)

structure SameLife (r r' : ReviewThread) : Prop where
  state : r'.state = r.state
  resolvedAt : r'.resolvedAt = r.resolvedAt
  threadType : r'.threadType = r.threadType
  reviewRoundId : r'.reviewRoundId = r.reviewRoundId
  workspaceId : r'.workspaceId = r.workspaceId
  createdAt : r'.createdAt = r.createdAt

theorem SameLife.refl (r : ReviewThread) : SameLife r r := ⟨rfl,rfl,rfl,rfl,rfl,rfl⟩

def Edited (w : World) (id : Uuid) (thread : ReviewThread) (writer : UserId) (sequence : ℕ) : Prop :=
  ∃ anchor u, w.tables.sourceAnchors.get? id = some anchor ∧ u ∈ w.papers.db.updates ∧
    u.id = sequence ∧ u.document.room = ⟨thread.workspaceId,anchor.fileId⟩ ∧
      u.actorUserId = writer ∧ thread.createdAt ≤ w.updateCreatedAt sequence

inductive Moved (w : World) (id : Uuid) : Label → Reviewed → Reviewed → Prop
  | absent (label : Label) : Moved w id label (none,none) (none,none)
  | created (label : Label) {r : ReviewThread} {s : Option ReviewSuggestion}
      (hstate : r.state = .opened) (hresolved : r.resolvedAt = none)
      (hpending : ∀ a, s = some a → a.status = .pending) : Moved w id label (none,none) (some r,s)
  | kept (label : Label) {r r' : ReviewThread} {s : Option ReviewSuggestion} (hlife : SameLife r r') :
      Moved w id label (some r,s) (some r',s)
  | transitioned {i : ℕ} {target : ThreadState} {p : Participant} {r : ReviewThread}
      {s : Option ReviewSuggestion} (hp : w.participants[i]? = some p)
      (hvalid : transitionValid p.role r.threadType r.state target = true) :
      Moved w id (.transitionReviewThread i id target) (some r,s)
        (some (r.move target w.papers.db.now),s)
  | accepted {i sequence : ℕ} {p : Participant} {r : ReviewThread} {s : ReviewSuggestion}
      (hp : w.participants[i]? = some p) (hrole : p.role = .writer) (hpending : s.status = .pending)
      (hedit : Edited w id r p.actor sequence) :
      Moved w id (.acceptReviewSuggestion i id sequence) (some r,some s)
        (some (r.answer .addressed w.papers.db.now),some (s.accept p.actor w.papers.db.now))
  | rejected {i : ℕ} {reason : Option String} {p : Participant} {r : ReviewThread}
      {s : ReviewSuggestion} (hp : w.participants[i]? = some p) (hrole : p.role = .writer)
      (hpending : s.status = .pending) :
      Moved w id (.rejectReviewSuggestion i id reason) (some r,some s)
        (some (r.answer .rejected w.papers.db.now),some (s.reject reason w.papers.db.now))

def Owned (t : Tables) : Prop := ∀ id, t.threads.get? id = none → t.suggestions.get? id = none

variable {codec : Codec} {w : World}

theorem World.serve_cases {α : Type} (q : Tables → Prop) {i : ℕ}
    {f : Participant → Tables → Except V2Error (Tables × α)} (hold : q w.tables)
    (hnew : ∀ p t' a, w.participants[i]? = some p → f p w.tables = .ok (t',a) → q t') :
    q (w.serve i f).tables := by
  unfold World.serve
  split
  · exact hold
  · next p hp => exact commit_cases q hold (fun t' a h => hnew p t' a hp h)

theorem Moved.same (hown : Owned t) {label : Label} (id : Uuid) :
    Moved w id label (t.reviewed id) (t.reviewed id) := by
  unfold Tables.reviewed
  cases hr : t.threads.get? id with
  | none =>
    rw [hown id hr]
    exact .absent label
  | some r => exact .kept label (.refl r)

theorem reviewed_updateThread (t : Tables) (k : Uuid) (f : ReviewThread → ReviewThread) (id : Uuid) :
    (updateThread t k f).reviewed id =
      if id = k then ((t.threads.get? id).map f,t.suggestions.get? id) else t.reviewed id := by
  unfold Tables.reviewed updateThread
  dsimp only
  rw [Table.get?_modify]
  by_cases hk : id = k
  · rw [if_pos hk,if_pos hk]
  · rw [if_neg hk,if_neg hk]

theorem Moved.updated (hown : Owned t) {label : Label} {k : Uuid} (f : ReviewThread → ReviewThread)
    (hf : ∀ r, SameLife r (f r)) (haside : Aside t t') (id : Uuid) :
    Moved w id label (t.reviewed id) ((updateThread t' k f).reviewed id) := by
  have hsame : t'.reviewed id = t.reviewed id := by
    unfold Tables.reviewed
    rw [haside.threads,haside.suggestions]
  rw [reviewed_updateThread,hsame]
  by_cases hk : id = k
  · rw [if_pos hk,haside.threads,haside.suggestions]
    unfold Tables.reviewed
    cases hr : t.threads.get? id with
    | none =>
      rw [hown id hr]
      exact .absent label
    | some r => exact .kept label (hf r)
  · rw [if_neg hk]
    exact .same hown id

theorem answerSuggestion_ok {answer : ReviewSuggestion → ReviewSuggestion}
    (h : answerSuggestion t id answer = .ok t') :
    ∃ s, t.suggestions.get? id = some s ∧ s.status = .pending ∧
      t' = { t with suggestions := t.suggestions.modify id answer } := by
  simp only [answerSuggestion,bind_ok,ensure_ok,pure_ok,Option.any_eq_true,beq_iff_eq] at h
  obtain ⟨_,⟨s,hs,hpending⟩,rfl⟩ := h
  exact ⟨s,hs,hpending,rfl⟩

theorem reviewed_answered {thread : ReviewThread} {s : ReviewSuggestion}
    (hthread : t.threads.get? id = some thread) (hs : t.suggestions.get? id = some s)
    (answer : ReviewSuggestion → ReviewSuggestion) (f : ReviewThread → ReviewThread) (k : Uuid) :
    (updateThread { t with suggestions := t.suggestions.modify id answer } id f).reviewed k =
      if k = id then (some (f thread),some (answer s)) else t.reviewed k := by
  rw [reviewed_updateThread]
  by_cases hk : k = id
  · subst hk
    simp [hthread,hs]
  · rw [if_neg hk,if_neg hk]
    simp [Tables.reviewed,Table.get?_modify_of_ne _ hk]

theorem Created.moved (hown : Owned t) {input : ReviewThreadInput} {k : Uuid}
    (h : Created p input k db t t') {label : Label} (id : Uuid) :
    Moved w id label (t.reviewed id) (t'.reviewed id) := by
  obtain ⟨round,approval,-,hthreads⟩ := h.thread
  by_cases hid : id = k
  · subst hid
    have hnone : t.suggestions.get? id = none := hown id h.fresh
    unfold Tables.reviewed
    rw [h.fresh,hnone,hthreads,if_pos rfl]
    refine .created label rfl rfl ?_
    intro s hs
    rcases h.suggestion with hsame | ⟨replacement,hreplacement⟩
    · rw [hsame,hnone] at hs
      cases hs
    · rw [hreplacement] at hs
      cases hs
      rfl
  · have hsame : t'.reviewed id = t.reviewed id := by
      rw [Tables.reviewed,Tables.reviewed,hthreads,if_neg hid,h.others id hid]
    rw [hsame]
    exact .same hown id

theorem acceptReviewSuggestion_ok {sequence : ℕ} {createdAt : ℕ → Timestamp} {u : Unit}
    (h : acceptReviewSuggestion p id sequence createdAt db t = .ok (t',u)) :
    p.role = .writer ∧ ∃ thread anchor row s, t.threads.get? id = some thread ∧
      t.sourceAnchors.get? id = some anchor ∧ row ∈ db.updates ∧ row.id = sequence ∧
        row.document.room = ⟨thread.workspaceId,anchor.fileId⟩ ∧ row.actorUserId = p.actor ∧
          thread.createdAt ≤ createdAt row.id ∧ t.suggestions.get? id = some s ∧
            s.status = .pending ∧ t' = updateThread
              { t with suggestions := t.suggestions.modify id (ReviewSuggestion.accept p.actor db.now) }
              id (ReviewThread.answer .addressed db.now) := by
  simp only [acceptReviewSuggestion,bind_ok,ensure_ok,require_ok,pure_ok,lockThread_ok,
    decide_eq_true_eq,Prod.mk.injEq,List.any_eq_true,writerEdit,Bool.and_eq_true,beq_iff_eq] at h
  obtain ⟨_,hrole,thread,⟨hthread,_⟩,anchor,hanchor,_,_,_,_,_,⟨row,hrow,hid,⟨hroom,hactor⟩,htime⟩,_,
    hanswer,rfl,_⟩ := h
  obtain ⟨s,hs,hpending,rfl⟩ := answerSuggestion_ok hanswer
  exact ⟨hrole,thread,anchor,row,s,hthread,hanchor,hrow,hid,hroom,hactor,htime,hs,hpending,rfl⟩

theorem rejectReviewSuggestion_ok {reason : Option String} {u : Unit}
    (h : rejectReviewSuggestion p id reason db t = .ok (t',u)) :
    p.role = .writer ∧ ∃ thread s, t.threads.get? id = some thread ∧
      t.suggestions.get? id = some s ∧ s.status = .pending ∧ t' = updateThread
        { t with suggestions := t.suggestions.modify id (ReviewSuggestion.reject reason db.now) }
        id (ReviewThread.answer .rejected db.now) := by
  simp only [rejectReviewSuggestion,bind_ok,ensure_ok,pure_ok,lockThread_ok,decide_eq_true_eq,
    Prod.mk.injEq] at h
  obtain ⟨_,hrole,thread,⟨hthread,_⟩,_,hanswer,rfl,_⟩ := h
  obtain ⟨s,hs,hpending,rfl⟩ := answerSuggestion_ok hanswer
  exact ⟨hrole,thread,s,hthread,hs,hpending,rfl⟩

theorem act_moved (hown : Owned w.tables) (label : Label) (id : Uuid) :
    Moved w id label (w.tables.reviewed id) ((w.act codec label).tables.reviewed id) := by
  cases label with
  | papers label => exact .same hown id
  | reviewPaper actor paperId =>
    dsimp only [World.act]
    split <;> exact .same hown id
  | openReviewRound i expected round =>
    refine World.serve_cases (fun t => Moved w id _ _ (t.reviewed id)) (.same hown id) ?_
    intro p t' a _ h
    rcases openReviewRound_ok h with ⟨_,_,_,rfl,_⟩ | ⟨_,_,_,_,_,hinsert,_⟩
    · exact .same hown id
    · obtain ⟨_,rounds,_,rfl⟩ := insertRound_ok hinsert
      exact .same hown id
  | closeReviewRound i round =>
    refine World.serve_cases (fun t => Moved w id _ _ (t.reviewed id)) (.same hown id) ?_
    intro p t' a _ h
    simp only [closeReviewRound,bind_ok,pure_ok,Prod.mk.injEq] at h
    obtain ⟨_,_,_,_,_,_,_,_,_,_,rfl,_⟩ := h
    exact .same hown id
  | createReviewThread i input fresh =>
    refine World.serve_cases (fun t => Moved w id _ _ (t.reviewed id)) (.same hown id) ?_
    intro p t' a _ h
    exact (createReviewThread_ok h).moved hown id
  | addReviewMessage i thread body message =>
    refine World.serve_cases (fun t => Moved w id _ _ (t.reviewed id)) (.same hown id) ?_
    intro p t' a _ h
    simp only [addReviewMessage,bind_ok,pure_ok,Prod.mk.injEq] at h
    obtain ⟨_,_,_,_,_,hmessage,rfl,_⟩ := h
    exact .updated hown (ReviewThread.touch _) (fun _ => ⟨rfl,rfl,rfl,rfl,rfl,rfl⟩)
      (insertMessage_ok hmessage) id
  | transitionReviewThread i thread target =>
    refine World.serve_cases (fun t => Moved w id _ _ (t.reviewed id)) (.same hown id) ?_
    intro p t' a hp h
    simp only [transitionReviewThread,bind_ok,ensure_ok,pure_ok,lockThread_ok,Prod.mk.injEq] at h
    obtain ⟨current,⟨hcurrent,_⟩,_,hvalid,rfl,_⟩ := h
    rw [reviewed_updateThread]
    by_cases hid : id = thread
    · subst hid
      rw [if_pos rfl,Tables.reviewed,hcurrent]
      exact .transitioned hp hvalid
    · rw [if_neg hid]
      exact .same hown id
  | updateReviewControls i thread severity category assigned dueAt =>
    refine World.serve_cases (fun t => Moved w id _ _ (t.reviewed id)) (.same hown id) ?_
    intro p t' a _ h
    simp only [updateReviewControls,bind_ok,pure_ok,Prod.mk.injEq] at h
    obtain ⟨_,_,_,_,_,_,rfl,_⟩ := h
    exact .updated hown (ReviewThread.control severity category assigned dueAt _)
      (fun _ => ⟨rfl,rfl,rfl,rfl,rfl,rfl⟩) (.refl _) id
  | acceptReviewSuggestion i thread sequence =>
    refine World.serve_cases (fun t => Moved w id _ _ (t.reviewed id)) (.same hown id) ?_
    intro p t' a hp h
    obtain ⟨hrole,row,anchor,u,s,hrow,hanchor,hu,hid,hroom,hactor,htime,hs,hpending,rfl⟩ :=
      acceptReviewSuggestion_ok h
    rw [reviewed_answered hrow hs]
    by_cases hk : id = thread
    · subst hk
      rw [if_pos rfl,Tables.reviewed,hrow,hs]
      exact .accepted hp hrole hpending ⟨anchor,u,hanchor,hu,hid,hroom,hactor,hid ▸ htime⟩
    · rw [if_neg hk]
      exact .same hown id
  | rejectReviewSuggestion i thread reason =>
    refine World.serve_cases (fun t => Moved w id _ _ (t.reviewed id)) (.same hown id) ?_
    intro p t' a hp h
    obtain ⟨hrole,row,s,hrow,hs,hpending,rfl⟩ := rejectReviewSuggestion_ok h
    rw [reviewed_answered hrow hs]
    by_cases hk : id = thread
    · subst hk
      rw [if_pos rfl,Tables.reviewed,hrow,hs]
      exact .rejected hp hrole hpending
    · rw [if_neg hk]
      exact .same hown id

variable (codec) in
theorem step_moved (hown : Owned w.tables) (label : Label) (id : Uuid) :
    Moved w id label (w.tables.reviewed id) ((w.step codec label).tables.reviewed id) :=
  act_moved hown label id

theorem step_owned (hown : Owned w.tables) (label : Label) : Owned (w.step codec label).tables := by
  intro id hnone
  have hmoved := step_moved codec hown label id
  generalize w.tables.reviewed id = before at hmoved
  generalize hafter : (w.step codec label).tables.reviewed id = after at hmoved
  obtain ⟨hthread,hsuggestion⟩ := Prod.mk.inj hafter
  rw [hnone] at hthread
  rw [hsuggestion]
  cases hmoved with
  | absent => rfl
  | _ => cases hthread

end LatexCore.Reviews
