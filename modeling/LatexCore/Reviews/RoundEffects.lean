import LatexCore.Reviews.Effects

/-! # What a step does to the rounds

The inversion of the transactions on the rounds. A step leaves every round as it
is, closes some of them, or creates one while no other round of its workspace is
open. The schema of the rounds and the answers to two openings follow from it.
-/
namespace LatexCore.Reviews
open Core Foundation Workspace
variable {codec : Codec} {w : World} {db : Papers.Db} {t t' : Tables} {p : Participant} {id : Uuid}

structure RoundsSound (t : Tables) : Prop where
  numbered : ∀ id id' r r', t.rounds.get? id = some r → t.rounds.get? id' = some r' →
    r.workspaceId = r'.workspaceId → r.roundNumber = r'.roundNumber → id = id'
  single : ∀ id id' r r', t.rounds.get? id = some r → t.rounds.get? id' = some r' →
    r.workspaceId = r'.workspaceId → r.status = .openForReview → r'.status = .openForReview → id = id'

def Closes (now : Timestamp) (r r' : ReviewRound) : Prop :=
  r' = r ∨ (r.status = .legacy ∨ r.status = .openForReview) ∧ r' = r.close now

theorem Closes.fields {now : Timestamp} {r r' : ReviewRound} (h : Closes now r r') :
    r'.workspaceId = r.workspaceId ∧ r'.roundNumber = r.roundNumber ∧
      (r'.status = .openForReview → r.status = .openForReview) := by
  rcases h with rfl | ⟨-,rfl⟩
  · exact ⟨rfl,rfl,id⟩
  · refine ⟨rfl,rfl,?_⟩
    intro hopen
    cases hopen

theorem Closes.settled {now : Timestamp} {r r' : ReviewRound} (h : Closes now r r')
    (hlegacy : r.status ≠ .legacy) (hopen : r.status ≠ .openForReview) : r' = r := by
  rcases h with rfl | ⟨hstatus,-⟩
  · rfl
  · exact absurd hstatus (not_or.mpr ⟨hlegacy,hopen⟩)

def RoundsClose (now : Timestamp) (t t' : Tables) : Prop :=
  ∀ k, Option.Rel (Closes now) (t.rounds.get? k) (t'.rounds.get? k)

theorem RoundsClose.of_eq (now : Timestamp) (h : t'.rounds = t.rounds) : RoundsClose now t t' := by
  intro k
  rw [h]
  cases t.rounds.get? k with
  | none => exact .none
  | some r => exact .some (Or.inl rfl)

theorem RoundsClose.row {now : Timestamp} (h : RoundsClose now t t') {r : ReviewRound}
    (hr : t.rounds.get? id = some r) : ∃ r', t'.rounds.get? id = some r' ∧ Closes now r r' := by
  have hrow := h id
  rw [hr] at hrow
  generalize t'.rounds.get? id = o at hrow ⊢
  cases hrow with
  | some hcloses => exact ⟨_,rfl,hcloses⟩

theorem RoundsClose.origin {now : Timestamp} (h : RoundsClose now t t') {r' : ReviewRound}
    (hr' : t'.rounds.get? id = some r') : ∃ r, t.rounds.get? id = some r ∧ Closes now r r' := by
  have hrow := h id
  rw [hr'] at hrow
  generalize t.rounds.get? id = o at hrow ⊢
  cases hrow with
  | some hcloses => exact ⟨_,rfl,hcloses⟩

theorem RoundsSound.close {now : Timestamp} (hs : RoundsSound t) (h : RoundsClose now t t') :
    RoundsSound t' where
  numbered := by
    intro k k' r r' hr hr' hspace hnumber
    obtain ⟨r₀,hr₀,hcloses⟩ := h.origin hr
    obtain ⟨r₁,hr₁,hcloses'⟩ := h.origin hr'
    obtain ⟨hw,hn,-⟩ := hcloses.fields
    obtain ⟨hw',hn',-⟩ := hcloses'.fields
    exact hs.numbered k k' r₀ r₁ hr₀ hr₁ (by rw [← hw,← hw',hspace]) (by rw [← hn,← hn',hnumber])
  single := by
    intro k k' r r' hr hr' hspace hopen hopen'
    obtain ⟨r₀,hr₀,hcloses⟩ := h.origin hr
    obtain ⟨r₁,hr₁,hcloses'⟩ := h.origin hr'
    obtain ⟨hw,-,ho⟩ := hcloses.fields
    obtain ⟨hw',-,ho'⟩ := hcloses'.fields
    exact hs.single k k' r₀ r₁ hr₀ hr₁ (by rw [← hw,← hw',hspace]) (ho hopen) (ho' hopen')

theorem stale_status {r : ReviewRound} (h : r.stale = true) :
    (r.status = .legacy ∨ r.status = .openForReview) ∧ r.submitted = false := by
  simpa [ReviewRound.stale] using h

theorem get?_closeStaleRounds (t : Tables) (x : WorkspaceId) (now : Timestamp) (k : Uuid) :
    (closeStaleRounds t x now).rounds.get? k = (t.rounds.get? k).map
      (fun r => if r.workspaceId == x && r.stale then r.close now else r) :=
  Table.get?_updateWhere ..

theorem closeStaleRounds_close (t : Tables) (x : WorkspaceId) (now : Timestamp) :
    RoundsClose now t (closeStaleRounds t x now) := by
  intro k
  rw [get?_closeStaleRounds]
  cases t.rounds.get? k with
  | none => exact .none
  | some r =>
    refine .some ?_
    dsimp only
    split
    · next hstale =>
      rw [Bool.and_eq_true] at hstale
      exact Or.inr ⟨(stale_status hstale.2).1,rfl⟩
    · exact Or.inl rfl

theorem openRound_some {x : WorkspaceId} {round : ReviewRound} (h : openRound t x = some (id,round)) :
    t.rounds.get? id = some round ∧ round.workspaceId = x ∧ round.status = .openForReview := by
  obtain ⟨hround,hmatch⟩ := Table.best_mem h
  simp only [Bool.and_eq_true,beq_iff_eq] at hmatch
  exact ⟨hround,hmatch.1,hmatch.2⟩

theorem closeStaleRounds_submitted {x : WorkspaceId} {now : Timestamp} {round : ReviewRound}
    (hround : (closeStaleRounds t x now).rounds.get? id = some round) (hspace : round.workspaceId = x)
    (hopen : round.status = .openForReview) :
    t.rounds.get? id = some round ∧ round.submitted = true := by
  rw [get?_closeStaleRounds,Option.map_eq_some_iff] at hround
  obtain ⟨r,hr,hclosed⟩ := hround
  split at hclosed
  · rw [← hclosed] at hopen
    cases hopen
  · next hstale =>
    subst hclosed
    refine ⟨hr,?_⟩
    simpa [ReviewRound.stale,hspace,hopen] using hstale

theorem lt_nextRoundNumber {x : WorkspaceId} {r : ReviewRound} (hr : t.rounds.get? id = some r)
    (hspace : r.workspaceId = x) : r.roundNumber < nextRoundNumber t x := by
  have hfold : ∀ (rows : List (Uuid × ReviewRound)) (n : ℕ),
      n ≤ rows.foldl (fun n r => max n r.2.roundNumber) n ∧
        ∀ r ∈ rows, r.2.roundNumber ≤ rows.foldl (fun n r => max n r.2.roundNumber) n := by
    intro rows
    induction rows with
    | nil => simp
    | cons first rest ih =>
      intro n
      obtain ⟨hstart,hrest⟩ := ih (max n first.2.roundNumber)
      refine ⟨le_trans (le_max_left ..) hstart,?_⟩
      intro r hr
      rcases List.mem_cons.mp hr with rfl | hr
      · exact le_trans (le_max_right ..) hstart
      · exact hrest r hr
  have hmem : (id,r) ∈ t.rounds.rows.filter (fun r => r.2.workspaceId == x) :=
    List.mem_filter.mpr ⟨Table.mem_rows_iff.mpr hr,by simp [hspace]⟩
  exact Nat.lt_succ_of_le ((hfold _ 0).2 (id,r) hmem)

/-- A round that a step creates, over the promoted build of the desired state. -/
structure RoundOpened (db : Papers.Db) (t : Tables) (p : Participant) (id : Uuid) (t' : Tables)
    (round : ReviewRound) : Prop where
  fresh : t.rounds.get? id = none
  row : t'.rounds.get? id = some round
  others : ∀ k, k ≠ id →
    t'.rounds.get? k = (closeStaleRounds t p.workspaceId db.now).rounds.get? k
  workspace : round.workspaceId = p.workspaceId
  status : round.status = .openForReview
  submitted : round.submitted = true
  highest : ∀ k r, t.rounds.get? k = some r → r.workspaceId = p.workspaceId →
    r.roundNumber < round.roundNumber
  alone : ∀ k r, k ≠ id → t'.rounds.get? k = some r → r.workspaceId = p.workspaceId →
    r.status ≠ .openForReview
  baseline : ∃ expected build, reviewBaseline db.queue p.workspaceId expected = some build ∧
    round.baselineBuildId = some build.1 ∧ round.baselineVersionId = build.2.versionId ∧
      round.baselineStateHash = some build.2.stateHash

theorem RoundsSound.opened (hs : RoundsSound t) {round : ReviewRound}
    (h : RoundOpened db t p id t' round) : RoundsSound t' := by
  have hclosed := hs.close (closeStaleRounds_close t p.workspaceId db.now)
  have hclose := closeStaleRounds_close t p.workspaceId db.now
  have hlow : ∀ k r, k ≠ id → t'.rounds.get? k = some r → r.workspaceId = p.workspaceId →
      r.roundNumber < round.roundNumber := by
    intro k r hk hr hspace
    rw [h.others k hk] at hr
    obtain ⟨r₀,hr₀,hcloses⟩ := hclose.origin hr
    obtain ⟨hw,hn,-⟩ := hcloses.fields
    rw [hn]
    exact h.highest k r₀ hr₀ (hw ▸ hspace)
  constructor
  · intro k k' r r' hr hr' hspace hnumber
    by_cases hk : k = id
    · by_cases hk' : k' = id
      · rw [hk,hk']
      · subst hk
        rw [h.row] at hr
        cases hr
        have hlt := hlow k' r' hk' hr' (hspace.symm.trans h.workspace)
        omega
    · by_cases hk' : k' = id
      · subst hk'
        rw [h.row] at hr'
        cases hr'
        have hlt := hlow k r hk hr (hspace.trans h.workspace)
        omega
      · rw [h.others k hk] at hr
        rw [h.others k' hk'] at hr'
        exact hclosed.numbered k k' r r' hr hr' hspace hnumber
  · intro k k' r r' hr hr' hspace hopen hopen'
    by_cases hk : k = id
    · by_cases hk' : k' = id
      · rw [hk,hk']
      · subst hk
        rw [h.row] at hr
        cases hr
        exact absurd hopen' (h.alone k' r' hk' hr' (hspace.symm.trans h.workspace))
    · by_cases hk' : k' = id
      · subst hk'
        rw [h.row] at hr'
        cases hr'
        exact absurd hopen (h.alone k r hk hr (hspace.trans h.workspace))
      · rw [h.others k hk] at hr
        rw [h.others k' hk'] at hr'
        exact hclosed.single k k' r r' hr hr' hspace hopen hopen'

theorem openReviewRound_cases {expected : String} {r : OpenedRound}
    (h : openReviewRound p expected id db t = .ok (t',r)) :
    (r.created = false ∧ t' = closeStaleRounds t p.workspaceId db.now ∧
        t.rounds.get? r.id = some r.round ∧ t'.rounds.get? r.id = some r.round ∧
          r.round.workspaceId = p.workspaceId ∧ r.round.status = .openForReview ∧
            r.round.submitted = true) ∨
      r.created = true ∧ r.id = id ∧ RoundOpened db t p id t' r.round := by
  rcases openReviewRound_ok h with ⟨current,round,hopen,rfl,rfl⟩ |
    ⟨build,round,hnone,hbaseline,hround,hinsert,rfl⟩
  · obtain ⟨hget,hspace,hstatus⟩ := openRound_some hopen
    obtain ⟨hold,hsubmitted⟩ := closeStaleRounds_submitted hget hspace hstatus
    exact Or.inl ⟨rfl,rfl,hold,hget,hspace,hstatus,hsubmitted⟩
  · obtain ⟨hunique,rounds,hrounds,rfl⟩ := insertRound_ok hinsert
    obtain ⟨hfresh,-⟩ := Table.insert?_eq_some hrounds
    have hget := Table.get?_insert? hrounds
    have hclose := closeStaleRounds_close t p.workspaceId db.now
    have hspace : round.workspaceId = p.workspaceId := by rw [hround]; rfl
    refine Or.inr ⟨rfl,rfl,?_⟩
    exact {
      fresh := by
        cases hold : t.rounds.get? id with
        | none => rfl
        | some r =>
          obtain ⟨r',hr',-⟩ := hclose.row hold
          rw [hr'] at hfresh
          cases hfresh
      row := (hget id).trans (if_pos rfl)
      others := fun k hk => (hget k).trans (if_neg hk)
      workspace := hspace
      status := by rw [hround]; rfl
      submitted := by rw [hround]; rfl
      highest := by
        intro k r hr hw
        obtain ⟨r',hr',hcloses⟩ := hclose.row hr
        obtain ⟨hw',hn,-⟩ := hcloses.fields
        have hlt := lt_nextRoundNumber hr' (hw'.trans hw)
        rw [hn] at hlt
        rw [hround]
        exact hlt
      alone := by
        intro k r hk hr hw
        rw [show ({ closeStaleRounds t p.workspaceId db.now with rounds := rounds } : Tables).rounds.get? k
          = _ from (hget k).trans (if_neg hk)] at hr
        exact (hunique k r hr (hw.trans hspace.symm)).2
      baseline := ⟨expected,build,hbaseline,by rw [hround]; rfl,by rw [hround]; rfl,
        by rw [hround]; rfl⟩ }

theorem closeReviewRound_ok {u : Unit} (h : closeReviewRound p id db t = .ok (t',u)) :
    ∃ r, t.rounds.get? id = some r ∧ r.status = .openForReview ∧ p.role = .writer ∧
      t' = { t with rounds := t.rounds.modify id (ReviewRound.close db.now) } := by
  simp only [closeReviewRound,bind_ok,ensure_ok,require_ok,pure_ok,Option.filter_eq_some_iff,
    decide_eq_true_eq,Prod.mk.injEq] at h
  obtain ⟨_,hrole,_,_,_,_,r,⟨hr,_⟩,_,hopen,rfl,_⟩ := h
  exact ⟨r,hr,hopen,hrole,rfl⟩

theorem modify_close {now : Timestamp} {r : ReviewRound} (hr : t.rounds.get? id = some r)
    (hopen : r.status = .openForReview) :
    RoundsClose now t { t with rounds := t.rounds.modify id (ReviewRound.close now) } := by
  intro k
  dsimp only
  rw [Table.get?_modify]
  split
  · next hk =>
    rw [hk,hr]
    exact .some (Or.inr ⟨Or.inr hopen,rfl⟩)
  · exact RoundsClose.of_eq now rfl k

inductive RoundsMoved (w : World) : Label → Tables → Prop
  | same (label : Label) {t' : Tables} (h : t'.rounds = w.tables.rounds) : RoundsMoved w label t'
  | returned {i : ℕ} {expected : String} {id : Uuid} (x : WorkspaceId) :
      RoundsMoved w (.openReviewRound i expected id) (closeStaleRounds w.tables x w.papers.db.now)
  | opened {i : ℕ} {expected : String} {id : Uuid} {p : Participant} {t' : Tables}
      {round : ReviewRound} (hp : w.participants[i]? = some p)
      (h : RoundOpened w.papers.db w.tables p id t' round) :
      RoundsMoved w (.openReviewRound i expected id) t'
  | ended {i : ℕ} {id : Uuid} {p : Participant} {r : ReviewRound}
      (hp : w.participants[i]? = some p) (hrole : p.role = .writer)
      (hr : w.tables.rounds.get? id = some r) (hopen : r.status = .openForReview) :
      RoundsMoved w (.closeReviewRound i id)
        { w.tables with rounds := w.tables.rounds.modify id (ReviewRound.close w.papers.db.now) }

theorem act_rounds (codec : Codec) (w : World) (label : Label) :
    RoundsMoved w label (w.act codec label).tables := by
  cases label with
  | papers label => exact .same _ rfl
  | reviewPaper actor paperId =>
    dsimp only [World.act]
    split <;> exact .same _ rfl
  | openReviewRound i expected round =>
    refine World.serve_cases (RoundsMoved w _) (.same _ rfl) ?_
    intro p t' a hp h
    rcases openReviewRound_cases h with ⟨-,rfl,-⟩ | ⟨-,-,hopened⟩
    · exact .returned p.workspaceId
    · exact .opened hp hopened
  | closeReviewRound i round =>
    refine World.serve_cases (RoundsMoved w _) (.same _ rfl) ?_
    intro p t' a hp h
    obtain ⟨r,hr,hopen,hrole,rfl⟩ := closeReviewRound_ok h
    exact .ended hp hrole hr hopen
  | createReviewThread i input fresh =>
    refine World.serve_cases (RoundsMoved w _) (.same _ rfl) ?_
    exact fun _ _ _ _ h => .same _ (createReviewThread_ok h).rounds
  | addReviewMessage i thread body message =>
    refine World.serve_cases (RoundsMoved w _) (.same _ rfl) ?_
    intro p t' a _ h
    simp only [addReviewMessage,bind_ok,pure_ok,Prod.mk.injEq] at h
    obtain ⟨_,_,_,_,_,hmessage,rfl,_⟩ := h
    exact .same _ (insertMessage_ok hmessage).rounds
  | transitionReviewThread i thread target =>
    refine World.serve_cases (RoundsMoved w _) (.same _ rfl) ?_
    intro p t' a _ h
    simp only [transitionReviewThread,bind_ok,pure_ok,Prod.mk.injEq] at h
    obtain ⟨_,_,_,_,rfl,_⟩ := h
    exact .same _ rfl
  | updateReviewControls i thread severity category assigned dueAt =>
    refine World.serve_cases (RoundsMoved w _) (.same _ rfl) ?_
    intro p t' a _ h
    simp only [updateReviewControls,bind_ok,pure_ok,Prod.mk.injEq] at h
    obtain ⟨_,_,_,_,_,_,rfl,_⟩ := h
    exact .same _ rfl
  | acceptReviewSuggestion i thread sequence =>
    refine World.serve_cases (RoundsMoved w _) (.same _ rfl) ?_
    intro p t' a _ h
    obtain ⟨_,_,_,_,_,_,_,_,_,_,_,_,_,_,rfl⟩ := acceptReviewSuggestion_ok h
    exact .same _ rfl
  | rejectReviewSuggestion i thread reason =>
    refine World.serve_cases (RoundsMoved w _) (.same _ rfl) ?_
    intro p t' a _ h
    obtain ⟨_,_,_,_,_,_,rfl⟩ := rejectReviewSuggestion_ok h
    exact .same _ rfl

theorem step_rounds (codec : Codec) (w : World) (label : Label) :
    RoundsMoved w label (w.step codec label).tables := act_rounds codec w label

theorem RoundsMoved.sound {label : Label} (hs : RoundsSound w.tables) (h : RoundsMoved w label t') :
    RoundsSound t' := by
  cases h with
  | same _ h => exact hs.close (.of_eq w.papers.db.now h)
  | returned x => exact hs.close (closeStaleRounds_close _ x _)
  | opened hp h => exact hs.opened h
  | ended hp hrole hr hopen => exact hs.close (modify_close hr hopen)

theorem RoundsMoved.row {label : Label} (h : RoundsMoved w label t') {r : ReviewRound}
    (hr : w.tables.rounds.get? id = some r) :
    ∃ r', t'.rounds.get? id = some r' ∧ Closes w.papers.db.now r r' := by
  cases h with
  | same _ h => exact (RoundsClose.of_eq _ h).row hr
  | returned x => exact (closeStaleRounds_close _ x _).row hr
  | @opened _ _ k p _ round hp h =>
    have hne : id ≠ k := by
      rintro rfl
      rw [h.fresh] at hr
      cases hr
    rw [h.others id hne]
    exact (closeStaleRounds_close _ _ _).row hr
  | ended hp hrole hr' hopen => exact (modify_close hr' hopen).row hr

theorem RoundsMoved.submitted {label : Label} (h : RoundsMoved w label t') {r : ReviewRound}
    (hr : w.tables.rounds.get? id = some r) (hsubmitted : r.submitted = true) :
    t'.rounds.get? id = some r ∨ ∃ i p, label = .closeReviewRound i id ∧
      w.participants[i]? = some p ∧ p.role = .writer ∧
        t'.rounds.get? id = some (r.close w.papers.db.now) := by
  have hkept : ∀ x, (closeStaleRounds w.tables x w.papers.db.now).rounds.get? id = some r := by
    intro x
    rw [get?_closeStaleRounds,hr]
    simp [ReviewRound.stale,hsubmitted]
  cases h with
  | same _ h =>
    rw [h]
    exact Or.inl hr
  | returned x => exact Or.inl (hkept x)
  | @opened _ _ k p _ round hp h =>
    have hne : id ≠ k := by
      rintro rfl
      rw [h.fresh] at hr
      cases hr
    exact Or.inl ((h.others id hne).trans (hkept _))
  | @ended i k p r' hp hrole hr' hopen =>
    dsimp only
    rw [Table.get?_modify]
    split
    · next hk =>
      subst hk
      rw [hr]
      exact Or.inr ⟨i,p,rfl,hp,hrole,rfl⟩
    · exact Or.inl hr

theorem RoundsMoved.new {label : Label} (h : RoundsMoved w label t') {r : ReviewRound}
    (hnone : w.tables.rounds.get? id = none) (hr : t'.rounds.get? id = some r) :
    ∃ i expected p, label = .openReviewRound i expected id ∧ w.participants[i]? = some p ∧
      RoundOpened w.papers.db w.tables p id t' r := by
  have hold : ∀ {t' : Tables}, RoundsClose w.papers.db.now w.tables t' →
      t'.rounds.get? id ≠ some r := by
    intro t' hclose hr
    obtain ⟨_,hr₀,_⟩ := hclose.origin hr
    rw [hnone] at hr₀
    cases hr₀
  cases h with
  | same _ h => exact absurd hr (hold (.of_eq _ h))
  | returned x => exact absurd hr (hold (closeStaleRounds_close _ x _))
  | @opened i expected k p _ round hp h =>
    by_cases hk : id = k
    · subst hk
      rw [h.row] at hr
      cases hr
      exact ⟨i,expected,p,rfl,hp,h⟩
    · rw [h.others id hk] at hr
      exact absurd hr (hold (closeStaleRounds_close _ _ _))
  | ended hp hrole hr' hopen => exact absurd hr (hold (modify_close hr' hopen))

/-! ## Threads -/

def OfOpenRound (t : Tables) (r : ReviewThread) : Prop :=
  ∃ round, t.rounds.get? r.reviewRoundId = some round ∧ round.workspaceId = r.workspaceId ∧
    round.status = .openForReview

def GatedBy (t : Tables) (id : Uuid) (t' : Tables) : Prop :=
  ∀ r, t'.threads.get? id = some r → OfOpenRound t r

/-- A new thread is of the round that is open when it is created. -/
theorem act_gated (label : Label) (hnone : w.tables.threads.get? id = none) :
    GatedBy w.tables id (w.act codec label).tables := by
  have hkeep : ∀ {t' : Tables}, t'.threads = w.tables.threads → GatedBy w.tables id t' := by
    intro t' hsame r hr
    rw [hsame,hnone] at hr
    cases hr
  have hupdate : ∀ {t' : Tables} (k : Uuid) (f : ReviewThread → ReviewThread),
      t'.threads = w.tables.threads → GatedBy w.tables id (updateThread t' k f) := by
    intro t' k f hsame r hr
    rw [updateThread,Table.get?_modify,hsame,hnone] at hr
    split at hr <;> cases hr
  have hold : GatedBy w.tables id w.tables := hkeep rfl
  cases label with
  | papers label => exact hold
  | reviewPaper actor paperId =>
    dsimp only [World.act]
    split <;> exact hold
  | openReviewRound i expected round =>
    refine World.serve_cases (GatedBy w.tables id) hold ?_
    intro p t' a _ h
    rcases openReviewRound_ok h with ⟨_,_,_,rfl,_⟩ | ⟨_,_,_,_,_,hinsert,_⟩
    · exact hkeep rfl
    · obtain ⟨_,rounds,_,rfl⟩ := insertRound_ok hinsert
      exact hkeep rfl
  | closeReviewRound i round =>
    refine World.serve_cases (GatedBy w.tables id) hold ?_
    intro p t' a _ h
    obtain ⟨_,_,_,_,rfl⟩ := closeReviewRound_ok h
    exact hkeep rfl
  | createReviewThread i input fresh =>
    refine World.serve_cases (GatedBy w.tables id) hold ?_
    intro p t' a _ h
    obtain ⟨round,approval,hopen,hthreads⟩ := (createReviewThread_ok h).thread
    intro r hr
    rw [hthreads] at hr
    split at hr
    · cases hr
      obtain ⟨hround,hspace,hstatus⟩ := openRound_some hopen
      exact ⟨round.2,hround,hspace,hstatus⟩
    · exact hold r hr
  | addReviewMessage i thread body message =>
    refine World.serve_cases (GatedBy w.tables id) hold ?_
    intro p t' a _ h
    simp only [addReviewMessage,bind_ok,pure_ok,Prod.mk.injEq] at h
    obtain ⟨_,_,_,_,_,hmessage,rfl,_⟩ := h
    exact hupdate _ _ (insertMessage_ok hmessage).threads
  | transitionReviewThread i thread target =>
    refine World.serve_cases (GatedBy w.tables id) hold ?_
    intro p t' a _ h
    simp only [transitionReviewThread,bind_ok,pure_ok,Prod.mk.injEq] at h
    obtain ⟨_,_,_,_,rfl,_⟩ := h
    exact hupdate _ _ rfl
  | updateReviewControls i thread severity category assigned dueAt =>
    refine World.serve_cases (GatedBy w.tables id) hold ?_
    intro p t' a _ h
    simp only [updateReviewControls,bind_ok,pure_ok,Prod.mk.injEq] at h
    obtain ⟨_,_,_,_,_,_,rfl,_⟩ := h
    exact hupdate _ _ rfl
  | acceptReviewSuggestion i thread sequence =>
    refine World.serve_cases (GatedBy w.tables id) hold ?_
    intro p t' a _ h
    obtain ⟨_,_,_,_,_,_,_,_,_,_,_,_,_,_,rfl⟩ := acceptReviewSuggestion_ok h
    exact hupdate _ _ rfl
  | rejectReviewSuggestion i thread reason =>
    refine World.serve_cases (GatedBy w.tables id) hold ?_
    intro p t' a _ h
    obtain ⟨_,_,_,_,_,_,rfl⟩ := rejectReviewSuggestion_ok h
    exact hupdate _ _ rfl

theorem step_threadRound (hown : Owned w.tables) (label : Label) {r : ReviewThread}
    (hr : w.tables.threads.get? id = some r) :
    ∃ r', (w.step codec label).tables.threads.get? id = some r' ∧
      r'.reviewRoundId = r.reviewRoundId ∧ r'.workspaceId = r.workspaceId := by
  have hmoved := step_moved codec hown label id
  generalize hbefore : w.tables.reviewed id = before at hmoved
  generalize hafter : (w.step codec label).tables.reviewed id = after at hmoved
  obtain ⟨hthread,-⟩ := Prod.mk.inj hbefore
  obtain ⟨hthread',-⟩ := Prod.mk.inj hafter
  rw [hr] at hthread
  rcases hmoved with _ | ⟨_,_,_,_⟩ | ⟨_,hlife⟩ | ⟨_,_⟩ | ⟨_,_,_,_⟩ | ⟨_,_,_⟩
  · cases hthread
  · cases hthread
  · cases hthread
    exact ⟨_,hthread',hlife.reviewRoundId,hlife.workspaceId⟩
  · cases hthread
    exact ⟨_,hthread',rfl,rfl⟩
  · cases hthread
    exact ⟨_,hthread',rfl,rfl⟩
  · cases hthread
    exact ⟨_,hthread',rfl,rfl⟩

end LatexCore.Reviews
