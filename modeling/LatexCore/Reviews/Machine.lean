import LatexCore.Reviews.Tables
import LatexCore.Papers.Machine

/-! # Threads, rounds and the reviews beside the papers

A mentor opens threads while a round is open; writers and mentors move them. A
thread of type `SUGGESTION` has a suggestion, which a writer accepts with a
durable edit of the anchored file or rejects. Both answers test the suggestion
alone and write the state of the thread with columns of their own.

The leader of a team sends a paper for review and ends the review. A round is
opened over the promoted build of the state that the leader expects, while the
scheduler still desires that state; an open round is returned as it is.

A run interleaves the requests of the papers with those of the reviews. A request
about a review first reads the paper and the role of its actor, and uses what it
read in a transaction of its own, whatever has happened in between.
-/
namespace LatexCore.Reviews
open Core Foundation Workspace

/-! ## Threads and suggestions -/

/-- The identifiers that the insertion of a thread draws. -/
structure FreshThread where
  thread : Uuid
  message : Uuid
  pdfAnchor : Uuid

def ReviewThread.new (input : ReviewThreadInput) (roundId : Uuid) (p : Participant)
    (approval : Option Approval) (now : Timestamp) : ReviewThread where
  reviewRoundId := roundId
  workspaceId := p.workspaceId
  threadType := input.threadType
  state := .opened
  severity := input.severity
  category := input.category
  assignedWriterUserId := input.assignedWriterUserId
  dueAt := input.dueAt
  createdByMentorUserId := p.actor
  sectionLabel := input.sectionLabel
  approval := approval
  createdAt := now
  updatedAt := now
  resolvedAt := none

/-- `INSERT INTO review_threads`. -/
def insertThread (t : Tables) (id : Uuid) (thread : ReviewThread) : Except V2Error Tables := do
  ensure (thread.sectionLabel.all (fun l => 1 ≤ l.toList.length && l.toList.length ≤ 300))
    (.database "review_threads_section_label_length")
  ensure (thread.approval.all (fun a => isDigestText a.stateHash))
    (.database "review_threads_approval_hash")
  let threads ← require (t.threads.insert? id thread) (.database "review_threads_pkey")
  pure { t with threads := threads }

def ReviewThreadInput.replacement (input : ReviewThreadInput) : Option String :=
  if input.threadType = .suggestion then some (trim (input.suggestedReplacement.getD input.message))
  else none

def ReviewSuggestion.new (replacement : String) : ReviewSuggestion where
  replacementText := replacement
  status := .pending
  acceptedByWriterUserId := none
  respondedAt := none
  rejectionReason := none

def insertSuggestion (threadId : Uuid) (replacement : String) (t : Tables) :
    Except V2Error Tables := do
  let suggestions ← require (t.suggestions.insert? threadId (.new replacement))
    (.database "review_suggestions_pkey")
  pure { t with suggestions := suggestions }

def threadApproval (db : Papers.Db) (workspaceId : WorkspaceId) (input : ReviewThreadInput) :
    Except V2Error (Option Approval) :=
  if input.threadType = .paperApproval then (currentExactBuild db.queue workspaceId).map some
  else .ok none

def createReviewThread (p : Participant) (input : ReviewThreadInput) (fresh : FreshThread)
    (db : Papers.Db) (t : Tables) : Except V2Error (Tables × Uuid) := do
  ensure (p.role = .mentor) (forbidden p "assigned mentor")
  let _ ← lockPaperTeam db p.paperId
  requireTeamMentor db p.paperId p.actor
  let round ← require (openRound t p.workspaceId) (.conflict "paper review gate")
  optionally input.assignedWriterUserId (fun writer _ => requireTeamWriter db p.paperId writer) ()
  optionally input.sourceAnchor
    (fun anchor _ => requireFile db p.workspaceId anchor.fileId false) ()
  let approval ← threadApproval db p.workspaceId input
  let t ← insertThread t fresh.thread (.new input round.1 p approval db.now)
  let t ← insertMessage t fresh.message fresh.thread p.actor input.message db.now
  let t ← optionally input.sourceAnchor (insertSourceAnchor db fresh.thread) t
  let t ← optionally input.pdfAnchor
    (insertPdfAnchor db fresh.pdfAnchor fresh.thread p.workspaceId) t
  let t ← optionally input.replacement (insertSuggestion fresh.thread) t
  pure (t,fresh.thread)

def updateThread (t : Tables) (threadId : Uuid) (update : ReviewThread → ReviewThread) : Tables :=
  { t with threads := t.threads.modify threadId update }

def ReviewThread.touch (now : Timestamp) (r : ReviewThread) : ReviewThread :=
  { r with updatedAt := now }

def addReviewMessage (p : Participant) (threadId : Uuid) (body : String) (id : Uuid) (db : Papers.Db)
    (t : Tables) : Except V2Error (Tables × Uuid) := do
  ensure (p.role = .writer || p.role = .mentor) (forbidden p "review participant")
  let _ ← lockThread t p.workspaceId threadId
  let t ← insertMessage t id threadId p.actor body db.now
  pure (updateThread t threadId (ReviewThread.touch db.now),id)

def transitionValid (role : GlobalRole) (threadType : ThreadType) (current target : ThreadState) :
    Bool :=
  match role with
  | .writer =>
    match target with
    | .addressed => current == .opened || current == .reopened
    | .resolved =>
      (threadType == .comment || threadType == .suggestion || threadType == .suggestedReplacement) &&
        (current == .opened || current == .addressed || current == .reopened)
    | _ => false
  | .mentor =>
    (target == .resolved && current == .addressed) ||
      (target == .reopened && (current == .addressed || current == .resolved))
  | .admin => false

def ReviewThread.move (target : ThreadState) (now : Timestamp) (r : ReviewThread) : ReviewThread :=
  { r with
    state := target
    updatedAt := now
    resolvedAt := if target = .resolved then some now else none }

def transitionReviewThread (p : Participant) (threadId : Uuid) (target : ThreadState) (db : Papers.Db)
    (t : Tables) : Except V2Error (Tables × Unit) := do
  let current ← lockThread t p.workspaceId threadId
  ensure (transitionValid p.role current.threadType current.state target)
    (.conflict "review thread transition")
  pure (updateThread t threadId (ReviewThread.move target db.now),())

def ReviewThread.control (severity : Severity) (category : Category) (assignedWriter : Option UserId)
    (dueAt : Option Timestamp) (now : Timestamp) (r : ReviewThread) : ReviewThread :=
  { r with
    severity := severity
    category := category
    assignedWriterUserId := assignedWriter
    dueAt := dueAt
    updatedAt := now }

def updateReviewControls (p : Participant) (threadId : Uuid) (severity : Severity)
    (category : Category) (assignedWriter : Option UserId) (dueAt : Option Timestamp) (db : Papers.Db)
    (t : Tables) : Except V2Error (Tables × Unit) := do
  ensure (p.role = .mentor) (forbidden p "assigned mentor")
  let _ ← lockThread t p.workspaceId threadId
  optionally assignedWriter (fun writer _ => requireTeamWriter db p.paperId writer) ()
  pure (updateThread t threadId
    (ReviewThread.control severity category assignedWriter dueAt db.now),())

/-- The state of the thread of an answered suggestion; its `resolved_at` is not written. -/
def ReviewThread.answer (state : ThreadState) (now : Timestamp) (r : ReviewThread) : ReviewThread :=
  { r with state := state, updatedAt := now }

def answerSuggestion (t : Tables) (threadId : Uuid) (answer : ReviewSuggestion → ReviewSuggestion) :
    Except V2Error Tables := do
  ensure ((t.suggestions.get? threadId).any (fun s => s.status == .pending))
    (.conflict "pending suggestion")
  pure { t with suggestions := t.suggestions.modify threadId answer }

def ReviewSuggestion.accept (writer : UserId) (now : Timestamp) (s : ReviewSuggestion) :
    ReviewSuggestion :=
  { s with status := .accepted, acceptedByWriterUserId := some writer, respondedAt := some now }

def ReviewSuggestion.reject (reason : Option String) (now : Timestamp) (s : ReviewSuggestion) :
    ReviewSuggestion :=
  { s with status := .rejected, respondedAt := some now, rejectionReason := reason }

def writerEdit (createdAt : ℕ → Timestamp) (thread : ReviewThread) (fileId : Uuid) (writer : UserId)
    (u : Collaboration.UpdateRow Bytes) : Bool :=
  u.document.room == ⟨thread.workspaceId,fileId⟩ && u.actorUserId == writer &&
    thread.createdAt ≤ createdAt u.id

def acceptReviewSuggestion (p : Participant) (threadId : Uuid) (durableSequence : ℕ)
    (createdAt : ℕ → Timestamp) (db : Papers.Db) (t : Tables) : Except V2Error (Tables × Unit) := do
  ensure (p.role = .writer) (forbidden p "assigned writer")
  let thread ← lockThread t p.workspaceId threadId
  let anchor ← require (t.sourceAnchors.get? threadId)
    (.conflict "resolvable suggestion source anchor")
  Papers.assertContentPolicy db anchor.fileId
  toI64 durableSequence "durable sequence"
  ensure (db.updates.any (fun u => u.id == durableSequence &&
    writerEdit createdAt thread anchor.fileId p.actor u)) (.conflict "Writer durable suggestion edit")
  let t ← answerSuggestion t threadId (ReviewSuggestion.accept p.actor db.now)
  pure (updateThread t threadId (ReviewThread.answer .addressed db.now),())

def rejectReviewSuggestion (p : Participant) (threadId : Uuid) (reason : Option String)
    (db : Papers.Db) (t : Tables) : Except V2Error (Tables × Unit) := do
  ensure (p.role = .writer) (forbidden p "assigned writer")
  let _ ← lockThread t p.workspaceId threadId
  let t ← answerSuggestion t threadId (ReviewSuggestion.reject reason db.now)
  pure (updateThread t threadId (ReviewThread.answer .rejected db.now),())

/-! ## Rounds -/

def ReviewRound.submitted (r : ReviewRound) : Bool :=
  r.status == .openForReview && r.submittedByLeaderWriterId.isSome && r.baselineBuildId.isSome &&
    r.baselineStateHash.isSome

/-- `status IN ('OPEN','OPEN_FOR_REVIEW')`, without the rounds of the leaders. -/
def ReviewRound.stale (r : ReviewRound) : Bool :=
  (r.status == .legacy || r.status == .openForReview) && !r.submitted

def ReviewRound.close (now : Timestamp) (r : ReviewRound) : ReviewRound :=
  { r with status := .closed, closedAt := some now }

def closeStaleRounds (t : Tables) (workspaceId : WorkspaceId) (now : Timestamp) : Tables :=
  { t with
    rounds := t.rounds.updateWhere (fun _ r => r.workspaceId == workspaceId && r.stale)
      (ReviewRound.close now) }

/-- `COALESCE(max(round_number),0)+1`. -/
def nextRoundNumber (t : Tables) (workspaceId : WorkspaceId) : ℕ :=
  (t.rounds.rows.filter (fun r => r.2.workspaceId == workspaceId)).foldl
    (fun n r => max n r.2.roundNumber) 0 + 1

def reviewBaseline (queue : Queue.Db) (workspaceId : WorkspaceId) (expectedStateHash : String) :
    Option (Uuid × Queue.Build) :=
  (currentBuild queue workspaceId).filter (fun b =>
    b.2.status == .succeeded && b.2.stateHash == expectedStateHash &&
      (queue.schedulers.get? workspaceId).any (fun s => s.desiredStateHash == some expectedStateHash) &&
      queue.artifacts.count (fun _ a => a.jobId == b.2.compileJobId && a.kind == .pdf) != 0)

/-- `INSERT INTO review_rounds`; the number and the open round of a workspace are unique. -/
def insertRound (t : Tables) (id : Uuid) (round : ReviewRound) : Except V2Error Tables := do
  ensure (round.roundNumber ≤ i64Max) (.database "review_rounds_round_number")
  ensure (round.baselineStateHash.all isDigestText) (.database "review_rounds_baseline_state_hash")
  ensure (t.rounds.count (fun _ r => r.workspaceId == round.workspaceId &&
    r.roundNumber == round.roundNumber) == 0) (.database "review_rounds_workspace_number_unique")
  ensure (t.rounds.count (fun _ r => r.workspaceId == round.workspaceId &&
    r.status == .openForReview) == 0) (.database "review_rounds_one_open_workspace_idx")
  let rounds ← require (t.rounds.insert? id round) (.database "review_rounds_pkey")
  pure { t with rounds := rounds }

/-- A round as its leader submits it. -/
def ReviewRound.opened (p : Participant) (number : ℕ) (build : Uuid × Queue.Build) (now : Timestamp) :
    ReviewRound where
  paperId := p.paperId
  workspaceId := p.workspaceId
  roundNumber := number
  baselineVersionId := build.2.versionId
  openedByMentorUserId := none
  submittedByLeaderWriterId := some p.actor
  baselineBuildId := some build.1
  baselineStateHash := some build.2.stateHash
  status := .openForReview
  openedAt := now
  closedAt := none

structure OpenedRound where
  id : Uuid
  round : ReviewRound
  created : Bool
deriving DecidableEq

def openReviewRound (p : Participant) (expectedStateHash : String) (id : Uuid) (db : Papers.Db)
    (t : Tables) : Except V2Error (Tables × OpenedRound) := do
  ensure (p.role = .writer) (forbidden p "Paper Team Leader Writer")
  let status ← lockPaperTeam db p.paperId
  ensure (status = .active) (.conflict "active Paper Team review submission")
  requireTeamLeader db p.paperId p.actor
  let t := closeStaleRounds t p.workspaceId db.now
  match openRound t p.workspaceId with
  | some (current,round) => pure (t,⟨current,round,false⟩)
  | none =>
    let build ← require (reviewBaseline db.queue p.workspaceId expectedStateHash)
      (.conflict "current review PDF")
    let round := ReviewRound.opened p (nextRoundNumber t p.workspaceId) build db.now
    let t ← insertRound t id round
    pure (t,⟨id,round,true⟩)

def closeReviewRound (p : Participant) (roundId : Uuid) (db : Papers.Db) (t : Tables) :
    Except V2Error (Tables × Unit) := do
  ensure (p.role = .writer) (forbidden p "Paper Team Leader Writer")
  let _ ← lockPaperTeam db p.paperId
  requireTeamLeader db p.paperId p.actor
  let round ← require ((t.rounds.get? roundId).filter
    (fun r => r.paperId == p.paperId && r.workspaceId == p.workspaceId)) (.notFound "review round")
  ensure (round.status = .openForReview) (.conflict "review round transition")
  pure ({ t with rounds := t.rounds.modify roundId (ReviewRound.close db.now) },())

/-! ## Runs -/

structure World where
  papers : Papers.World
  tables : Tables
  /-- `created_at` of the collaboration updates. -/
  updateCreatedAt : ℕ → Timestamp
  /-- What the requests under way have read of their papers. -/
  participants : List Participant

inductive Label
  | papers (label : Papers.Label)
  | reviewPaper (actor : UserId) (paperId : Uuid)
  | openReviewRound (participant : ℕ) (expectedStateHash : String) (id : Uuid)
  | closeReviewRound (participant : ℕ) (roundId : Uuid)
  | createReviewThread (participant : ℕ) (input : ReviewThreadInput) (fresh : FreshThread)
  | addReviewMessage (participant : ℕ) (threadId : Uuid) (body : String) (id : Uuid)
  | transitionReviewThread (participant : ℕ) (threadId : Uuid) (target : ThreadState)
  | updateReviewControls (participant : ℕ) (threadId : Uuid) (severity : Severity)
      (category : Category) (assignedWriter : Option UserId) (dueAt : Option Timestamp)
  | acceptReviewSuggestion (participant : ℕ) (threadId : Uuid) (durableSequence : ℕ)
  | rejectReviewSuggestion (participant : ℕ) (threadId : Uuid) (reason : Option String)

namespace World

def serve {α : Type} (w : World) (participant : ℕ)
    (t : Participant → Tables → Except V2Error (Tables × α)) : World :=
  match w.participants[participant]? with
  | none => w
  | some p => { w with tables := commit (t p) w.tables }

/-- The collaboration updates that a step inserts are created in it. -/
def stamp (w : World) (papers : Papers.World) : ℕ → Timestamp := fun id =>
  if w.papers.db.nextUpdateId ≤ id && id < papers.db.nextUpdateId then w.papers.db.now
  else w.updateCreatedAt id

variable (codec : Codec)

def act (w : World) : Label → World
  | .papers label =>
    let papers := Papers.act codec w.papers label
    { w with papers := papers, updateCreatedAt := w.stamp papers }
  | .reviewPaper actor paperId =>
    match reviewPaper w.papers.db actor paperId with
    | .ok p => { w with participants := w.participants ++ [p] }
    | .error _ => w
  | .openReviewRound i expectedStateHash id =>
    w.serve i (fun p => openReviewRound p expectedStateHash id w.papers.db)
  | .closeReviewRound i roundId => w.serve i (fun p => closeReviewRound p roundId w.papers.db)
  | .createReviewThread i input fresh =>
    w.serve i (fun p => createReviewThread p input fresh w.papers.db)
  | .addReviewMessage i threadId body id =>
    w.serve i (fun p => addReviewMessage p threadId body id w.papers.db)
  | .transitionReviewThread i threadId target =>
    w.serve i (fun p => transitionReviewThread p threadId target w.papers.db)
  | .updateReviewControls i threadId severity category assignedWriter dueAt =>
    w.serve i (fun p =>
      updateReviewControls p threadId severity category assignedWriter dueAt w.papers.db)
  | .acceptReviewSuggestion i threadId durableSequence =>
    w.serve i (fun p =>
      acceptReviewSuggestion p threadId durableSequence w.updateCreatedAt w.papers.db)
  | .rejectReviewSuggestion i threadId reason =>
    w.serve i (fun p => rejectReviewSuggestion p threadId reason w.papers.db)

/-- One request; the next one comes later. -/
def step (w : World) (label : Label) : World :=
  let w := w.act codec label
  { w with papers := w.papers.tick }

end World

def World.initial (papers : Papers.World) (rounds : Table Uuid ReviewRound) : World :=
  ⟨papers,⟨rounds,.empty,.empty,.empty,.empty,.empty⟩,fun _ => 0,[]⟩

end LatexCore.Reviews
