import LatexCore.Papers.Create

/-! # Tables of the mentor reviews

Rounds, threads, suggestions, anchors and messages, with the checks of the schema
that an insertion can fail. A text that the schema restricts to a list of values
is an enumeration. The tables of the papers are read beside them and never
written by a review.
-/
namespace LatexCore.Reviews
open Core Foundation Workspace
open Papers (PaperTeam)

/-- `legacy` is `OPEN`, the status of the rounds that no leader has submitted. -/
inductive RoundStatus
  | legacy | approved | openForReview | closed
deriving DecidableEq

/-- A row of `review_rounds` without its primary key. -/
structure ReviewRound where
  paperId : Uuid
  workspaceId : WorkspaceId
  roundNumber : ℕ
  baselineVersionId : Uuid
  openedByMentorUserId : Option UserId
  submittedByLeaderWriterId : Option UserId
  baselineBuildId : Option Uuid
  baselineStateHash : Option String
  status : RoundStatus
  openedAt : Timestamp
  closedAt : Option Timestamp
deriving DecidableEq

inductive ThreadType
  | comment | suggestion | question | changeRequest | suggestedReplacement
  | sectionApproval | paperApproval
deriving DecidableEq

inductive ThreadState
  | opened | addressed | resolved | reopened | rejected
deriving DecidableEq

inductive Severity
  | note | minor | major | blocking
deriving DecidableEq

inductive Category
  | writing | methodology | evidence | citation | formatting
  | figure | table | equation | submissionRequirement
deriving DecidableEq

structure Approval where
  versionId : Uuid
  buildId : Uuid
  stateHash : String
deriving DecidableEq

/-- A row of `review_threads` without its primary key. -/
structure ReviewThread where
  reviewRoundId : Uuid
  workspaceId : WorkspaceId
  threadType : ThreadType
  state : ThreadState
  severity : Severity
  category : Category
  assignedWriterUserId : Option UserId
  dueAt : Option Timestamp
  createdByMentorUserId : UserId
  sectionLabel : Option String
  approval : Option Approval
  createdAt : Timestamp
  updatedAt : Timestamp
  resolvedAt : Option Timestamp
deriving DecidableEq

structure ReviewMessage where
  threadId : Uuid
  authorUserId : UserId
  body : String
  createdAt : Timestamp
deriving DecidableEq

/-- `ReviewSourceAnchorInput`, the row of `review_source_anchors` that it becomes. -/
structure SourceAnchor where
  fileId : Uuid
  encodedRelativeStart : Option Bytes
  encodedRelativeEnd : Option Bytes
  quotedText : String
  contextHash : String
  sourceSequence : ℕ
  sourceVersionId : Option Uuid
  documentEpoch : ℕ

inductive MappingStatus
  | exact | approximate | pdfOnly | sourceChanged | sourceDeleted
deriving DecidableEq

structure PdfAnchorInput where
  page : ℕ
  normalizedRectangles : Value
  mappingStatus : MappingStatus
  mappedFileId : Option Uuid
  mappedLine : Option ℤ
  mappedColumn : Option ℤ

/-- A row of `review_pdf_anchors` without its primary key. -/
structure PdfAnchor where
  threadId : Uuid
  artifactId : Uuid
  buildId : Uuid
  anchor : PdfAnchorInput

inductive SuggestionStatus
  | pending | accepted | rejected
deriving DecidableEq

/-- A row of `review_suggestions` without its key, the thread. -/
structure ReviewSuggestion where
  replacementText : String
  status : SuggestionStatus
  acceptedByWriterUserId : Option UserId
  respondedAt : Option Timestamp
  rejectionReason : Option String
deriving DecidableEq

structure Tables where
  rounds : Table Uuid ReviewRound
  threads : Table Uuid ReviewThread
  messages : Table Uuid ReviewMessage
  sourceAnchors : Table Uuid SourceAnchor
  pdfAnchors : Table Uuid PdfAnchor
  suggestions : Table Uuid ReviewSuggestion

structure ReviewThreadInput where
  threadType : ThreadType
  message : String
  severity : Severity
  category : Category
  assignedWriterUserId : Option UserId
  dueAt : Option Timestamp
  sourceAnchor : Option SourceAnchor
  pdfAnchor : Option PdfAnchorInput
  suggestedReplacement : Option String
  sectionLabel : Option String

/-! ## Reads -/

/-- What `review_paper` returns of the paper, with the role and the actor who asked. -/
structure Participant where
  actor : UserId
  paperId : Uuid
  workspaceId : WorkspaceId
  status : PaperStatus
  isTeamLeader : Bool
  role : GlobalRole
deriving DecidableEq

/-- `review_paper`: the actor is a writer or a mentor of the team. -/
def reviewPaper (db : Papers.Db) (actor : UserId) (paperId : Uuid) : Except V2Error Participant := do
  let team ← require (db.paperTeams.get? paperId) (.notFound "review paper")
  let member ← require (db.members.get? (paperId,actor)) (.notFound "review paper")
  let role ← require ((db.roles.get? actor).filter (fun r => r != .admin)) (.notFound "review paper")
  pure ⟨actor,paperId,team.workspaceId,team.status,member.isLeader,role⟩

def forbidden (p : Participant) (required : String) : V2Error :=
  .roleForbidden p.actor required p.role

def requireTeamWriter (db : Papers.Db) (paperId : Uuid) (writer : UserId) : Except V2Error Unit :=
  ensure ((db.members.get? (paperId,writer)).isSome && db.roles.get? writer == some .writer)
    (.notFound "assigned Writer")

def requireTeamLeader (db : Papers.Db) (paperId : Uuid) (writer : UserId) : Except V2Error Unit :=
  ensure ((db.members.get? (paperId,writer)).any (fun m => m.isLeader) &&
      db.roles.get? writer == some .writer)
    (.roleForbidden writer "Paper Team Leader Writer" .writer)

def requireTeamMentor (db : Papers.Db) (paperId : Uuid) (mentor : UserId) : Except V2Error Unit :=
  ensure ((db.members.get? (paperId,mentor)).isSome && db.roles.get? mentor == some .mentor)
    (.roleForbidden mentor "assigned Paper Team Mentor" .mentor)

/-- `lock_paper_team` of the reviews: the status of the team. -/
def lockPaperTeam (db : Papers.Db) (paperId : Uuid) : Except V2Error PaperStatus := do
  let team ← Papers.lockPaperTeam db paperId
  pure team.status

def requireFile (db : Papers.Db) (workspaceId : WorkspaceId) (fileId : Uuid) (allowDeleted : Bool) :
    Except V2Error Unit :=
  ensure ((db.files.get? fileId).any
    (fun f => f.workspaceId == workspaceId && (allowDeleted || !f.tombstoned)))
    (.notFound "review source file")

/-- `lock_thread`; its state and its type are columns of the row. -/
def lockThread (t : Tables) (workspaceId : WorkspaceId) (threadId : Uuid) :
    Except V2Error ReviewThread :=
  require ((t.threads.get? threadId).filter (fun r => r.workspaceId == workspaceId))
    (.notFound "review thread")

def openRound (t : Tables) (workspaceId : WorkspaceId) : Option (Uuid × ReviewRound) :=
  t.rounds.best (fun _ r => r.workspaceId == workspaceId && r.status == .openForReview)
    (fun a b => b.2.roundNumber < a.2.roundNumber)

def currentBuild (queue : Queue.Db) (workspaceId : WorkspaceId) : Option (Uuid × Queue.Build) := do
  let scheduler ← queue.schedulers.get? workspaceId
  let id ← scheduler.currentBuildId
  let build ← queue.builds.get? id
  pure (id,build)

def currentExactBuild (queue : Queue.Db) (workspaceId : WorkspaceId) : Except V2Error Approval := do
  let build ← require ((currentBuild queue workspaceId).filter (fun b => b.2.status == .succeeded))
    (.conflict "current exact build")
  pure ⟨build.2.versionId,build.1,build.2.stateHash⟩

def pdfArtifact (queue : Queue.Db) (job : JobId) : Option (ArtifactId × Queue.Artifact) :=
  queue.artifacts.best (fun _ a => a.jobId == job && a.kind == .pdf)
    (fun a b => decide (a.2.logicalName < b.2.logicalName))

/-! ## Insertions -/

def optionally {α σ : Type} (input : Option α) (t : α → σ → Except V2Error σ) (s : σ) :
    Except V2Error σ :=
  match input with
  | none => .ok s
  | some a => t a s

def insertMessage (t : Tables) (id threadId : Uuid) (author : UserId) (body : String)
    (now : Timestamp) : Except V2Error Tables := do
  let body := trim body
  ensure (1 ≤ body.toList.length && body.toList.length ≤ 20000) (.database "review_messages_body_length")
  let messages ← require (t.messages.insert? id ⟨threadId,author,body,now⟩)
    (.database "review_messages_pkey")
  pure { t with messages := messages }

/-- The checks of `review_source_anchors`. -/
def sourceAnchorValid (anchor : SourceAnchor) : Bool :=
  anchor.encodedRelativeStart.isNone == anchor.encodedRelativeEnd.isNone &&
    anchor.encodedRelativeStart.all (fun b => !b.isEmpty) &&
    anchor.encodedRelativeEnd.all (fun b => !b.isEmpty) && isDigestText anchor.contextHash &&
    1 ≤ anchor.documentEpoch

def insertSourceAnchor (db : Papers.Db) (threadId : Uuid) (anchor : SourceAnchor) (t : Tables) :
    Except V2Error Tables := do
  toI64 anchor.sourceSequence "source sequence"
  toI64 anchor.documentEpoch "document epoch"
  ensure (sourceAnchorValid anchor) (.database "review_source_anchors_checks")
  ensure (anchor.sourceVersionId.all (fun v => (db.queue.versions.get? v).isSome))
    (.database "review_source_anchors_source_version_id_fkey")
  let sourceAnchors ← require (t.sourceAnchors.insert? threadId anchor)
    (.database "review_source_anchors_pkey")
  pure { t with sourceAnchors := sourceAnchors }

/-- The checks of `review_pdf_anchors`; an absent file comes without a line and a column. -/
def pdfAnchorValid (anchor : PdfAnchorInput) : Bool :=
  1 ≤ anchor.page && anchor.page ≤ i32Max && (anchor.normalizedRectangles matches .arr _) &&
    match anchor.mappedFileId, anchor.mappedLine, anchor.mappedColumn with
    | none, none, none => true
    | some _, some line, some column => 1 ≤ line && 0 ≤ column
    | _, _, _ => false

def insertPdfAnchor (db : Papers.Db) (id threadId : Uuid) (workspaceId : WorkspaceId)
    (anchor : PdfAnchorInput) (t : Tables) : Except V2Error Tables := do
  let build ← require (currentBuild db.queue workspaceId) (.conflict "current PDF artifact")
  let artifact ← require (pdfArtifact db.queue build.2.compileJobId) (.conflict "current PDF artifact")
  ensure (pdfAnchorValid anchor) (.database "review_pdf_anchors_checks")
  ensure (anchor.mappedFileId.all (fun f => (db.files.get? f).isSome))
    (.database "review_pdf_anchors_mapped_file_id_fkey")
  let pdfAnchors ← require (t.pdfAnchors.insert? id ⟨threadId,artifact.1,build.1,anchor⟩)
    (.database "review_pdf_anchors_pkey")
  pure { t with pdfAnchors := pdfAnchors }

end LatexCore.Reviews
