import LatexCore.Foundation.Value
import LatexCore.Teams.Policies
import Mathlib.Data.List.Sort
import LatexCore.Workspace.MainPath

/-! # Private working trees and publication

The view that a member has of a project: the canonical files under the member's
structural operations and drafts. A draft of a path that was never published is
a file of its own from the start, so that operations can move it; every other
draft is laid over its file after the operations.

There are two ways that private work becomes canonical: one draft against the
revision of its file, or the whole change set of a member against the canonical
files that its projection came from. Both append one event to the workspace. The
audit rows are left out.
-/
namespace LatexCore.Teams
open Core Foundation

/-! ## Working trees -/

structure MemberDraft where
  baseRevision : ℕ
  draftRevision : ℕ
  blobHash : BlobHash
  sizeBytes : ℕ
deriving DecidableEq

/-- A row of `member_change_operations` in one of the shapes that the table admits. -/
inductive ChangeOperation
  | delete (source : String) (base : Option ℕ)
  | rename (source destination : String) (base : Option ℕ)
  | setMain (destination : String)
deriving DecidableEq

structure EventRow where
  payload : Value
  createdByUserId : UserId

/-- One team project with its workspace; `head` is the durable version. -/
structure TeamProject extends PolicyTables where
  mainFileLocked : Bool
  canonicalGeneration : ℕ
  drafts : Table (UserId × String) MemberDraft
  operations : Table (UserId × ℕ) ChangeOperation
  head : Option ℕ
  events : Table ℕ EventRow

structure ProjectedTeamFile where
  path : String
  canonicalPath : Option String
  canonicalRevision : Option ℕ
  blobHash : BlobHash
  sizeBytes : ℕ
  draftRevision : Option ℕ
  added : Bool
  modified : Bool
  renamed : Bool
  pendingDelete : Bool
deriving DecidableEq

structure PendingChangeSummary where
  modified : ℕ
  added : ℕ
  renamed : ℕ
  deleted : ℕ
  mainChanged : Bool
  total : ℕ

structure PrivateWorkingTree where
  files : List ProjectedTeamFile
  pendingMain : Option String
  summary : PendingChangeSummary

/-- The projection while it is built; `consumed` are the paths of drafts that are files already. -/
structure Projection where
  files : List ProjectedTeamFile
  pendingMain : Option String
  consumed : List String

def byPath {α : Type} (rows : List (String × α)) : List (String × α) :=
  rows.insertionSort (fun a b => a.1 ≤ b.1)

/-- The update of the first element that meets a condition. -/
def modifyFirst {α : Type} (p : α → Bool) (f : α → α) : List α → List α
  | [] => []
  | a :: rest => if p a then f a :: rest else a :: modifyFirst p f rest

def canonicalFile (row : String × TeamFile) : ProjectedTeamFile :=
  ⟨row.1,some row.1,some row.2.fileRevision,row.2.blobHash,row.2.sizeBytes,none,false,false,false,false⟩

def draftFile (draft : String × MemberDraft) : ProjectedTeamFile :=
  ⟨draft.1,none,none,draft.2.blobHash,draft.2.sizeBytes,some draft.2.draftRevision,true,false,false,false⟩

def ProjectedTeamFile.at (path : String) (file : ProjectedTeamFile) : Bool :=
  !file.pendingDelete && file.path == path

namespace Projection

def addDraft (p : Projection) (draft : String × MemberDraft) : Projection :=
  if draft.2.baseRevision = 0 ∧ !p.files.any (fun file => file.path = draft.1) then
    { p with files := p.files ++ [draftFile draft], consumed := p.consumed ++ [draft.1] }
  else p

def withSource (drafts : List (String × MemberDraft)) (p : Projection) (source : String) :
    Except AppError Projection :=
  if p.files.any (ProjectedTeamFile.at source) then .ok p
  else do
    let draft ← require (drafts.find? (fun draft => draft.1 = source && draft.2.baseRevision = 0)) .notFound
    pure { p with files := p.files ++ [draftFile draft], consumed := p.consumed ++ [source] }

def rebase (base : Option ℕ) (file : ProjectedTeamFile) : ProjectedTeamFile :=
  { file with canonicalRevision :=
      if file.canonicalPath.isSome && base.isSome then base else file.canonicalRevision }

def applyOperation (drafts : List (String × MemberDraft)) (p : Projection) :
    ChangeOperation → Except AppError Projection
  | .rename source destination base => do
    let p ← p.withSource drafts source
    ensure (!p.files.any (ProjectedTeamFile.at destination)) .conflict
    let files := modifyFirst (ProjectedTeamFile.at source)
      (fun file => { rebase base file with path := destination, renamed := file.canonicalPath.isSome }) p.files
    let pendingMain := if p.pendingMain = some source then some destination else p.pendingMain
    pure { p with files := files, pendingMain := pendingMain }
  | .delete source base => do
    let p ← p.withSource drafts source
    let file ← require (p.files.find? (ProjectedTeamFile.at source)) .notFound
    ensure (p.pendingMain ≠ some source) .conflict
    let files := if file.added then p.files.eraseP (ProjectedTeamFile.at source)
      else modifyFirst (ProjectedTeamFile.at source)
        (fun file => { rebase base file with pendingDelete := true }) p.files
    pure { p with files := files }
  | .setMain destination => pure { p with pendingMain := some destination }

def owns (draft : String × MemberDraft) (file : ProjectedTeamFile) : Bool :=
  !file.pendingDelete && (file.path == draft.1 ||
    (file.canonicalPath == some draft.1 && file.canonicalRevision == some draft.2.baseRevision))

def overlay (draft : String × MemberDraft) (file : ProjectedTeamFile) : ProjectedTeamFile :=
  { file with
    blobHash := draft.2.blobHash
    sizeBytes := draft.2.sizeBytes
    draftRevision := some draft.2.draftRevision
    modified := !file.added || file.modified
    canonicalRevision := if file.added then file.canonicalRevision else some draft.2.baseRevision }

def mergeDraft (p : Projection) (draft : String × MemberDraft) : Except AppError Projection :=
  if p.consumed.contains draft.1 then .ok p
  else if p.files.any (owns draft) then
    .ok { p with files := modifyFirst (owns draft) (overlay draft) p.files }
  else if p.files.any (fun file => file.pendingDelete && file.path == draft.1) then .error .conflict
  else .ok { p with files := p.files ++ [draftFile draft] }

def summary (p : Projection) : PendingChangeSummary :=
  let modified := p.files.countP (fun file => file.modified && !file.renamed && !file.pendingDelete)
  let added := p.files.countP (fun file => file.added && !file.pendingDelete)
  let renamed := p.files.countP (fun file => file.renamed && !file.pendingDelete)
  let deleted := p.files.countP (fun file => file.pendingDelete && file.canonicalPath.isSome)
  let mainChanged := p.pendingMain.isSome
  ⟨modified,added,renamed,deleted,mainChanged,modified + added + renamed + deleted + mainChanged.toNat⟩

end Projection

namespace TeamProject

def draftsOf (project : TeamProject) (user : UserId) : List (String × MemberDraft) :=
  byPath ((project.drafts.rows.filter (fun r => r.1.1 = user)).map (fun r => (r.1.2,r.2)))

/-- The structural operations of a member, in the order of their numbers. -/
def operationsOf (project : TeamProject) (user : UserId) : List ChangeOperation :=
  (((project.operations.rows.filter (fun r => r.1.1 = user)).insertionSort
    (fun a b => a.1.2 ≤ b.1.2)).map Prod.snd)

def privateWorkingTree (project : TeamProject) (user : UserId) : Except AppError PrivateWorkingTree := do
  let drafts := project.draftsOf user
  let canonical : Projection := ⟨(byPath project.files.rows).map canonicalFile,none,[]⟩
  let p ← (project.operationsOf user).foldlM (Projection.applyOperation drafts)
    (drafts.foldl Projection.addDraft canonical)
  let p ← drafts.foldlM Projection.mergeDraft p
  ensure (p.pendingMain.all (fun main => p.files.any (ProjectedTeamFile.at main))) .conflict
  pure ⟨p.files.insertionSort (fun a b => a.path ≤ b.path),p.pendingMain,p.summary⟩

end TeamProject

/-! ## Publication -/

open Core Foundation Workspace

inductive PublishResult
  | published (canonicalGeneration workspaceVersion fileRevision : ℕ)
  | conflict (currentFileRevision : ℕ)
deriving DecidableEq

inductive ChangeConflictReason
  | changedSinceEdit | destinationExists | missingSource | mainTargetMissing | mainLocked
  | policyChanged | permissionChanged
deriving DecidableEq

def ChangeConflictReason.text : ChangeConflictReason → String
  | .changedSinceEdit => "changed_since_edit"
  | .destinationExists => "destination_exists"
  | .missingSource => "missing_source"
  | .mainTargetMissing => "main_target_missing"
  | .mainLocked => "main_locked"
  | .policyChanged => "policy_changed"
  | .permissionChanged => "permission_changed"

structure ChangeConflict where
  path : String
  destination : Option String
  reason : ChangeConflictReason
deriving DecidableEq

inductive ChangeSetPublishResult
  | published (canonicalGeneration workspaceVersion changeCount : ℕ)
  | conflict (conflicts : List ChangeConflict)
deriving DecidableEq

def ChangeConflict.le (a b : ChangeConflict) : Bool :=
  if a.path = b.path then
    if a.destination = b.destination then a.reason.text ≤ b.reason.text
    else match a.destination, b.destination with
      | none, _ => true
      | some _, none => false
      | some d, some e => d ≤ e
  else a.path ≤ b.path

def sortConflicts (conflicts : List ChangeConflict) : List ChangeConflict :=
  (conflicts.insertionSort (fun a b => a.le b)).destutter (· ≠ ·)

def checkedRevision (revision : ℕ) : Except AppError ℕ := do
  ensure (revision + 1 ≤ u64Max) (.integrity "file revision overflow")
  ensure (revision + 1 ≤ i64Max) (.integrity "revision exceeds PostgreSQL BIGINT")
  pure (revision + 1)

def putValue (path : String) (blobHash : BlobHash) (sizeBytes : ℕ) : Value :=
  .obj [("op",.str "put_file"),("path",.str path),("blob_hash",.str blobHash.toHex),
    ("size_bytes",.ofNat sizeBytes)]

namespace TeamProject

/-- `append_workspace_operations`. -/
def appendOperations (project : TeamProject) (actor : UserId) (operations : List Value) :
    Except AppError (TeamProject × ℕ) := do
  let actual ← require project.head .notFound
  ensure (actual + 1 ≤ i64Max) (.integrity "workspace version overflow")
  let payload := Value.obj [("schema_version",.ofNat 1),("operations",.arr operations)]
  let events ← require (project.events.insert? (actual + 1) ⟨payload,actor⟩)
    (.database "workspace_events_pkey")
  pure ({ project with events := events, head := some (actual + 1) },actual + 1)

def incrementGeneration (project : TeamProject) : Except AppError (TeamProject × ℕ) := do
  ensure (project.canonicalGeneration + 1 ≤ i64Max) (.database "bigint out of range")
  pure ({ project with canonicalGeneration := project.canonicalGeneration + 1 },
    project.canonicalGeneration + 1)

def policyAllows (project : TeamProject) (resolver : PermissionResolver) (path : String) : Bool :=
  project.policy path = .editable || resolver.allows .fileProtectedWrite

def assertMutable (project : TeamProject) (resolver : PermissionResolver) (path : String) :
    Except AppError Unit :=
  ensure (resolver.allows .fileWrite && project.policyAllows resolver path) .forbidden

def publishDraft (user : UserId) (path : String) (project : TeamProject) :
    Except AppError (TeamProject × PublishResult) := do
  let member ← require (project.members.get? user) .notFound
  project.assertMutable member.resolver path
  let draft ← require (project.drafts.get? (user,path)) .notFound
  let current := ((project.files.get? path).map TeamFile.fileRevision).getD 0
  if draft.baseRevision ≠ current then pure (project,.conflict current)
  else do
    let next ← checkedRevision current
    let project := { project with
      files := project.files.upsert path ⟨draft.blobHash,draft.sizeBytes,next⟩ }
    let (project,version) ← project.appendOperations user [putValue path draft.blobHash draft.sizeBytes]
    let (project,generation) ← project.incrementGeneration
    pure ({ project with drafts := project.drafts.deleteWhere (fun key _ => key = (user,path)) },
      .published generation version next)

end TeamProject

/-! ## Change sets -/

structure PublishChecks where
  project : TeamProject
  tree : PrivateWorkingTree
  resolver : PermissionResolver

namespace PublishChecks
variable (checks : PublishChecks)

def canonical (path : String) : Option ℕ :=
  if path ∈ checks.tree.files.filterMap ProjectedTeamFile.canonicalPath then
    (checks.project.files.get? path).map TeamFile.fileRevision
  else none

def sourceConflicts (file : ProjectedTeamFile) : List ChangeConflict :=
  match file.canonicalPath, file.canonicalRevision with
  | some path, some expected =>
    match checks.canonical path with
    | none => [⟨path,some file.path,.missingSource⟩]
    | some actual => if actual = expected then [] else [⟨path,some file.path,.changedSinceEdit⟩]
  | _, _ => []

def destinationConflicts (file : ProjectedTeamFile) : List ChangeConflict :=
  (if file.renamed && !file.pendingDelete && file.canonicalPath ≠ some file.path &&
      (checks.canonical file.path).isSome then
    [⟨file.canonicalPath.getD file.path,some file.path,.destinationExists⟩] else []) ++
  (if file.added && !file.pendingDelete && (checks.canonical file.path).isSome then
    [⟨file.path,none,.destinationExists⟩] else [])

/-- The permissions that the change of a file takes; none where it is unchanged. -/
def required (file : ProjectedTeamFile) : List Permission :=
  if file.pendingDelete then [.fileDelete]
  else if file.added then [.fileCreate,.fileWrite]
  else if file.renamed && file.modified then [.fileRename,.fileWrite]
  else if file.renamed then [.fileRename]
  else if file.modified then [.fileWrite]
  else []

def permissionConflicts (file : ProjectedTeamFile) : List ChangeConflict :=
  ((required file).filter (fun action => !checks.resolver.allows action)).map
    (fun _ => ⟨file.canonicalPath.getD file.path,some file.path,.permissionChanged⟩)

def policyPaths (file : ProjectedTeamFile) : List String :=
  file.canonicalPath.toList ++
    if (file.added || file.renamed) && !file.pendingDelete then [file.path] else []

def policyConflicts (file : ProjectedTeamFile) : List ChangeConflict :=
  ((policyPaths file).filter (fun path => !checks.project.policyAllows checks.resolver path)).map
    (fun path => ⟨path,some file.path,.policyChanged⟩)

def fileConflicts (file : ProjectedTeamFile) : List ChangeConflict :=
  checks.sourceConflicts file ++ checks.destinationConflicts file ++
    if required file = [] then []
    else checks.permissionConflicts file ++ checks.policyConflicts file

/-- The new path of the main file, where the change set renames it. -/
def automaticMain : Option String :=
  if checks.tree.pendingMain.isNone then
    let payloads := (checks.project.events.rows.insertionSort (fun a b => a.1 ≤ b.1)).map
      (fun row => row.2.payload)
    (workspaceMain payloads).bind (fun current =>
      (checks.tree.files.find? (fun file => !file.pendingDelete && file.renamed &&
        file.canonicalPath == some current)).map ProjectedTeamFile.path)
  else none

def main : Option String := checks.tree.pendingMain.or checks.automaticMain

def mainConflicts : List ChangeConflict :=
  match checks.main with
  | none => []
  | some main =>
    (if checks.project.mainFileLocked then [⟨main,none,.mainLocked⟩] else []) ++
      (if checks.tree.pendingMain.isSome && !checks.resolver.allows .fileSetMain then
        [⟨main,none,.permissionChanged⟩] else []) ++
      (if checks.tree.files.any (ProjectedTeamFile.at main) then [] else [⟨main,none,.mainTargetMissing⟩])

def conflicts : List ChangeConflict :=
  checks.tree.files.flatMap checks.fileConflicts ++ checks.mainConflicts

end PublishChecks

/-- The canonical files and the operations while a change set is applied. -/
structure Publication where
  files : Table String TeamFile
  operations : List Value
  changed : ℕ

namespace Publication

def delete (p : Publication) (file : ProjectedTeamFile) : Publication :=
  match file.canonicalPath with
  | none => p
  | some path => ⟨p.files.deleteWhere (fun key _ => key = path),
    p.operations ++ [.obj [("op",.str "delete_file"),("path",.str path)]],p.changed + 1⟩

def rename (p : Publication) (file : ProjectedTeamFile) : Except AppError Publication := do
  let source ← require file.canonicalPath (.integrity "renamed file has no canonical origin")
  let base ← require file.canonicalRevision (.integrity "renamed file has no canonical revision")
  let revision ← checkedRevision base
  let files ← require ((p.files.deleteWhere (fun key _ => key = source)).insert? file.path
    ⟨file.blobHash,file.sizeBytes,revision⟩) (.database "team_project_files_pkey")
  let moved := Value.obj [("op",.str "rename_file"),("from",.str source),("to",.str file.path)]
  let written := if file.modified then [putValue file.path file.blobHash file.sizeBytes] else []
  pure ⟨files,p.operations ++ moved :: written,p.changed + 1⟩

def put (p : Publication) (file : ProjectedTeamFile) : Except AppError Publication := do
  let revision ← if file.added then pure 1
    else do
      let base ← require file.canonicalRevision (.integrity "modified file has no canonical revision")
      checkedRevision base
  pure ⟨p.files.upsert file.path ⟨file.blobHash,file.sizeBytes,revision⟩,
    p.operations ++ [putValue file.path file.blobHash file.sizeBytes],p.changed + 1⟩

/-- Deletions first, then renames, then contents. -/
def publish (files : Table String TeamFile) (tree : List ProjectedTeamFile) : Except AppError Publication := do
  let p := (tree.filter (fun file => file.pendingDelete && file.canonicalPath.isSome)).foldl delete ⟨files,[],0⟩
  let p ← (tree.filter (fun file => !file.pendingDelete && file.renamed)).foldlM rename p
  (tree.filter (fun file => !file.pendingDelete && !file.renamed && (file.modified || file.added))).foldlM put p

end Publication

namespace TeamProject

def publishChangeSet (user : UserId) (project : TeamProject) :
    Except AppError (TeamProject × ChangeSetPublishResult) := do
  let member ← require (project.members.get? user) .notFound
  let tree ← project.privateWorkingTree user
  ensure (tree.summary.total ≠ 0) .notFound
  let checks : PublishChecks := ⟨project,tree,member.resolver⟩
  if checks.conflicts ≠ [] then pure (project,.conflict (sortConflicts checks.conflicts))
  else do
    let p ← Publication.publish project.files tree.files
    let setMain := checks.main.toList.map
      (fun main => Value.obj [("op",.str "set_main_file"),("path",.str main)])
    let project := { project with files := p.files }
    let (project,version) ← project.appendOperations user (p.operations ++ setMain)
    let (project,generation) ← project.incrementGeneration
    let project := { project with
      drafts := project.drafts.deleteWhere (fun key _ => key.1 = user)
      operations := project.operations.deleteWhere (fun key _ => key.1 = user) }
    pure (project,.published generation version p.changed)

end TeamProject

end LatexCore.Teams
