import LatexCore.Core.Types
import LatexCore.Workspace.Path

/-! # Replayed workspace states

The deterministic state that mutations build, file by file, and the immutable
manifest of its files. A mutation is applied to a candidate as a whole or not at
all. A manifest carries the two checks of its constructor as fields, so a state
read back from one is valid, and it is the state the manifest was taken of. The failures
of the blob store, of the event repository and of the service over them have the fields
and the texts of the source; `none` stands for the text of a `serde_json` error.
-/
namespace LatexCore.Workspace
open Core

/-! ## Errors of the workspace log -/

abbrev WorkspaceVersion := ℕ

def checkedNext (version : WorkspaceVersion) : Option WorkspaceVersion :=
  if version < u64Max then some (version + 1) else none

inductive BlobStoreError
  | invalidConfiguration (message : String)
  | notFound (hash : BlobHash)
  | hashMismatch (expected actual : BlobHash)
  | corruptBlob (expected actual : BlobHash)
deriving DecidableEq

inductive PersistenceError
  | notFound (entity : String)
  | versionConflict (expected actual : WorkspaceVersion)
  | integrityViolation (message : String)
  | database (constraint : String)
deriving DecidableEq

inductive ManifestError
  | empty | missingMainFile
deriving DecidableEq

def ManifestError.display : ManifestError → String
  | .empty => "workspace manifest must contain at least one file"
  | .missingMainFile => "workspace manifest main file is absent from files"

inductive WorkspaceError
  | emptyMutation
  | fileNotFound (path : LogicalPath)
  | fileAlreadyExists (path : LogicalPath)
  | invalidWorkspaceState (message : String)
  | versionConflict (expected actual : WorkspaceVersion)
  | versionOverflow
  | unsupportedEventType (eventType : String)
  | unsupportedEventSchema (version : ℕ)
  | corruptPersistentEvent (message : Option String)
  | snapshotMismatch (expected actual : SnapshotId)
  | blobSizeMismatch (expected actual : UInt64)
  | blob (error : BlobStoreError)
  | persistence (error : PersistenceError)
  | serialization
  | manifest (message : String)
deriving DecidableEq

/-- A version conflict of the repository is the caller's; every other failure is kept as it is. -/
def mapPersistence : PersistenceError → WorkspaceError
  | .versionConflict expected actual => .versionConflict expected actual
  | other => .persistence other

theorem checkedNext_eq_some {version next : WorkspaceVersion} :
    checkedNext version = some next ↔ version < u64Max ∧ next = version + 1 := by
  unfold checkedNext
  split
  · next h => simp [h,eq_comm]
  · next h => simp [h]

/-! ## States -/

open Foundation Std

structure WorkspaceFile where
  blobHash : BlobHash
  sizeBytes : UInt64
deriving DecidableEq

inductive WorkspaceOperationV1
  | putFile (path : LogicalPath) (blobHash : BlobHash) (sizeBytes : UInt64)
  | deleteFile (path : LogicalPath)
  | renameFile (source target : LogicalPath)
  | setMainFile (path : LogicalPath)
deriving DecidableEq

structure WorkspaceMutationV1 where
  operations : List WorkspaceOperationV1
  nonempty : operations ≠ []
deriving DecidableEq

def WorkspaceMutationV1.schemaVersion : ℕ := 1

def WorkspaceMutationV1.new (operations : List WorkspaceOperationV1) :
    Except WorkspaceError WorkspaceMutationV1 :=
  if h : operations ≠ [] then .ok ⟨operations,h⟩ else .error .emptyMutation

structure FileEntryV1 where
  blobHash : BlobHash
  sizeBytes : UInt64
deriving DecidableEq

structure WorkspaceManifestV1 where
  mainFile : LogicalPath
  files : ExtTreeMap LogicalPath FileEntryV1
  nonempty : files.isEmpty = false
  mainPresent : files.contains mainFile = true

def WorkspaceManifestV1.schemaVersion : ℕ := 1

def WorkspaceManifestV1.new (mainFile : LogicalPath) (files : ExtTreeMap LogicalPath FileEntryV1) :
    Except ManifestError WorkspaceManifestV1 :=
  if hempty : files.isEmpty = false then
    if hmain : files.contains mainFile = true then .ok ⟨mainFile,files,hempty,hmain⟩
    else .error .missingMainFile
  else .error .empty

structure WorkspaceState where
  workspaceId : WorkspaceId
  version : WorkspaceVersion
  mainFile : Option LogicalPath
  files : ExtTreeMap LogicalPath WorkspaceFile

namespace WorkspaceState

def empty (workspaceId : WorkspaceId) : WorkspaceState := ⟨workspaceId,0,none,∅⟩

/-- A project may have no main file; one that has must hold it. -/
def validate (state : WorkspaceState) : Except WorkspaceError Unit :=
  match state.mainFile, state.files.isEmpty with
  | none, _ => .ok ()
  | some main, false =>
    if state.files.contains main then .ok ()
    else .error (.invalidWorkspaceState "main file is absent from workspace files")
  | some _, true => .error (.invalidWorkspaceState "empty workspace has a main file")

def applyOperation (state : WorkspaceState) :
    WorkspaceOperationV1 → Except WorkspaceError WorkspaceState
  | .putFile path blobHash sizeBytes =>
    .ok { state with files := state.files.insert path ⟨blobHash,sizeBytes⟩ }
  | .deleteFile path => do
    ensure (state.files.contains path) (.fileNotFound path)
    let mainFile := if state.mainFile = some path then none else state.mainFile
    pure { state with files := state.files.erase path, mainFile := mainFile }
  | .renameFile source target =>
    if source = target then do
      ensure (state.files.contains source) (.fileNotFound source)
      pure state
    else do
      ensure (!state.files.contains target) (.fileAlreadyExists target)
      let file ← require state.files[source]? (.fileNotFound source)
      let files := (state.files.erase source).insert target file
      let mainFile := if state.mainFile = some source then some target else state.mainFile
      pure { state with files := files, mainFile := mainFile }
  | .setMainFile path => do
    ensure (state.files.contains path) (.fileNotFound path)
    pure { state with mainFile := some path }

def apply (state : WorkspaceState) (mutation : WorkspaceMutationV1) (expected : WorkspaceVersion) :
    Except WorkspaceError WorkspaceState := do
  ensure (state.version = expected) (.versionConflict expected state.version)
  let candidate ← mutation.operations.foldlM applyOperation state
  candidate.validate
  let next ← require (checkedNext candidate.version) .versionOverflow
  pure { candidate with version := next }

def toManifest (state : WorkspaceState) : Except WorkspaceError WorkspaceManifestV1 := do
  state.validate
  let main ← require state.mainFile (.invalidWorkspaceState "empty workspace cannot be snapshotted")
  let files := state.files.map (fun _ file => ⟨file.blobHash,file.sizeBytes⟩)
  (WorkspaceManifestV1.new main files).mapError (fun error => .manifest error.display)

def fromManifest (workspaceId : WorkspaceId) (version : WorkspaceVersion)
    (manifest : WorkspaceManifestV1) : Except WorkspaceError WorkspaceState := do
  let files := manifest.files.map (fun _ entry => ⟨entry.blobHash,entry.sizeBytes⟩)
  let state : WorkspaceState := ⟨workspaceId,version,some manifest.mainFile,files⟩
  state.validate
  pure state

def Valid (state : WorkspaceState) : Prop :=
  ∀ main, state.mainFile = some main → state.files.contains main = true

theorem empty_valid (workspaceId : WorkspaceId) : (empty workspaceId).Valid := by
  intro main h
  cases h

theorem validate_ok {state : WorkspaceState} {u : Unit} : state.validate = .ok u ↔ state.Valid := by
  unfold validate Valid
  cases hmain : state.mainFile with
  | none => simp
  | some main =>
    cases hempty : state.files.isEmpty with
    | true =>
      rw [ExtTreeMap.isEmpty_iff] at hempty
      simp [hempty]
    | false => simp

theorem applyOperation_same {state next : WorkspaceState} {operation : WorkspaceOperationV1}
    (h : state.applyOperation operation = .ok next) :
    next.workspaceId = state.workspaceId ∧ next.version = state.version := by
  cases operation with
  | putFile path blobHash sizeBytes =>
    cases h
    exact ⟨rfl,rfl⟩
  | deleteFile path =>
    simp only [applyOperation,bind_ok,pure_ok] at h
    obtain ⟨_,_,rfl⟩ := h
    exact ⟨rfl,rfl⟩
  | renameFile source target =>
    simp only [applyOperation] at h
    split at h
    · simp only [bind_ok,pure_ok] at h
      obtain ⟨_,_,rfl⟩ := h
      exact ⟨rfl,rfl⟩
    · simp only [bind_ok,pure_ok] at h
      obtain ⟨_,_,_,_,rfl⟩ := h
      exact ⟨rfl,rfl⟩
  | setMainFile path =>
    simp only [applyOperation,bind_ok,pure_ok] at h
    obtain ⟨_,_,rfl⟩ := h
    exact ⟨rfl,rfl⟩

theorem applyOperation_valid {state next : WorkspaceState} {operation : WorkspaceOperationV1}
    (h : state.applyOperation operation = .ok next) (hv : state.Valid) : next.Valid := by
  cases operation with
  | putFile path blobHash sizeBytes =>
    cases h
    intro main hmain
    rw [ExtTreeMap.contains_insert,hv main hmain,Bool.or_true]
  | deleteFile path =>
    simp only [applyOperation,bind_ok,pure_ok] at h
    obtain ⟨_,_,rfl⟩ := h
    intro main hmain
    dsimp only at hmain ⊢
    split at hmain
    · cases hmain
    · next hne =>
      have hpath : path ≠ main := fun he => hne (he ▸ hmain)
      rw [ExtTreeMap.contains_erase,hv main hmain,Bool.and_true]
      simpa using hpath
  | renameFile source target =>
    simp only [applyOperation] at h
    split at h
    · simp only [bind_ok,pure_ok] at h
      obtain ⟨_,_,rfl⟩ := h
      exact hv
    · next hne =>
      simp only [bind_ok,pure_ok] at h
      obtain ⟨_,_,_,_,rfl⟩ := h
      intro main hmain
      dsimp only at hmain ⊢
      split at hmain
      · cases hmain
        exact ExtTreeMap.contains_insert_self
      · next hsource =>
        have hpath : source ≠ main := fun he => hsource (he ▸ hmain)
        rw [ExtTreeMap.contains_insert,ExtTreeMap.contains_erase,hv main hmain]
        simp [hpath]
  | setMainFile path =>
    simp only [applyOperation,bind_ok,pure_ok,ensure_ok] at h
    obtain ⟨_,hc,rfl⟩ := h
    intro main hmain
    cases hmain
    exact hc

theorem foldlM_same {operations : List WorkspaceOperationV1} {state next : WorkspaceState}
    (h : operations.foldlM applyOperation state = .ok next) :
    next.workspaceId = state.workspaceId ∧ next.version = state.version := by
  induction operations generalizing state with
  | nil =>
    cases h
    exact ⟨rfl,rfl⟩
  | cons operation rest ih =>
    rw [List.foldlM_cons,bind_ok] at h
    obtain ⟨middle,hstep,hrest⟩ := h
    obtain ⟨hid,hversion⟩ := applyOperation_same hstep
    rw [← hid,← hversion]
    exact ih hrest

/-- No mutation can invalidate a state, so the check at the end of `apply` never fails. -/
theorem foldlM_valid {operations : List WorkspaceOperationV1} {state next : WorkspaceState}
    (h : operations.foldlM applyOperation state = .ok next) (hv : state.Valid) : next.Valid := by
  induction operations generalizing state with
  | nil =>
    cases h
    exact hv
  | cons operation rest ih =>
    rw [List.foldlM_cons,bind_ok] at h
    obtain ⟨middle,hstep,hrest⟩ := h
    exact ih hrest (applyOperation_valid hstep hv)

theorem apply_ok {state next : WorkspaceState} {mutation : WorkspaceMutationV1}
    {expected : WorkspaceVersion} (h : state.apply mutation expected = .ok next) :
    state.version = expected ∧ checkedNext expected = some next.version ∧
      next.workspaceId = state.workspaceId := by
  simp only [apply,bind_ok,pure_ok,ensure_ok,require_ok,decide_eq_true_eq] at h
  obtain ⟨_,hversion,candidate,hfold,_,_,version,hnext,rfl⟩ := h
  obtain ⟨hid,hsame⟩ := foldlM_same hfold
  rw [hsame,hversion] at hnext
  exact ⟨hversion,hnext,hid⟩

theorem fromManifest_toManifest {state : WorkspaceState} {manifest : WorkspaceManifestV1}
    (h : state.toManifest = .ok manifest) :
    fromManifest state.workspaceId state.version manifest = .ok state := by
  simp only [toManifest,bind_ok,require_ok,mapError_ok] at h
  obtain ⟨_,hvalid,main,hmain,hnew⟩ := h
  unfold WorkspaceManifestV1.new at hnew
  split at hnew
  · split at hnew
    · cases hnew
      have hfiles : (state.files.map (fun _ file =>
          (⟨file.blobHash,file.sizeBytes⟩ : FileEntryV1))).map (fun _ entry =>
          (⟨entry.blobHash,entry.sizeBytes⟩ : WorkspaceFile)) = state.files := by
        apply ExtTreeMap.ext_getElem?
        intro path
        rw [ExtTreeMap.getElem?_map,ExtTreeMap.getElem?_map,Option.map_map]
        cases state.files[path]? <;> rfl
      simp only [fromManifest,bind_ok,pure_ok]
      refine ⟨(),?_,?_⟩
      · rw [validate_ok] at hvalid ⊢
        intro path hpath
        cases hpath
        rw [hfiles]
        exact hvalid main hmain
      · rw [hfiles,← hmain]
    · cases hnew
  · cases hnew

end WorkspaceState

end LatexCore.Workspace
