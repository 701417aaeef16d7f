import LatexCore.Foundation.Program
import LatexCore.Foundation.Table
import LatexCore.Workspace.Wire

/-! # Event repository and blob store

The tables of the workspace log with their keys and checks, the transactions of
the repository over them, and the content-addressed blob store. A client reaches
both only through calls; each call is atomic and answers with a result or with
the failure that left the tables alone. SHA-256 and the JSON printer and parser
come from outside: of the latter only the round trip of a manifest is assumed.
-/
namespace LatexCore.Workspace
open Core Foundation

abbrev Bytes := List UInt8

structure Codec where
  sha256 : Bytes → Digest
  toVec : Value → Bytes
  fromSlice : Bytes → Option Value
  fromSlice_toVec : ∀ manifest : WorkspaceManifestV1,
    fromSlice (toVec manifest.toValue) = some manifest.toValue

structure HeadRow where
  durableVersion : ℕ
  latestSnapshotVersion : Option ℕ
deriving DecidableEq

structure EventRow where
  baseVersion : ℕ
  eventType : String
  eventSchemaVersion : ℕ
  payload : Value
  createdByUserId : UserId

structure Store where
  verifyOnRead : Bool
  tenants : List TenantId
  users : List UserId
  blobs : Table BlobHash Bytes
  workspaces : Table WorkspaceId (TenantId × UserId)
  heads : Table WorkspaceId HeadRow
  events : Table (WorkspaceId × ℕ) EventRow
  snapshots : Table SnapshotId BlobHash
  workspaceSnapshots : Table (WorkspaceId × ℕ) SnapshotId

def Store.initial (verifyOnRead : Bool) (tenants : List TenantId) (users : List UserId) : Store :=
  ⟨verifyOnRead,tenants,users,.empty,.empty,.empty,.empty,.empty,.empty⟩

structure PutResult where
  hash : BlobHash
  sizeBytes : UInt64
deriving DecidableEq

structure WorkspaceSnapshotRecord where
  workspaceVersion : WorkspaceVersion
  snapshotId : SnapshotId
  manifestBlobHash : BlobHash
deriving DecidableEq

structure WorkspaceHeadRecord where
  workspaceId : WorkspaceId
  durableVersion : WorkspaceVersion
  latestSnapshot : Option WorkspaceSnapshotRecord
deriving DecidableEq

structure WorkspaceEventRecord where
  sequence : WorkspaceVersion
  baseVersion : WorkspaceVersion
  eventType : String
  eventSchemaVersion : ℕ
  payload : Value

/-- `publish`: a blob that is there already is verified and kept. -/
def writeVerified (codec : Codec) (s : Store) (expected : BlobHash) (bytes : Bytes) :
    Except BlobStoreError (Store × PutResult) := do
  ensure (codec.sha256 bytes = expected) (.hashMismatch expected (codec.sha256 bytes))
  ensure (bytes.length ≤ u64Max) (.invalidConfiguration "blob length does not fit u64")
  let result : PutResult := ⟨expected,UInt64.ofNat bytes.length⟩
  match s.blobs.get? expected with
  | some data =>
    ensure (codec.sha256 data = expected ∧ data.length = bytes.length)
      (.corruptBlob expected (codec.sha256 data))
    pure (s,result)
  | none =>
    let blobs ← require (s.blobs.insert? expected bytes) (.invalidConfiguration "publish blob")
    pure ({ s with blobs := blobs },result)

def getBlob (codec : Codec) (s : Store) (hash : BlobHash) : Except BlobStoreError Bytes := do
  let data ← require (s.blobs.get? hash) (.notFound hash)
  ensure (!s.verifyOnRead || codec.sha256 data = hash) (.corruptBlob hash (codec.sha256 data))
  pure data

def versionToDb (version : WorkspaceVersion) : Except PersistenceError Unit :=
  ensure (version ≤ i64Max) (.integrityViolation "workspace version exceeds PostgreSQL BIGINT")

def schemaToDb (version : ℕ) : Except PersistenceError Unit :=
  ensure (version ≤ i32Max)
    (.integrityViolation "event schema version exceeds PostgreSQL INTEGER")

def insertEvent (s : Store) (workspaceId : WorkspaceId) (sequence : ℕ) (row : EventRow) :
    Except PersistenceError Store := do
  ensure (1 ≤ row.eventSchemaVersion) (.database "workspace_events_schema_version_positive")
  ensure (1 ≤ row.eventType.toList.length ∧ row.eventType.toList.length ≤ 64)
    (.database "workspace_events_type_length")
  ensure row.payload.isObject (.database "workspace_events_payload_object")
  ensure (sequence = row.baseVersion + 1) (.database "workspace_events_sequence_matches_base")
  let events ← require (s.events.insert? (workspaceId,sequence) row) (.database "workspace_events_pk")
  ensure (s.users.contains row.createdByUserId) (.database "workspace_events_user_fk")
  pure { s with events := events }

def createWorkspaceWithInitialEvent (tenant : TenantId) (owner : UserId) (workspaceId : WorkspaceId)
    (eventType : String) (eventSchemaVersion : ℕ) (payload : Value) (s : Store) :
    Except PersistenceError (Store × WorkspaceVersion) := do
  schemaToDb eventSchemaVersion
  let workspaces ← require (s.workspaces.insert? workspaceId (tenant,owner))
    (.database "workspaces_pkey")
  ensure (s.tenants.contains tenant) (.database "workspaces_tenant_fk")
  ensure (s.users.contains owner) (.database "workspaces_owner_user_fk")
  let heads ← require (s.heads.insert? workspaceId ⟨0,none⟩) (.database "workspace_heads_pkey")
  let s ← insertEvent { s with workspaces := workspaces, heads := heads } workspaceId 1
    ⟨0,eventType,eventSchemaVersion,payload,owner⟩
  let heads := s.heads.modify workspaceId (fun h => { h with durableVersion := 1 })
  pure ({ s with heads := heads },1)

def appendEvent (workspaceId : WorkspaceId) (createdBy : UserId) (expected : WorkspaceVersion)
    (eventType : String) (eventSchemaVersion : ℕ) (payload : Value) (s : Store) :
    Except PersistenceError (Store × WorkspaceVersion) := do
  versionToDb expected
  schemaToDb eventSchemaVersion
  let head ← require (s.heads.get? workspaceId) (.notFound "workspace")
  ensure (head.durableVersion = expected) (.versionConflict expected head.durableVersion)
  let next ← require (checkedNext expected) (.integrityViolation "workspace version overflow")
  versionToDb next
  let s ← insertEvent s workspaceId next ⟨expected,eventType,eventSchemaVersion,payload,createdBy⟩
  let heads := s.heads.modify workspaceId (fun h => { h with durableVersion := next })
  pure ({ s with heads := heads },next)

def loadHead (s : Store) (workspaceId : WorkspaceId) :
    Except PersistenceError WorkspaceHeadRecord := do
  let head ← require (s.heads.get? workspaceId) (.notFound "workspace")
  match head.latestSnapshotVersion with
  | none => pure ⟨workspaceId,head.durableVersion,none⟩
  | some version =>
    let snapshot ← require (s.workspaceSnapshots.get? (workspaceId,version))
      (.integrityViolation "snapshot head has no snapshot mapping")
    let manifest ← require (s.snapshots.get? snapshot)
      (.integrityViolation "snapshot mapping has no global snapshot")
    pure ⟨workspaceId,head.durableVersion,some ⟨version,snapshot,manifest⟩⟩

def eventRecord (row : (WorkspaceId × ℕ) × EventRow) : WorkspaceEventRecord :=
  ⟨row.1.2,row.2.baseVersion,row.2.eventType,row.2.eventSchemaVersion,row.2.payload⟩

def loadEvents (s : Store) (workspaceId : WorkspaceId) (after through : WorkspaceVersion) :
    Except PersistenceError (List WorkspaceEventRecord) := do
  ensure (after ≤ through) (.integrityViolation "event range start exceeds end")
  versionToDb after
  versionToDb through
  let rows := s.events.rows.filter
    (fun r => r.1.1 == workspaceId && (after < r.1.2 && r.1.2 ≤ through))
  pure ((rows.mergeSort (fun a b => a.1.2 ≤ b.1.2)).map eventRecord)

/-- `INSERT … ON CONFLICT DO NOTHING`, then the row that is there. -/
def insertOrKeep {κ ν : Type} [DecidableEq κ] (t : Table κ ν) (k : κ) (v : ν) : Table κ ν × ν :=
  match t.get? k with
  | some stored => (t,stored)
  | none => ((t.insert? k v).getD t,v)

def recordSnapshot (workspaceId : WorkspaceId) (version : WorkspaceVersion)
    (snapshotId : SnapshotId) (manifestHash : BlobHash) (s : Store) :
    Except PersistenceError (Store × Unit) := do
  versionToDb version
  let head ← require (s.heads.get? workspaceId) (.notFound "workspace")
  ensure (version ≤ head.durableVersion)
    (.integrityViolation "snapshot version exceeds durable version")
  let (snapshots,storedManifest) := insertOrKeep s.snapshots snapshotId manifestHash
  ensure (storedManifest = manifestHash)
    (.integrityViolation "snapshot identity maps to a different manifest blob")
  let (workspaceSnapshots,storedSnapshot) :=
    insertOrKeep s.workspaceSnapshots (workspaceId,version) snapshotId
  ensure (storedSnapshot = snapshotId)
    (.integrityViolation "workspace version maps to a different snapshot")
  let heads := s.heads.updateWhere
    (fun k h => k == workspaceId && h.latestSnapshotVersion.all (fun latest => latest < version))
    (fun h => { h with latestSnapshotVersion := some version })
  pure ({ s with
    snapshots := snapshots
    workspaceSnapshots := workspaceSnapshots
    heads := heads },())

inductive Call
  | put (bytes : Bytes)
  | putVerified (expected : BlobHash) (bytes : Bytes)
  | get (hash : BlobHash)
  | createWorkspaceWithInitialEvent (tenant : TenantId) (owner : UserId)
      (workspaceId : WorkspaceId) (eventType : String) (eventSchemaVersion : ℕ) (payload : Value)
  | appendEvent (workspaceId : WorkspaceId) (createdBy : UserId) (expected : WorkspaceVersion)
      (eventType : String) (eventSchemaVersion : ℕ) (payload : Value)
  | loadHead (workspaceId : WorkspaceId)
  | loadEvents (workspaceId : WorkspaceId) (after through : WorkspaceVersion)
  | recordSnapshot (workspaceId : WorkspaceId) (version : WorkspaceVersion)
      (snapshotId : SnapshotId) (manifestHash : BlobHash)

def Call.Reply : Call → Type
  | put _ | putVerified _ _ => Except BlobStoreError PutResult
  | get _ => Except BlobStoreError Bytes
  | createWorkspaceWithInitialEvent .. | appendEvent .. => Except PersistenceError WorkspaceVersion
  | loadHead _ => Except PersistenceError WorkspaceHeadRecord
  | loadEvents .. => Except PersistenceError (List WorkspaceEventRecord)
  | recordSnapshot .. => Except PersistenceError Unit

def Call.puts : Call → Option Bytes
  | put bytes | putVerified _ bytes => some bytes
  | _ => none

/-- A transaction's answer, with the store it leaves: the old one on failure. -/
def transact {ε α : Type} (t : Store → Except ε (Store × α)) (s : Store) : Store × Except ε α :=
  (commit t s,(t s).map Prod.snd)

def serve (codec : Codec) (s : Store) : (request : Call) → Store × request.Reply
  | .put bytes => transact (fun s => writeVerified codec s (codec.sha256 bytes) bytes) s
  | .putVerified expected bytes => transact (fun s => writeVerified codec s expected bytes) s
  | .get hash => (s,getBlob codec s hash)
  | .createWorkspaceWithInitialEvent tenant owner workspaceId eventType schema payload =>
    transact (createWorkspaceWithInitialEvent tenant owner workspaceId eventType schema payload) s
  | .appendEvent workspaceId createdBy expected eventType schema payload =>
    transact (appendEvent workspaceId createdBy expected eventType schema payload) s
  | .loadHead workspaceId => (s,loadHead s workspaceId)
  | .loadEvents workspaceId after through => (s,loadEvents s workspaceId after through)
  | .recordSnapshot workspaceId version snapshotId manifestHash =>
    transact (recordSnapshot workspaceId version snapshotId manifestHash) s

end LatexCore.Workspace
