import LatexCore.Core.Types
import LatexCore.Foundation.CrashDisk
import LatexCore.Foundation.Runs

/-! # The file-system blob store

Any number of operations on one root, each system call in one step, with failing
calls, processes that are killed and crashes of the machine at any moment. A
temporary file belongs to the put that writes it; a blob appears at its final
path when the file is renamed without replacing anything. SHA-256 is a parameter.
-/
namespace LatexCore.Blobs
open Core Foundation

abbrev Bytes := List UInt8

abbrev BlobPath := List String

structure StoredFile where
  bytes : Bytes
  synced : Bool
deriving DecidableEq

abbrev BlobDisk := Disk String StoredFile

inductive PutStatus
  | stored | alreadyPresent
deriving DecidableEq

structure PutResult where
  hash : BlobHash
  sizeBytes : ℕ
  status : PutStatus
deriving DecidableEq

inductive DeleteOutcome
  | deleted | notFound
deriving DecidableEq

inductive BlobStoreError
  | hashMismatch (expected actual : BlobHash)
  | corruptBlob (expected actual : BlobHash)
  | notFound (hash : BlobHash)
  | invalidStorageEntry (path : BlobPath)
  | io (operation : String) (path : BlobPath)
deriving DecidableEq

inductive IntegrityMode
  | verifyOnRead | trustStorage
deriving DecidableEq

inductive Operation
  | opening
  | put (bytes : Bytes)
  | putVerified (expected : BlobHash) (bytes : Bytes)
  | get (hash : BlobHash)
  | exist (hash : BlobHash)
  | delete (hash : BlobHash)

inductive Answer
  | opened (result : Except BlobStoreError Unit)
  | put (result : Except BlobStoreError PutResult)
  | got (result : Except BlobStoreError Bytes)
  | existed (result : Except BlobStoreError Bool)
  | deleted (result : Except BlobStoreError DeleteOutcome)

/-- What a creation of directories is for. -/
inductive Goal
  | opening
  | publish (hash : BlobHash) (bytes : Bytes)

/-- Where an operation stands between two system calls; a put that has its blob in place keeps whether a
delete has removed it since. -/
inductive Task
  | idle
  | making (goal : Goal) (depth : ℕ) (climbing : Bool)
  | requiring
  | checking (hash : BlobHash) (bytes : Bytes)
  | creating (hash : BlobHash) (bytes : Bytes)
  | writing (hash : BlobHash) (bytes : Bytes) (temporary : StoredFile)
  | linking (hash : BlobHash) (bytes : Bytes) (temporary : StoredFile)
  | syncing (hash : BlobHash) (size : ℕ) (deleted : Bool)
  | verifying (hash : BlobHash) (size : ℕ)
  | reading (hash : BlobHash) (size length : ℕ)
  | getting (hash : BlobHash)
  | fetching (hash : BlobHash) (length : ℕ)
  | existing (hash : BlobHash)
  | deleting (hash : BlobHash)
  | removing (hash : BlobHash)
  | finished (answer : Answer)

/-- The directory of a blob, `sha256/HH/HH`. -/
def shard (hash : BlobHash) : BlobPath :=
  ["sha256",String.ofList (hash.toHex.toList.take 2),String.ofList ((hash.toHex.toList.drop 2).take 2)]

/-- `FsBlobStore::path`, below the root. -/
def blobPath (hash : BlobHash) : BlobPath := shard hash ++ [hash.toHex]

def Goal.directory : Goal → BlobPath
  | .opening => ["sha256"]
  | .publish hash _ => shard hash

/-- The state of a store, with the blobs that a put has reported and no delete has removed since. -/
structure World where
  disk : BlobDisk
  tasks : ℕ → Task
  reported : BlobHash → Bool

/-- A call of a process, its next system call (which may fail, and writes at most so many bytes), the end
of a process, and a crash. -/
inductive Label
  | call (process : ℕ) (operation : Operation)
  | step (process : ℕ) (fault : Bool) (amount : ℕ)
  | kill (process : ℕ)
  | crash (keep : BlobPath → Bool) (torn : BlobPath → Bytes)

variable (digest : Bytes → BlobHash) (mode : IntegrityMode)

def World.setTask (w : World) (process : ℕ) (task : Task) : World :=
  { w with tasks := Function.update w.tasks process task }

def World.answer (w : World) (process : ℕ) (answer : Answer) : World := w.setTask process (.finished answer)

/-- The contents that a crash leaves of a file. -/
def StoredFile.tear (torn : Bytes) (file : StoredFile) : StoredFile :=
  if file.synced then file else ⟨torn,true⟩

/-- The start of an operation up to its first system call. -/
def Operation.task : Operation → Task
  | .opening => .making .opening 1 true
  | .put bytes => .checking (digest bytes) bytes
  | .putVerified expected bytes =>
    if digest bytes = expected then .checking expected bytes
    else .finished (.put (.error (.hashMismatch expected (digest bytes))))
  | .get hash => .getting hash
  | .exist hash => .existing hash
  | .delete hash => .deleting hash

/-- The error that an operation returns when a system call fails. -/
def Task.fail (path : BlobPath) : Task → Answer
  | .making .opening _ _ => .opened (.error (.io "create store directories" path))
  | .making (.publish ..) _ _ => .put (.error (.io "create shard directories" path))
  | .requiring => .opened (.error (.io "inspect store directory" path))
  | .checking .. => .put (.error (.io "inspect blob" path))
  | .creating .. => .put (.error (.io "create temporary blob" path))
  | .writing .. => .put (.error (.io "write temporary blob" path))
  | .linking .. => .put (.error (.io "publish blob" path))
  | .syncing .. => .put (.error (.io "sync shard directory" path))
  | .verifying .. => .put (.error (.io "inspect blob" path))
  | .reading .. => .put (.error (.io "read existing blob" path))
  | .getting _ => .got (.error (.io "inspect blob" path))
  | .fetching .. => .got (.error (.io "read blob" path))
  | .existing _ => .existed (.error (.io "inspect blob" path))
  | .deleting _ => .deleted (.error (.io "inspect blob for deletion" path))
  | .removing _ => .deleted (.error (.io "delete blob" path))
  | .idle => .opened (.ok ())
  | .finished answer => answer

def Task.path : Task → BlobPath
  | .making goal _ _ => goal.directory
  | .creating hash _ | .writing hash .. | .syncing hash .. => shard hash
  | .checking hash _ | .linking hash .. | .verifying hash _ | .reading hash .. | .getting hash
  | .fetching hash _ | .existing hash | .deleting hash | .removing hash => blobPath hash
  | .idle | .requiring | .finished _ => []

def Goal.made (goal : Goal) (depth : ℕ) : Task :=
  if depth < goal.directory.length then .making goal (depth + 1) false
  else match goal with
    | .opening => .requiring
    | .publish hash bytes => .creating hash bytes

/-- A step of `create_dir_all`: from the deepest directory up to one that can be made, and down again. -/
def World.make (w : World) (process : ℕ) (goal : Goal) (depth : ℕ) (climbing : Bool) : World :=
  match w.disk.mkdir (goal.directory.take depth) with
  | .ok disk => { w.setTask process (goal.made depth) with disk := disk }
  | .error e =>
    if e = .notFound ∧ climbing then w.setTask process (.making goal (depth - 1) true)
    else if w.disk.seen.isDir (goal.directory.take depth) then w.setTask process (goal.made depth)
    else w.answer process ((Task.making goal depth climbing).fail goal.directory)

/-- `regular_metadata`, for the length of a file. -/
def regularMetadata (disk : BlobDisk) (hash : BlobHash) : Except BlobStoreError ℕ :=
  match disk.seen (blobPath hash) with
  | none => .error (.notFound hash)
  | some .dir => .error (.invalidStorageEntry (blobPath hash))
  | some (.file file) => .ok file.bytes.length

def readFile (disk : BlobDisk) (hash : BlobHash) : Option Bytes :=
  match disk.seen (blobPath hash) with
  | some (.file file) => some file.bytes
  | _ => none

/-- The checks of `verify_existing` on the bytes that it has read. -/
def verifies (hash : BlobHash) (size length : ℕ) (data : Bytes) : Bool :=
  digest data == hash && length == size && data.length == size

def World.report (w : World) (process : ℕ) (hash : BlobHash) (size : ℕ) (status : PutStatus) : World :=
  { w.answer process (.put (.ok ⟨hash,size,status⟩)) with
    reported := Function.update w.reported hash true }

/-- A put knows that its blob has been removed. -/
def Task.forget (gone : BlobHash) : Task → Task
  | .syncing hash size deleted => .syncing hash size (deleted || hash == gone)
  | task => task

/-- The calls of `publish` from the temporary file on. -/
def World.publish (w : World) (process amount : ℕ) : Task → World
  | .creating hash bytes =>
    if w.disk.seen.isDir (shard hash) then w.setTask process (.writing hash bytes ⟨[],false⟩)
    else w.answer process ((Task.creating hash bytes).fail (shard hash))
  | .writing hash bytes temporary =>
    if temporary.bytes.length < bytes.length then
      w.setTask process (.writing hash bytes
        ⟨temporary.bytes ++ (bytes.drop temporary.bytes.length).take (amount + 1),false⟩)
    else w.setTask process (.linking hash bytes { temporary with synced := true })
  | .linking hash bytes temporary =>
    if temporary.bytes.length = bytes.length then
      match w.disk.link (blobPath hash) temporary with
      | .ok disk => { w.setTask process (.syncing hash bytes.length false) with disk := disk }
      | .error .alreadyExists => w.setTask process (.verifying hash bytes.length)
      | .error _ => w.answer process ((Task.linking hash bytes temporary).fail (blobPath hash))
    else w.answer process (.put (.error (.corruptBlob hash (digest bytes))))
  | .syncing hash size deleted =>
    let w' := { w with disk := w.disk.syncDirectory (shard hash) }
    if deleted then w'.answer process (.put (.ok ⟨hash,size,.stored⟩)) else w'.report process hash size .stored
  | _ => w

/-- The calls that only inspect and read. -/
def World.inspect (w : World) (process : ℕ) : Task → World
  | .requiring =>
    if w.disk.seen.isDir [] && w.disk.seen.isDir ["sha256"] then w.answer process (.opened (.ok ()))
    else w.answer process (.opened (.error (.invalidStorageEntry ["sha256"])))
  | .checking hash bytes =>
    match w.disk.seen (blobPath hash) with
    | some (.file _) => w.setTask process (.verifying hash bytes.length)
    | some .dir => w.answer process (.put (.error (.invalidStorageEntry (blobPath hash))))
    | none => w.setTask process (.making (.publish hash bytes) (shard hash).length true)
  | .verifying hash size =>
    match regularMetadata w.disk hash with
    | .ok length => w.setTask process (.reading hash size length)
    | .error e => w.answer process (.put (.error e))
  | .reading hash size length =>
    match readFile w.disk hash with
    | none => w.answer process ((Task.reading hash size length).fail (blobPath hash))
    | some data =>
      if verifies digest hash size length data then w.report process hash size .alreadyPresent
      else w.answer process (.put (.error (.corruptBlob hash (digest data))))
  | .getting hash =>
    match regularMetadata w.disk hash with
    | .ok length => w.setTask process (.fetching hash length)
    | .error e => w.answer process (.got (.error e))
  | .fetching hash length =>
    match readFile w.disk hash with
    | none => w.answer process ((Task.fetching hash length).fail (blobPath hash))
    | some data =>
      if length == data.length && (mode == .trustStorage || digest data == hash)
        then w.answer process (.got (.ok data))
      else w.answer process (.got (.error (.corruptBlob hash (digest data))))
  | .existing hash =>
    match w.disk.seen (blobPath hash) with
    | none => w.answer process (.existed (.ok false))
    | some .dir => w.answer process (.existed (.error (.invalidStorageEntry (blobPath hash))))
    | some (.file _) => w.answer process (.existed (.ok true))
  | .deleting hash =>
    match w.disk.seen (blobPath hash) with
    | none => w.answer process (.deleted (.ok .notFound))
    | some .dir => w.answer process (.deleted (.error (.invalidStorageEntry (blobPath hash))))
    | some (.file _) => w.setTask process (.removing hash)
  | _ => w

/-- `fs::remove_file` of a delete. -/
def World.remove (w : World) (process : ℕ) (hash : BlobHash) : World :=
  match w.disk.seen (blobPath hash) with
  | some (.file _) =>
    { w with
      disk := w.disk.unlink (blobPath hash)
      tasks := Function.update (fun other => (w.tasks other).forget hash) process
        (.finished (.deleted (.ok .deleted)))
      reported := Function.update w.reported hash false }
  | _ => w.answer process ((Task.removing hash).fail (blobPath hash))

/-- The next system call of a process. -/
def World.advance (w : World) (process amount : ℕ) : World :=
  match w.tasks process with
  | .making goal depth climbing => w.make process goal depth climbing
  | .creating hash bytes => w.publish digest process amount (.creating hash bytes)
  | .writing hash bytes temporary => w.publish digest process amount (.writing hash bytes temporary)
  | .linking hash bytes temporary => w.publish digest process amount (.linking hash bytes temporary)
  | .syncing hash size deleted => w.publish digest process amount (.syncing hash size deleted)
  | .removing hash => w.remove process hash
  | task => w.inspect digest mode process task

def Task.isOver : Task → Bool
  | .idle | .finished _ => true
  | _ => false

def World.step (w : World) : Label → World
  | .call process operation =>
    if (w.tasks process).isOver then w.setTask process (operation.task digest) else w
  | .step process fault amount =>
    if fault && !(w.tasks process).isOver then w.answer process ((w.tasks process).fail (w.tasks process).path)
    else w.advance digest mode process amount
  | .kill process => w.setTask process .idle
  | .crash keep torn =>
    { w with
      disk := w.disk.crash keep (fun path => StoredFile.tear (torn path))
      tasks := fun _ => .idle }

def World.start : World := ⟨.empty,fun _ => .idle,fun _ => false⟩

end LatexCore.Blobs
