import LatexCore.Foundation.Json
import LatexCore.Workspace.Snapshot

/-! # Histories of the workspace service

Any number of clients run the operations of the service on one store, call by
call in any order, and may vanish in the middle of a call. Every reachable store
is sound, so that a restore always ends, and ends with the replay of the events
up to the durable version that it read.
-/
namespace LatexCore.Workspace
open Core Foundation
variable {codec : Codec} {bytesPut : Set Bytes} {s : Store} {workspaceId : WorkspaceId} {α : Type}

/-- What a success of the program promises nothing about. -/
abbrev Keeps (codec : Codec) (bytesPut : Set Bytes) (p : Service α) (s : Store) : Prop :=
  Ends codec bytesPut (OnOk (fun _ _ => True)) p s

theorem keeps_attempt {r : Except WorkspaceError α} : Keeps codec bytesPut (attempt r) s :=
  fun _ _ => trivial

theorem keeps_pure {a : α} : Keeps codec bytesPut (pure a) s := fun _ _ => trivial

theorem keeps_bind {β : Type} {p : Service α} {k : α → Service β}
    (h : Keeps codec bytesPut p s) (hk : ∀ t a, Keeps codec bytesPut (k a) t) :
    Keeps codec bytesPut (p >>= k) s :=
  ends_bind h (fun t a _ _ => hk t a)

theorem keeps_put (hfree : CollisionFree codec bytesPut) {bytes : Bytes} :
    Keeps codec bytesPut (ask (.put bytes) fromBlobs) s := by
  intro t _ hinv hallowed
  apply ends_transact hinv (fun _ _ => fromBlobs_error)
  intro t' r hwrite
  obtain ⟨hinv',hgrows,_⟩ := hinv.put hfree (hallowed bytes rfl) hwrite
  exact ⟨hinv',hgrows,fun _ _ => trivial⟩

theorem keeps_get {hash : BlobHash} : Keeps codec bytesPut (ask (.get hash) fromBlobs) s :=
  fun t _ hinv _ => ⟨hinv,.refl t,fun _ _ => trivial⟩

theorem keeps_validateAndAppend {state : WorkspaceState} {user : UserId}
    {expected : WorkspaceVersion} {mutation : WorkspaceMutationV1}
    (hstate : Replayed s workspaceId state.version state) :
    Keeps codec bytesPut (validateAndAppend state user expected mutation) s := by
  apply ends_attempt_bind
  intro after happly
  obtain ⟨hversion,_,hid⟩ := WorkspaceState.apply_ok happly
  rw [hid,(Replayed.version hstate).2]
  intro t hgrows hinv _
  apply ends_transact hinv (fun _ _ => fromRepository_error)
  intro t' next happend
  have hbase := hgrows.replayed hstate
  rw [hversion] at hbase
  obtain ⟨hinv',hgrows'⟩ := hinv.append hbase happly happend
  exact ⟨hinv',hgrows',fun _ _ => trivial⟩

theorem keeps_createFrom {tenant : TenantId} {owner : UserId}
    {operations : List WorkspaceOperationV1} :
    Keeps codec bytesPut (createFrom tenant owner workspaceId operations) s := by
  apply ends_attempt_bind
  intro mutation _
  apply ends_attempt_bind
  intro state happly
  apply keeps_bind
  · intro t _ hinv _
    apply ends_transact hinv (fun _ _ => fromRepository_error)
    intro t' next hcreate
    obtain ⟨hinv',hgrows⟩ := hinv.create happly hcreate
    exact ⟨hinv',hgrows,fun _ _ => trivial⟩
  · exact fun _ _ => keeps_pure

theorem keeps_putFiles (hfree : CollisionFree codec bytesPut) (files : List (LogicalPath × Bytes))
    (s : Store) : Keeps codec bytesPut (putFiles files) s := by
  induction files generalizing s with
  | nil => exact keeps_pure
  | cons file rest ih =>
    obtain ⟨path,bytes⟩ := file
    apply keeps_bind (keeps_put hfree)
    intro t stored
    exact keeps_bind (ih t) (fun _ _ => keeps_pure)

theorem keeps_mutate {user : UserId} {expected : WorkspaceVersion}
    {operation : WorkspaceOperationV1} :
    Keeps codec bytesPut (mutate codec workspaceId user expected operation) s := by
  have hexpected : Ends codec bytesPut
      (OnOk (fun t state => Replayed t workspaceId state.version state))
      (restoreExpected codec workspaceId expected) s := by
    apply ends_bind ends_restore
    intro t state _ hstate
    apply ends_attempt_bind
    rintro _ _ restored hrestored
    cases hrestored
    exact hstate
  apply ends_bind hexpected
  intro t state _ hstate
  apply ends_attempt_bind
  exact fun _ _ => keeps_validateAndAppend hstate

theorem keeps_putFile (hfree : CollisionFree codec bytesPut) {user : UserId}
    {expected : WorkspaceVersion} {path : LogicalPath} {bytes : Bytes} :
    Keeps codec bytesPut (putFile codec workspaceId user expected path bytes) s := by
  apply ends_bind ends_restore
  intro t state _ hstate
  apply ends_bind (keeps_put hfree)
  intro u stored hgrows _
  apply ends_attempt_bind
  intro _ _
  apply ends_attempt_bind
  exact fun _ _ => keeps_validateAndAppend (hgrows.replayed hstate)

theorem keeps_forceSnapshot (hfree : CollisionFree codec bytesPut) :
    Keeps codec bytesPut (forceSnapshot codec workspaceId) s :=
  Discipline.Holds.imp (ends_forceSnapshot hfree) (fun _ _ _ _ _ _ => trivial)

theorem keeps_readFile {path : LogicalPath} :
    Keeps codec bytesPut (readFile codec workspaceId path) s := by
  apply ends_bind ends_restore
  intro t state _ _
  apply ends_attempt_bind
  intro file _
  apply keeps_bind keeps_get
  intro u bytes
  exact keeps_bind keeps_attempt (fun _ _ => keeps_bind keeps_attempt (fun _ _ => keeps_pure))

theorem keeps_code (hfree : CollisionFree codec bytesPut) (operation : Operation) (s : Store) :
    (discipline codec bytesPut).Holds (fun _ _ => True) (operation.code codec) s := by
  have hmap {β : Type} {p : Service β} {f : β → Answer} (h : Keeps codec bytesPut p s) :
      (discipline codec bytesPut).Holds (fun _ _ => True) (f <$> p).run s := by
    apply Discipline.Holds.bind
    apply Discipline.Holds.imp h
    rintro t (e | a) _ _
    · trivial
    · trivial
  cases operation with
  | createWorkspace => exact hmap (keeps_bind (keeps_put hfree) (fun _ _ => keeps_createFrom))
  | createWorkspaceFromFiles _ _ _ files =>
    exact hmap (keeps_bind (keeps_putFiles hfree files s) (fun _ _ => keeps_createFrom))
  | putFile => exact hmap (keeps_putFile hfree)
  | deleteFile => exact hmap keeps_mutate
  | renameFile => exact hmap keeps_mutate
  | setMainFile => exact hmap keeps_mutate
  | forceSnapshot => exact hmap (keeps_forceSnapshot hfree)
  | restore =>
    apply hmap
    apply Discipline.Holds.imp ends_restore
    exact fun _ _ _ _ _ _ => trivial
  | readFile => exact hmap keeps_readFile

variable {ι : Type} [DecidableEq ι]

theorem allowed_of_put (codec : Codec) (w : World ι) (labels : List (Label ι)) :
    Clients.Allowed (discipline codec {b | b ∈ emitted (step codec) blobsPut w labels})
      (Operation.code codec) w labels := by
  have hputs : Along (step codec) (fun v label => ∀ b ∈ blobsPut v label,
      b ∈ emitted (step codec) blobsPut w labels) w labels :=
    (emitted_forall_iff (fun _ => True) (fun _ _ _ => trivial) (fun _ _ _ => Iff.rfl)
      trivial labels).mp (fun b hb => hb)
  apply hputs.mono
  intro v label hb request hrequest bytes hbytes
  exact hb bytes (List.mem_filterMap.mpr ⟨request,hrequest,hbytes⟩)

omit [DecidableEq ι] in
theorem inv_initial (verifyOnRead : Bool) (tenants : List TenantId) (users : List UserId) :
    Clients.Inv (discipline codec bytesPut) (initial ι verifyOnRead tenants users) := by
  refine ⟨integrity_initial verifyOnRead tenants users,?_⟩
  intro i p hp
  cases hp

/-- The restore of a client after its first call: at most two calls are left. -/
theorem within_restore (head : WorkspaceHeadRecord) :
    (Answer.state <$> (restoreBase codec workspaceId head.latestSnapshot >>=
      replayTail workspaceId head.durableVersion)).run.Within 2 := by
  have htail (base : WorkspaceState) (n : ℕ) :
      (Answer.state <$> replayTail workspaceId head.durableVersion base).run.Within (n + 1) := by
    refine ⟨n,rfl,?_⟩
    intro reply
    change Program.Within (ExceptT.run (Answer.state <$> (attempt (fromRepository reply) >>= _))) n
    cases fromRepository reply with
    | error e => trivial
    | ok events =>
      rw [attempt_ok_bind]
      cases events.foldlM replayEvent base with
      | error e => trivial
      | ok state =>
        rw [attempt_ok_bind]
        cases ensure (state.version = head.durableVersion) _ with
        | error e => trivial
        | ok u => trivial
  unfold restoreBase
  cases head.latestSnapshot with
  | none => exact htail _ 1
  | some snapshot =>
    refine ⟨1,rfl,?_⟩
    intro reply
    change Program.Within (ExceptT.run
      (Answer.state <$> ((attempt (fromBlobs reply) >>= _) >>= replayTail workspaceId _))) 1
    cases fromBlobs reply with
    | error e => trivial
    | ok bytes =>
      rw [attempt_ok_bind]
      cases readSnapshot codec workspaceId snapshot bytes with
      | error e => trivial
      | ok base => exact htail base 0

/-- A restore whose head is read after any history ends, whatever the other clients do meanwhile,
and ends with the state that the events up to that head's durable version lead to from the empty
state. -/
theorem restore_eq_replay (codec : Codec) (verifyOnRead : Bool) (tenants : List TenantId)
    (users : List UserId) (before after : List (Label ι)) (client : ι) (workspaceId : WorkspaceId)
    (head : HeadRow)
    (hfree : CollisionFree codec {b | b ∈ emitted (step codec) blobsPut
      (initial ι verifyOnRead tenants users) (before ++ .step client :: after)})
    (hhead : (run (step codec) (initial ι verifyOnRead tenants users) before).store.heads.get?
      workspaceId = some head)
    (hrestore : (run (step codec) (initial ι verifyOnRead tenants users) before).programs client =
      some ((Operation.restore workspaceId).code codec))
    (hstay : ∀ performed, .crash client performed ∉ after)
    (hsteps : 2 ≤ after.countP (ClientLabel.isStepOf client)) :
    let log := (run (step codec) (initial ι verifyOnRead tenants users) before).store.log workspaceId
    log.map WorkspaceEventRecord.sequence = List.range' 1 head.durableVersion ∧
      ∃ state, log.foldlM replayEvent (.empty workspaceId) = .ok state ∧
        state.version = head.durableVersion ∧
        (run (step codec) (initial ι verifyOnRead tenants users)
          (before ++ .step client :: after)).programs client =
            some (.done (.ok (.state state))) := by
  intro log
  let world := run (step codec) (initial ι verifyOnRead tenants users) before
  let bytesPut := {b | b ∈ emitted (step codec) blobsPut (initial ι verifyOnRead tenants users)
    (before ++ .step client :: after)}
  obtain ⟨hbefore,hstep,hafter⟩ := along_append.mp (allowed_of_put codec
    (initial ι verifyOnRead tenants users) (before ++ .step client :: after))
  have hcode (operation : Operation) (s : Store) (_ : Integrity codec bytesPut s) :=
    keeps_code hfree operation s
  have hinv : Clients.Inv (discipline codec bytesPut) world :=
    Clients.inv_run hcode hbefore (inv_initial verifyOnRead tenants users)
  have hinv' := (Clients.inv_step hcode hinv hstep).1
  obtain ⟨hdurable,_⟩ := hinv.1.durable workspaceId head hhead
  obtain ⟨final,hfinal⟩ := hinv.1.replays workspaceId
  have hwhole : log.foldlM replayEvent (.empty workspaceId) = .ok final := by
    have hreplayed := hfinal.replayed
    rwa [List.take_length] at hreplayed
  refine ⟨by rw [hdurable]; exact hinv.1.numbered workspaceId,final,hwhole,
    by rw [hdurable]; exact (Replayed.version hfinal).1,?_⟩
  obtain ⟨record,hrecord,hversion⟩ := loadHead_isOk hinv.1 hhead
  rw [← hdurable,← hversion] at hfinal
  -- the reply to the first call fixes what the client has left to run
  let rest (reply : Except PersistenceError WorkspaceHeadRecord) :=
    (Answer.state <$> (attempt (fromRepository reply) >>= fun head =>
      restoreBase codec workspaceId head.latestSnapshot >>=
        replayTail workspaceId head.durableVersion)).run
  have hcall : world.programs client = some (.call (.loadHead workspaceId) rest) := hrestore
  have hstepped : step codec world (.step client) = ⟨world.store,
      Function.update world.programs client (some (rest (loadHead world.store workspaceId)))⟩ :=
    Clients.step_call hcall
  have hreply : fromRepository (loadHead world.store workspaceId) = .ok record := by
    rw [hrecord]
    rfl
  have hprogram : (step codec world (.step client)).programs client =
      some (Answer.state <$> (restoreBase codec workspaceId record.latestSnapshot >>=
        replayTail workspaceId record.durableVersion)).run := by
    rw [hstepped]
    dsimp only [rest]
    rw [Function.update_self,hreply,attempt_ok_bind]
  have hends : (discipline codec bytesPut).Holds (fun _ r => r = .ok (.state final))
      (Answer.state <$> (restoreBase codec workspaceId record.latestSnapshot >>=
        replayTail workspaceId record.durableVersion)).run
      (step codec world (.step client)).store := by
    rw [hstepped]
    apply Discipline.Holds.bind
    apply Discipline.Holds.imp (ends_restore_from hinv.1 hrecord hfinal)
    rintro t r _ rfl
    rfl
  rw [run_append]
  obtain ⟨r,hr,rfl⟩ := Clients.follow_run hcode (fun _ _ _ _ h => h) hstay hinv' hafter hprogram
    hends (within_restore record) hsteps
  exact hr

/-! ## A restore beside a snapshot -/

def jsonCodec (sha256 : Bytes → Digest) : Codec where
  sha256 := sha256
  toVec := Json.toVec
  fromSlice := Json.fromSlice
  fromSlice_toVec _ := Json.fromSlice_toVec _

theorem fromBytes_manifest (manifest : WorkspaceManifestV1) :
    Json.fromBytes (Json.toBytes manifest.toValue) = some manifest.toValue :=
  Json.fromBytes_toBytes manifest.toValue

def sampleText : Bytes := "\\end".toUTF8.data.toList
def sampleTextDigest : Digest :=
  ⟨"06b3847e1b6f6860da1ca0ed0334979faf61fbd18b97a670d043f22741a1e7d6",by decide⟩
def sampleManifestDigest : Digest :=
  ⟨"5fcd6f3f1058201c203666596846f72f05c3c0d046c67fabe8539a73c307ceb0",by decide⟩

/-- SHA-256 on the two blobs of the run below. -/
def sampleCodec : Codec :=
  jsonCodec (fun bytes => if bytes = sampleText then sampleTextDigest else sampleManifestDigest)

theorem sampleMain_parsed : checkPath "main.tex" = .ok () := by decide

def sampleMain : LogicalPath := ⟨"main.tex",sampleMain_parsed⟩

def snapshotRun : List (Label ℕ) :=
  [.start 0 (.createWorkspace 0 0 0 sampleMain sampleText),.step 0,.step 0,
    .start 1 (.forceSnapshot 0),.step 1,.step 1,.step 1,.step 1]

/-- Client 3 deletes the only file between two calls of client 2. -/
def deletionRun : List (Label ℕ) :=
  [.start 3 (.deleteFile 0 0 1 sampleMain),.step 3,.step 3,.step 3,.step 3,.step 2,.step 2]

theorem restore_eq_replay_beside_deletion :
    let labels := snapshotRun ++ [.start 2 (.restore 0)]
    let world := run (step sampleCodec) (initial ℕ true [0] [0]) labels
    (world.store.log 0).map WorkspaceEventRecord.sequence = List.range' 1 1 ∧
      ∃ state, (world.store.log 0).foldlM replayEvent (.empty 0) = .ok state ∧ state.version = 1 ∧
        (run (step sampleCodec) (initial ℕ true [0] [0])
          (labels ++ .step 2 :: deletionRun)).programs 2 = some (.done (.ok (.state state))) := by
  intro labels world
  have hdistinct : ((emitted (step sampleCodec) blobsPut (initial ℕ true [0] [0])
      (labels ++ .step 2 :: deletionRun)).map sampleCodec.sha256).Nodup := by
    decide +kernel
  have hhead : world.store.heads.get? 0 = some ⟨1,some 1⟩ := by decide +kernel
  have hidle : ((run (step sampleCodec) (initial ℕ true [0] [0]) snapshotRun).programs 2).isNone := by
    decide +kernel
  have hrestore : world.programs 2 = some ((Operation.restore 0).code sampleCodec) := by
    dsimp only [world,labels]
    rw [run_concat]
    exact Clients.start_idle (Option.isNone_iff_eq_none.mp hidle)
  exact restore_eq_replay sampleCodec true [0] [0] labels deletionRun 2 0 ⟨1,some 1⟩
    (List.inj_on_of_nodup_map hdistinct) hhead hrestore (by simp [deletionRun]) (by decide)

end LatexCore.Workspace
