import LatexCore.Foundation.Transaction
import Mathlib.Data.Finset.Lattice.Basic
import Mathlib.Data.Finset.Card
import LatexCore.Core.Types
import LatexCore.Foundation.Table
import Mathlib.Data.List.Sort

/-! # Documents and the durable side of a collaboration room

A document is the finite set of the operations it has integrated and an update
is the finite set of the operations it carries, so applying is idempotent and
commutative. The byte formats of the document library and of the snapshot
compression are parameters that only have to read back what they wrote.

The update log and the snapshots of all documents, and the three repository
calls of a room: the recovery read, the batch of one flush and the snapshot. The
identifiers of the log come from one sequence for all documents, so a document
sees gaps in its own. The materialization that a batch writes beside its log
rows belongs to the workspace log and is modelled there.
-/
namespace LatexCore.Collaboration
open Core Foundation

section Documents
variable {β Op : Type}

/-- The formats of the document library and of the snapshot compression. -/
structure Yrs (β Op : Type) where
  decodeV1 : β → Except String (Finset Op)
  encodeStateAsUpdateV1 : Finset Op → β
  encodeAll : β → β
  decodeAll : β → Except String β
  length : β → ℕ
  /-- The operations that the state vector counts; a deletion is not one of them. -/
  inStateVector : Op → Bool
  decode_encode : ∀ doc, decodeV1 (encodeStateAsUpdateV1 doc) = .ok doc
  decompress_compress : ∀ bytes, decodeAll (encodeAll bytes) = .ok bytes

/-- Formats that keep a set of numbers as it is. -/
def plainYrs : Yrs (Finset ℕ) ℕ where
  decodeV1 := .ok
  encodeStateAsUpdateV1 := id
  encodeAll := id
  decodeAll := .ok
  length := Finset.card
  inStateVector _ := true
  decode_encode _ := rfl
  decompress_compress _ := rfl

variable [DecidableEq β] [DecidableEq Op] (yrs : Yrs β Op)

/-- `Update::extends`: the update has an operation past the state vector of the document. -/
def extendsState (doc update : Finset Op) : Bool :=
  decide (∃ op ∈ update, yrs.inStateVector op ∧ op ∉ doc)

def applyUpdate (doc : Finset Op) (bytes : β) : Except String (Finset Op) := do
  let update ← yrs.decodeV1 bytes
  return doc ∪ update

/-- `apply_update_if_changed`, with the document that it leaves. -/
def applyUpdateIfChanged (doc : Finset Op) (bytes : β) : Except String (Finset Op × Bool) := do
  let update ← yrs.decodeV1 bytes
  let extends_state := extendsState yrs doc update
  let stateBefore := if extends_state then none else some (yrs.encodeStateAsUpdateV1 doc)
  let after := doc ∪ update
  return (after,extends_state ||
    stateBefore.any (fun state => state != yrs.encodeStateAsUpdateV1 after))

omit [DecidableEq β] [DecidableEq Op] in
theorem Yrs.encode_injective {doc doc' : Finset Op}
    (h : yrs.encodeStateAsUpdateV1 doc = yrs.encodeStateAsUpdateV1 doc') : doc = doc' := by
  have hdec := yrs.decode_encode doc
  rw [h,yrs.decode_encode doc',Except.ok.injEq] at hdec
  exact hdec.symm

omit [DecidableEq β] in
theorem applyUpdate_ok {doc doc' : Finset Op} {bytes : β} :
    applyUpdate yrs doc bytes = .ok doc' ↔
      ∃ update, yrs.decodeV1 bytes = .ok update ∧ doc ∪ update = doc' := by
  simp only [applyUpdate,bind_ok,pure_ok]

/-- The two tests of the code together say whether the document grows. -/
theorem changed_iff (doc update : Finset Op) :
    (extendsState yrs doc update || (if extendsState yrs doc update then none
      else some (yrs.encodeStateAsUpdateV1 doc)).any
        (fun state => state != yrs.encodeStateAsUpdateV1 (doc ∪ update))) = true ↔
      ¬update ⊆ doc := by
  cases he : extendsState yrs doc update with
  | true =>
    obtain ⟨op,hop,_,hnot⟩ := of_decide_eq_true he
    simpa using fun hsub => hnot (hsub hop)
  | false =>
    simp only [Bool.false_or,Bool.false_eq_true,if_false,Option.any_some,bne_iff_ne,ne_eq,
      not_iff_not]
    constructor
    · intro heq
      exact Finset.union_eq_left.mp (yrs.encode_injective heq).symm
    · intro hsub
      rw [Finset.union_eq_left.mpr hsub]

theorem applyUpdateIfChanged_ok {doc doc' : Finset Op} {bytes : β} {changed : Bool} :
    applyUpdateIfChanged yrs doc bytes = .ok (doc',changed) ↔
      ∃ update, yrs.decodeV1 bytes = .ok update ∧ doc' = doc ∪ update ∧
        changed = decide (¬update ⊆ doc) := by
  simp only [applyUpdateIfChanged,bind_ok,pure_ok,Prod.mk.injEq]
  constructor
  · rintro ⟨update,hdec,rfl,rfl⟩
    refine ⟨update,hdec,rfl,?_⟩
    rw [Bool.eq_iff_iff,decide_eq_true_iff]
    exact changed_iff yrs doc update
  · rintro ⟨update,hdec,rfl,rfl⟩
    refine ⟨update,hdec,rfl,?_⟩
    rw [Bool.eq_iff_iff,decide_eq_true_iff]
    exact changed_iff yrs doc update

end Documents

/-! ## Rooms -/

structure RoomKey where
  workspaceId : WorkspaceId
  fileId : Uuid
deriving DecidableEq

/-- The document of a file in one epoch of its paper. -/
structure DocumentKey where
  room : RoomKey
  documentEpoch : ℕ
deriving DecidableEq

def sampleDocument : DocumentKey := ⟨⟨1,2⟩,1⟩

inductive V2FilePolicy
  | editable | contentReadOnly | structureLocked | templateManaged | hiddenSystem
deriving DecidableEq

def V2FilePolicy.contentEditable : V2FilePolicy → Bool
  | .editable | .structureLocked => true
  | _ => false

/-- The columns of `paper_files` that a batch reads, with the policy of the file. -/
structure PaperFile where
  workspaceId : WorkspaceId
  tombstoned : Bool
  policy : Option V2FilePolicy

/-- A row of `collaboration_updates`. -/
structure UpdateRow (β : Type) where
  id : ℕ
  document : DocumentKey
  actorUserId : UserId
  updateBytes : β

structure Database (β : Type) where
  files : Table Uuid PaperFile
  documentEpochs : Table WorkspaceId ℕ
  updates : List (UpdateRow β)
  /-- The next value of the sequence of `collaboration_updates`. -/
  nextId : ℕ
  /-- The compressed states by document and `through_sequence`. -/
  snapshots : Table (DocumentKey × ℕ) β

def Database.empty {β : Type} : Database β := ⟨.empty,.empty,[],1,.empty⟩

structure CollaborationUpdateInput (β : Type) where
  actorUserId : UserId
  updateBytes : β

structure CollaborationRecovery (β : Type) where
  documentEpoch : ℕ
  snapshot : Option (ℕ × β)
  updates : List (ℕ × β)

variable {β : Type}

/-- The latest snapshot of a document, `ORDER BY through_sequence DESC LIMIT 1`. -/
def Database.latestSnapshot (db : Database β) (document : DocumentKey) : Option (ℕ × β) :=
  (db.snapshots.best (fun k _ => k.1 == document) (fun a b => b.1.2 < a.1.2)).map
    (fun r => (r.1.2,r.2))

/-- The log rows of a document past a sequence, `ORDER BY id`. -/
def Database.updatesAfter (db : Database β) (document : DocumentKey) (after : ℕ) : List (ℕ × β) :=
  ((db.updates.filter (fun r => r.document == document && after < r.id)).map
    (fun r => (r.id,r.updateBytes))).mergeSort (fun a b => a.1 ≤ b.1)

def collaborationRecovery (db : Database β) (document : DocumentKey) :
    Except V2Error (CollaborationRecovery β) := do
  toI64 document.documentEpoch "collaboration epoch"
  let snapshot := db.latestSnapshot document
  let after := (snapshot.map Prod.fst).getD 0
  toI64 after "collaboration sequence"
  return ⟨document.documentEpoch,snapshot,db.updatesAfter document after⟩

def lockLiveFile (db : Database β) (fileId : Uuid) : Except V2Error PaperFile := do
  let file ← require (db.files.get? fileId) (.notFound "paper file")
  ensure (!file.tombstoned) (.notFound "live paper file")
  return file

def assertContentPolicy (db : Database β) (fileId : Uuid) : Except V2Error Unit := do
  let file ← require (db.files.get? fileId) (.notFound "paper file")
  ensure (file.policy.getD .editable).contentEditable (.conflict "file content policy")

def insertUpdates (document : DocumentKey) (db : Database β) (last : ℕ) :
    List (CollaborationUpdateInput β) → Except V2Error (Database β × ℕ)
  | [] => .ok (db,last)
  | input :: rest => do
    ensure (db.nextId ≤ i64Max) (.database "collaboration_updates_id_seq")
    let row : UpdateRow β := ⟨db.nextId,document,input.actorUserId,input.updateBytes⟩
    insertUpdates document { db with updates := db.updates ++ [row], nextId := db.nextId + 1 }
      db.nextId rest

def persistCollaborationBatch (document : DocumentKey) (inputs : List (CollaborationUpdateInput β))
    (db : Database β) : Except V2Error (Database β × ℕ) := do
  ensure (!inputs.isEmpty) (.integrity "empty collaboration durability batch")
  toI64 document.documentEpoch "collaboration epoch"
  let current ← lockLiveFile db document.room.fileId
  ensure (current.workspaceId == document.room.workspaceId) (.notFound "live paper file")
  assertContentPolicy db document.room.fileId
  let epoch ← require (db.documentEpochs.get? document.room.workspaceId)
    (.notFound "collaboration state")
  ensure (epoch == document.documentEpoch) (.conflict "collaboration document epoch")
  insertUpdates document db 0 inputs

/-- `V2Repository::save_collaboration_snapshot`; a snapshot of the same sequence is kept. -/
def saveCollaborationSnapshot (document : DocumentKey) (through : ℕ) (compressed : β)
    (db : Database β) : Except V2Error (Database β × Unit) := do
  toI64 document.documentEpoch "collaboration epoch"
  toI64 through "collaboration sequence"
  return ({ db with
    snapshots := (db.snapshots.insert? (document,through) compressed).getD db.snapshots },())

/-- How a call ends beside its own checks. A commit may also be reported as an error. -/
inductive Outcome
  | commits | fails (drawn : ℕ) | commitsUnseen
deriving DecidableEq

def perform {α : Type} (o : Outcome) (call : Database β → Except V2Error (Database β × α))
    (db : Database β) : Database β × Except V2Error α :=
  match o with
  | .fails drawn => ({ db with nextId := db.nextId + drawn },.error (.database "connection"))
  | .commits => (commit call db,(call db).map Prod.snd)
  | .commitsUnseen => (commit call db,.error (.database "connection"))

/-! ## What the calls do -/

/-- The rows that a batch adds: one for each input, with the drawn identifiers. -/
structure Appended (document : DocumentKey) (inputs : List (CollaborationUpdateInput β))
    (db db' : Database β) (last : ℕ) (rows : List (UpdateRow β)) : Prop where
  database : db' = { db with updates := db.updates ++ rows, nextId := db.nextId + inputs.length }
  bytes : rows.map UpdateRow.updateBytes = inputs.map CollaborationUpdateInput.updateBytes
  document : ∀ r ∈ rows, r.document = document
  fresh : ∀ r ∈ rows, db.nextId ≤ r.id ∧ r.id ≤ last
  last : inputs ≠ [] → last + 1 = db.nextId + inputs.length

theorem insertUpdates_appended {document : DocumentKey} {db db' : Database β} {last last' : ℕ}
    {inputs : List (CollaborationUpdateInput β)}
    (h : insertUpdates document db last inputs = .ok (db',last')) (hlast : last < db.nextId) :
    ∃ rows, Appended document inputs db db' last' rows := by
  induction inputs generalizing db last with
  | nil =>
    simp only [insertUpdates,Except.ok.injEq,Prod.mk.injEq] at h
    exact ⟨[],by simp [h.1],rfl,by simp,by simp,by simp⟩
  | cons input rest ih =>
    simp only [insertUpdates,bind_ok,ensure_ok] at h
    obtain ⟨_,_,h⟩ := h
    obtain ⟨rows,ha⟩ := ih h (by simp)
    have hdb := ha.database
    refine ⟨⟨db.nextId,document,input.actorUserId,input.updateBytes⟩ :: rows,?_,?_,?_,?_,?_⟩
    · simp only [hdb,List.append_assoc,List.singleton_append,List.length_cons,Database.mk.injEq,
        true_and,and_true]
      omega
    · simp [ha.bytes]
    · simpa using ha.document
    · have hle : db.nextId ≤ last' := by
        cases rest with
        | nil =>
          simp only [insertUpdates,Except.ok.injEq,Prod.mk.injEq] at h
          omega
        | cons b more =>
          have := ha.last (by simp)
          simp only [List.length_cons] at this
          omega
      intro r hr
      rcases List.mem_cons.mp hr with rfl | hr
      · exact ⟨le_refl _,hle⟩
      · have := ha.fresh r hr
        exact ⟨by have := this.1; simp only at this; omega,this.2⟩
    · intro _
      cases rest with
      | nil =>
        simp only [insertUpdates,Except.ok.injEq,Prod.mk.injEq] at h
        simp [h.2]
      | cons b more =>
        have := ha.last (by simp)
        simp only [List.length_cons] at this ⊢
        omega

theorem persist_appended {document : DocumentKey} {inputs : List (CollaborationUpdateInput β)}
    {db db' : Database β} {last : ℕ} (hpos : 0 < db.nextId)
    (h : persistCollaborationBatch document inputs db = .ok (db',last)) :
    inputs ≠ [] ∧ ∃ rows, Appended document inputs db db' last rows := by
  simp only [persistCollaborationBatch,bind_ok,ensure_ok,require_ok,toI64_ok] at h
  obtain ⟨_,hne,_,_,_,_,_,_,_,_,_,_,_,_,h⟩ := h
  refine ⟨by simpa using hne,insertUpdates_appended h hpos⟩

theorem mem_updatesAfter {db : Database β} {document : DocumentKey} {after : ℕ} {p : ℕ × β} :
    p ∈ db.updatesAfter document after ↔
      ∃ r ∈ db.updates, r.document = document ∧ after < r.id ∧ (r.id,r.updateBytes) = p := by
  simp only [Database.updatesAfter,List.mem_mergeSort,List.mem_map,List.mem_filter,
    Bool.and_eq_true,beq_iff_eq,decide_eq_true_eq,and_assoc]

theorem updatesAfter_sorted (db : Database β) (document : DocumentKey) (after : ℕ) :
    (db.updatesAfter document after).Pairwise (fun a b => a.1 ≤ b.1) := by
  have h : (db.updatesAfter document after).Pairwise (fun a b => decide (a.1 ≤ b.1)) := by
    apply List.pairwise_mergeSort
    · simp only [decide_eq_true_eq]
      omega
    · simp only [Bool.or_eq_true,decide_eq_true_eq]
      omega
  exact h.imp (by simp)

theorem latestSnapshot_some {db : Database β} {document : DocumentKey} {through : ℕ} {bytes : β}
    (h : db.latestSnapshot document = some (through,bytes)) :
    db.snapshots.get? (document,through) = some bytes := by
  simp only [Database.latestSnapshot,Option.map_eq_some_iff,Prod.mk.injEq] at h
  obtain ⟨⟨⟨document',through'⟩,bytes'⟩,hbest,rfl,rfl⟩ := h
  have hmem := Table.best_mem hbest
  simp only [beq_iff_eq] at hmem
  rw [← hmem.2]
  exact hmem.1

theorem latestSnapshot_isSome {db : Database β} {document : DocumentKey} {through : ℕ} {bytes : β}
    (h : db.snapshots.get? (document,through) = some bytes) :
    (db.latestSnapshot document).isSome := by
  rw [Database.latestSnapshot,Option.isSome_map]
  cases hb : db.snapshots.best (fun k _ => k.1 == document) (fun a b => b.1.2 < a.1.2) with
  | some r => rfl
  | none => simpa using Table.best_eq_none hb h

end LatexCore.Collaboration
