import LatexCore.Collaboration.Store

/-! # The room actor

The volatile state of a room, the commands of its mailbox and the actor loop.
An actor works on its room and on the database; its reactions are the messages
and the broadcasts that a step sends, in order. The acknowledgement of an update
is recorded with the update and with the database at the moment it is sent.
-/
namespace LatexCore.Collaboration
open Core Foundation
variable {β Op : Type}

def batchBytes : ℕ := 64 * 1024
def snapshotBytes : ℕ := 1024 * 1024
def snapshotUpdates : ℕ := 500

/-- The JSON messages on the control channel of a connection, by their `type`. -/
inductive Control
  | durableAck (clientSeq durableSeq : ℕ)
  | error (code message : String)
deriving DecidableEq

inductive RoomEvent (β : Type)
  | update (source : Uuid) (bytes : β)
  | durable (sequence : ℕ)
  | reloadRequired
  | policyChanged
  | epochChanged (documentEpoch : ℕ)
deriving DecidableEq

/-- What a reaction sends: to the channel of the connection whose update it answers, to the
broadcast of the room, or to the caller of the command. -/
inductive Effect (β : Type)
  | control (acknowledgements : Uuid) (update : β) (message : Control) (database : Database β)
  | event (event : RoomEvent β)
  | joined (initialState : β) (durableSequence : ℕ)
  | flushed (result : Except String ℕ)

inductive RoomCommand (β : Type)
  | join (writer : Bool)
  | apply (source : Uuid) (actor : UserId) (clientSequence : ℕ) (bytes : β)
  | flush
  | leave (writer : Bool)

/-- The channel of `acknowledgements` is named by its connection. -/
structure PendingUpdate (β : Type) where
  actor : UserId
  clientSequence : ℕ
  bytes : β
  acknowledgements : Uuid

def PendingUpdate.input (u : PendingUpdate β) : CollaborationUpdateInput β := ⟨u.actor,u.bytes⟩

/-- The variables of `room_actor`. -/
structure Room (β Op : Type) where
  doc : Finset Op
  durableSequence : ℕ
  pending : List (PendingUpdate β)
  pendingBytes : ℕ
  clients : ℕ
  writers : ℕ
  updatesSinceSnapshot : ℕ
  bytesSinceSnapshot : ℕ

def Room.spawn (doc : Finset Op) (durableSequence : ℕ) : Room β Op :=
  ⟨doc,durableSequence,[],0,0,0,0,0⟩

structure Actor (β Op : Type) where
  database : Database β
  room : Room β Op

structure Outcomes where
  blob : Except String Unit
  batch : Outcome
  snapshot : Outcome

def Outcomes.fine : Outcomes := ⟨.ok (),.commits,.commits⟩

def sampleActor : Actor (Finset ℕ) ℕ where
  database := { (.empty : Database (Finset ℕ)) with
    snapshots := ⟨[((sampleDocument,0),∅)],List.nodup_singleton _⟩ }
  room := .spawn ∅ 0

abbrev Reaction (β Op : Type) := Actor β Op × List (Effect β)

variable [DecidableEq β] [DecidableEq Op] (yrs : Yrs β Op) (document : DocumentKey)

/-- The messages that `flush_batch` sends to the drained updates. -/
def acknowledge (pending : List (PendingUpdate β)) (sequence : ℕ) (db : Database β) :
    List (Effect β) :=
  pending.map (fun u => .control u.acknowledgements u.bytes (.durableAck u.clientSequence sequence) db)

/-- `flush_batch` up to the acknowledgements. -/
def flushBatch (o : Outcomes) (a : Actor β Op) : Database β × Except String ℕ :=
  match o.blob with
  | .error e => (a.database,.error e)
  | .ok _ =>
    let inputs := a.room.pending.map PendingUpdate.input
    let result := perform o.batch (persistCollaborationBatch document inputs) a.database
    (result.1,result.2.mapError V2Error.display)

def Room.flushed (room : Room β Op) (sequence : ℕ) : Room β Op :=
  { room with
    durableSequence := sequence
    pending := []
    pendingBytes := 0
    updatesSinceSnapshot := room.updatesSinceSnapshot + room.pending.length
    bytesSinceSnapshot := room.bytesSinceSnapshot + room.pendingBytes }

/-- The block around `flush_batch` that four arms of the loop repeat. -/
def Actor.flushPending (o : Outcomes) (a : Actor β Op) : Reaction β Op × Except String ℕ :=
  match flushBatch document o a with
  | (db,.ok sequence) =>
    ((⟨db,a.room.flushed sequence⟩,
      acknowledge a.room.pending sequence db ++ [.event (.durable sequence)]),.ok sequence)
  | (db,.error e) => (({ a with database := db },[]),.error e)

def Actor.saveSnapshot (o : Outcomes) (a : Actor β Op) : Actor β Op × Bool :=
  let compressed := yrs.encodeAll (yrs.encodeStateAsUpdateV1 a.room.doc)
  let result := perform o.snapshot
    (saveCollaborationSnapshot document a.room.durableSequence compressed) a.database
  ({ a with database := result.1 },result.2.isOk)

def Actor.resetCounters (a : Actor β Op) : Actor β Op :=
  { a with room := { a.room with updatesSinceSnapshot := 0, bytesSinceSnapshot := 0 } }

/-- The snapshot check at the end of a command. -/
def Actor.snapshotIfDue (o : Outcomes) (a : Actor β Op) : Actor β Op :=
  if 0 < a.room.durableSequence ∧ (snapshotUpdates ≤ a.room.updatesSinceSnapshot ∨
      snapshotBytes ≤ a.room.bytesSinceSnapshot) then
    if (a.saveSnapshot yrs document o).2 then (a.saveSnapshot yrs document o).1.resetCounters
    else (a.saveSnapshot yrs document o).1
  else a

/-- The arm of the timer, and the flush when no writer is left. -/
def Actor.flushIfPending (o : Outcomes) (a : Actor β Op) : Reaction β Op :=
  if a.room.pending.isEmpty then (a,[]) else (a.flushPending document o).1

def Actor.join (a : Actor β Op) (writer : Bool) : Reaction β Op :=
  ({ a with room := { a.room with
      clients := a.room.clients + 1
      writers := a.room.writers + writer.toNat } },
    [.joined (yrs.encodeStateAsUpdateV1 a.room.doc) a.room.durableSequence])

/-- An accepted update: it waits for the next batch and is broadcast. -/
def Room.accept (room : Room β Op) (doc : Finset Op) (source : Uuid) (actor : UserId)
    (clientSequence : ℕ) (bytes : β) : Room β Op :=
  { room with
    doc := doc
    pending := room.pending ++ [⟨actor,clientSequence,bytes,source⟩]
    pendingBytes := room.pendingBytes + yrs.length bytes }

def Actor.flush (o : Outcomes) (a : Actor β Op) : Reaction β Op :=
  if a.room.pending.isEmpty then (a,[.flushed (.ok a.room.durableSequence)])
  else
    let r := a.flushPending document o
    (r.1.1,r.1.2 ++ [.flushed r.2])

def Room.leave (room : Room β Op) (writer : Bool) : Room β Op :=
  { room with clients := room.clients - 1, writers := room.writers - writer.toNat }

/-- The snapshot when no client is left; its result is ignored. -/
def Actor.snapshotIfEmpty (o : Outcomes) (a : Actor β Op) : Actor β Op :=
  if a.room.clients = 0 ∧ 0 < a.room.durableSequence then
    (a.saveSnapshot yrs document o).1.resetCounters
  else a

def Actor.leave (o : Outcomes) (a : Actor β Op) (writer : Bool) : Reaction β Op :=
  let left : Actor β Op := { a with room := a.room.leave writer }
  let r := if left.room.writers = 0 then left.flushIfPending document o else (left,[])
  (r.1.snapshotIfEmpty yrs document o,r.2)

def Actor.accepted (o : Outcomes) (a : Actor β Op) (source : Uuid) (bytes : β) : Reaction β Op :=
  let r := if batchBytes ≤ a.room.pendingBytes then (a.flushPending document o).1 else (a,[])
  (r.1,.event (.update source bytes) :: r.2)

def Actor.due (o : Outcomes) (r : Reaction β Op) : Reaction β Op :=
  (r.1.snapshotIfDue yrs document o,r.2)

/-- One command of the loop. The two answers that `continue` skip the snapshot check. -/
def Actor.command (o : Outcomes) (a : Actor β Op) : RoomCommand β → Reaction β Op
  | .join writer => Actor.due yrs document o (a.join yrs writer)
  | .apply source actor clientSequence bytes =>
    match applyUpdateIfChanged yrs a.room.doc bytes with
    | .ok (doc,true) =>
      let a := { a with room := a.room.accept yrs doc source actor clientSequence bytes }
      Actor.due yrs document o (a.accepted document o source bytes)
    | .ok (doc,false) =>
      ({ a with room := { a.room with doc := doc } },
        [.control source bytes (.durableAck clientSequence a.room.durableSequence) a.database])
    | .error e => (a,[.control source bytes (.error "malformed_update" e) a.database])
  | .flush => Actor.due yrs document o (a.flush document o)
  | .leave writer => Actor.due yrs document o (a.leave yrs document o writer)

/-! ## Loading and losing an actor -/

/-- The log rows applied in order, with the sequence of the last one. -/
def replayUpdates : List (ℕ × β) → Finset Op × ℕ → Except String (Finset Op × ℕ)
  | [],s => .ok s
  | (sequence,bytes) :: rest,s => do
    let doc ← applyUpdate yrs s.1 bytes
    replayUpdates rest (doc,sequence)

/-- The document that `CollaborationHub::room` gives a new actor. `source` is what inserting the
text of the file puts into an empty document. -/
def loadDocument (source : Except String (Finset Op)) (save : Outcome) (db : Database β) :
    Database β × Except String (Finset Op × ℕ) :=
  match (collaborationRecovery db document).mapError V2Error.display with
  | .error e => (db,.error e)
  | .ok recovery =>
    match recovery.snapshot with
    | some (sequence,compressed) => (db,do
        let bytes ← (yrs.decodeAll compressed).mapError
          (fun error => "invalid collaboration snapshot: " ++ error)
        let doc ← applyUpdate yrs ∅ bytes
        replayUpdates yrs recovery.updates (doc,sequence))
    | none =>
      match source with
      | .error e => (db,.error e)
      | .ok text =>
        let compressed := yrs.encodeAll (yrs.encodeStateAsUpdateV1 text)
        let saved := perform save (saveCollaborationSnapshot document 0 compressed) db
        (saved.1,do
          let _ ← saved.2.mapError V2Error.display
          replayUpdates yrs recovery.updates (text,0))

/-- The database and the actor of the document, when one is loaded. -/
structure World (β Op : Type) where
  database : Database β
  room : Option (Room β Op)

def World.start : World β Op := ⟨.empty,none⟩

/-- What can happen next to the document. The last three come from the rest of the system: the
files and epochs change, and other documents write log rows and snapshots. -/
inductive Label (β Op : Type) (document : DocumentKey)
  | load (source : Except String (Finset Op)) (save : Outcome)
  | crash
  | tick (o : Outcomes)
  | command (c : RoomCommand β) (o : Outcomes)
  | administer (files : Table Uuid PaperFile) (documentEpochs : Table WorkspaceId ℕ)
  | batchElsewhere (other : { d : DocumentKey // d ≠ document })
      (inputs : List (CollaborationUpdateInput β)) (batch : Outcome)
  | snapshotElsewhere (other : { d : DocumentKey // d ≠ document }) (through : ℕ) (bytes : β)

def World.act (w : World β Op) (f : Actor β Op → Reaction β Op) : World β Op × List (Effect β) :=
  match w.room with
  | none => (w,[])
  | some room =>
    let r := f ⟨w.database,room⟩
    (⟨r.1.database,some r.1.room⟩,r.2)

def World.load (w : World β Op) (source : Except String (Finset Op)) (save : Outcome) : World β Op :=
  match w.room with
  | some _ => w
  | none =>
    let r := loadDocument yrs document source save w.database
    ⟨r.1,r.2.toOption.map (fun s => .spawn s.1 s.2)⟩

variable {document}

def World.react (w : World β Op) : Label β Op document → World β Op × List (Effect β)
  | .load source save => (w.load yrs document source save,[])
  | .crash => ({ w with room := none },[])
  | .tick o => w.act (fun a => a.flushIfPending document o)
  | .command c o => w.act (fun a => a.command yrs document o c)
  | .administer files documentEpochs =>
    ({ w with database := { w.database with files := files, documentEpochs := documentEpochs } },[])
  | .batchElsewhere other inputs batch =>
    ({ w with database := (perform batch (persistCollaborationBatch other.1 inputs) w.database).1 },[])
  | .snapshotElsewhere other through bytes =>
    ({ w with database := (perform .commits
        (saveCollaborationSnapshot other.1 through bytes) w.database).1 },[])

def World.step (w : World β Op) (l : Label β Op document) : World β Op := (w.react yrs l).1

def World.emit (w : World β Op) (l : Label β Op document) : List (Effect β) := (w.react yrs l).2

end LatexCore.Collaboration
