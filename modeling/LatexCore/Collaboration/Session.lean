import LatexCore.Collaboration.Room
import LatexCore.Foundation.Buffers

/-! # Sessions of one room

The connections of `serve_socket` around one room actor: each gets the room,
joins through the mailbox, subscribes to the broadcast, greets its client and
then serves incoming frames, acknowledgements and room events in any order. The
mailbox is a queue, so a join and its reply are separate steps of two tasks.
-/
namespace LatexCore.Collaboration
open Core Foundation
variable {β Op : Type}

def maxUpdateBytes : ℕ := 1024 * 1024
def eventCapacity : ℕ := 256

/-- The frames that a connection sends to its client. -/
inductive Frame (β : Type)
  | joinAccepted (documentEpoch durableSeq : ℕ) (readWrite : Bool)
  | initialState (bytes : β)
  | remoteSourceUpdate (bytes : β)
  | remoteDurable (durableSeq : ℕ)
  | control (message : Control)
  | flushed (durableSeq : ℕ)
  | reloadRequired (reason : String)
  | policyChanged (message : String)
  | paperEpochChanged (documentEpoch : ℕ)

structure RoomJoin (β : Type) where
  initialState : β
  durableSequence : ℕ

/-- What the task of a subscribed connection is doing. -/
inductive Stage
  | greeting | serving | flushing
deriving DecidableEq

inductive Phase (β : Type)
  | joining
  | joined (join : RoomJoin β)
  | subscribed (stage : Stage) (join : RoomJoin β) (cursor : ℕ)
  | closed

structure Connection (β : Type) where
  readWrite : Bool
  phase : Phase β
  controls : List Control
  frames : List (Frame β)

def Connection.enter (readWrite : Bool) : Connection β := ⟨readWrite,.joining,[],[]⟩

/-- A binary or control message of the client. A source update shorter than its header and
payload is `truncated`. -/
inductive ClientFrame (β : Type)
  | empty
  | truncated
  | sourceUpdate (clientSequence : ℕ) (payload : β)
  | flush
  | unknown
  | close
  | ping
  | text

structure Session (β Op : Type) where
  actor : Actor β Op
  mailbox : List (Uuid × RoomCommand β)
  sent : List (RoomEvent β)
  connections : Table Uuid (Connection β)

def Session.start (a : Actor β Op) : Session β Op := ⟨a,[],[],.empty⟩

namespace Connection

/-- A message to the client; when it fails the loop ends. -/
def send (c : Connection β) (frame : Frame β) (sends : Bool) : Connection β :=
  if sends then { c with frames := c.frames ++ [frame] } else { c with phase := .closed }

/-- A last message to the client. -/
def sendLast (c : Connection β) (frame : Frame β) (sends : Bool) : Connection β :=
  { c.send frame sends with phase := .closed }

def closes (c : Connection β) : Bool :=
  match c.phase with
  | .closed => true
  | _ => false

def handleEvent (id : Uuid) (c : Connection β) (sends : Bool) : RoomEvent β → Connection β
  | .update source bytes =>
    if source = id then c else c.send (.remoteSourceUpdate bytes) sends
  | .reloadRequired => c.sendLast (.reloadRequired "file_deleted") sends
  | .policyChanged =>
    c.sendLast (.policyChanged "File policy changed; reload before continuing.") sends
  | .epochChanged documentEpoch => c.sendLast (.paperEpochChanged documentEpoch) sends
  | .durable sequence => c.send (.remoteDurable sequence) sends

/-- `events.recv()` and its arm, at a connection that serves from a join and a position. -/
def receive (id : Uuid) (c : Connection β) (join : RoomJoin β) (cursor : ℕ)
    (sent : List (RoomEvent β)) (sends : Bool) : Connection β :=
  match recv eventCapacity sent cursor with
  | .empty => c
  | .lagged =>
    c.sendLast (.control (.error "reload_required" "client fell behind room broadcast")) sends
  | .value event =>
    { c with phase := .subscribed .serving join (cursor + 1) }.handleEvent id sends event

end Connection

namespace Session
variable (s : Session β Op)

/-- A connection continues as `c`; when its loop has ended it leaves the room. -/
def proceed (id : Uuid) (c : Connection β) : Session β Op :=
  { s with
    connections := s.connections.modify id (fun _ => c)
    mailbox := if c.closes then s.mailbox ++ [(id,.leave c.readWrite)] else s.mailbox }

/-- `CollaborationHub::room` has given the room to a new connection, which asks to join. -/
def enter (id : Uuid) (readWrite : Bool) : Session β Op :=
  match s.connections.insert? id (.enter readWrite) with
  | none => s
  | some connections =>
    { s with connections := connections, mailbox := s.mailbox ++ [(id,.join readWrite)] }

def subscribe (id : Uuid) : Session β Op :=
  match s.connections.get? id with
  | some c => match c.phase with
    | .joined join => s.proceed id { c with phase := .subscribed .greeting join s.sent.length }
    | _ => s
  | none => s

/-- `JOIN_ACCEPTED` and the `INITIAL_STATE` frame. -/
def greet (documentEpoch : ℕ) (id : Uuid) (accepted initial : Bool) : Session β Op :=
  match s.connections.get? id with
  | some c => match c.phase with
    | .subscribed .greeting join cursor =>
      let first := c.send (.joinAccepted documentEpoch join.durableSequence c.readWrite) accepted
      if first.closes then s.proceed id first
      else
        let next := { first with phase := .subscribed .serving join cursor }
        s.proceed id (next.send (.initialState join.initialState) initial)
    | _ => s
  | none => s

/-- An arm of the loop of a connection, which waits for its turn while it greets or flushes. -/
def whenServing (id : Uuid) (arm : Connection β → RoomJoin β → ℕ → Session β Op) : Session β Op :=
  match s.connections.get? id with
  | some c => match c.phase with
    | .subscribed .serving join cursor => arm c join cursor
    | _ => s
  | none => s

def receive (id : Uuid) (sends : Bool) : Session β Op :=
  s.whenServing id (fun c join cursor => s.proceed id (c.receive id join cursor s.sent sends))

/-- The arm of the control channel. -/
def control (id : Uuid) (sends : Bool) : Session β Op :=
  s.whenServing id (fun c _ _ =>
    match c.controls with
    | [] => s
    | message :: rest => s.proceed id ({ c with controls := rest }.send (.control message) sends))

variable (yrs : Yrs β Op)

/-- The arms of an incoming message. `authorized` is the answer to the session and access checks. -/
def incoming (id : Uuid) (user : UserId) (frame : ClientFrame β) (authorized sends : Bool) :
    Session β Op :=
  s.whenServing id (fun c join cursor =>
    let refuse (code message : String) :=
      s.proceed id (c.sendLast (.control (.error code message)) sends)
    match frame with
    | .empty => refuse "protocol" "empty binary frame"
    | .truncated => refuse "protocol" "invalid source update envelope"
    | .sourceUpdate clientSequence payload =>
      if yrs.length payload < 1 ∨ maxUpdateBytes < yrs.length payload then
        refuse "protocol" "invalid source update envelope"
      else if !c.readWrite then refuse "read_only" "source updates are forbidden"
      else match yrs.decodeV1 payload with
        | .error e => refuse "malformed_update" e
        | .ok _ =>
          if !authorized then refuse "authority_revoked" "collaboration authority was revoked"
          else { s with mailbox := s.mailbox ++ [(id,.apply id user clientSequence payload)] }
    | .flush =>
      { s.proceed id { c with phase := .subscribed .flushing join cursor } with
        mailbox := s.mailbox ++ [(id,.flush)] }
    | .unknown => refuse "protocol" "unknown binary frame type"
    | .close => s.proceed id { c with phase := .closed }
    | .ping => if sends then s else s.proceed id { c with phase := .closed }
    | .text => s)

def reply (id : Uuid) (sends : Bool) : Effect β → Session β Op
  | .joined initialState durableSequence =>
    match s.connections.get? id with
    | some c => match c.phase with
      | .joining => s.proceed id { c with phase := .joined ⟨initialState,durableSequence⟩ }
      | _ => s
    | none => s
  | .flushed result =>
    match s.connections.get? id with
    | some c => match c.phase with
      | .subscribed .flushing join cursor =>
        let next := { c with phase := .subscribed .serving join cursor }
        match result with
        | .ok sequence => s.proceed id (next.send (.flushed sequence) sends)
        | .error e =>
          s.proceed id (if sends then next.send (.control (.error "durability" e)) true else next)
      | _ => s
    | none => s
  | .control acknowledgements _ message _ =>
    { s with
      connections := s.connections.modify acknowledgements
        (fun c => { c with controls := c.controls ++ [message] }) }
  | .event event => { s with sent := s.sent ++ [event] }

/-- The effects of one reaction of the actor, in order. -/
def replies (id : Uuid) (sends : Bool) (effects : List (Effect β)) : Session β Op :=
  effects.foldl (fun s e => s.reply id sends e) s

end Session

/-- The steps of the tasks around one room. -/
inductive SessionLabel (β : Type)
  | enter (id : Uuid) (readWrite : Bool)
  | act (o : Outcomes) (sends : Bool)
  | tick (o : Outcomes)
  | subscribe (id : Uuid)
  | greet (id : Uuid) (accepted initial : Bool)
  | receive (id : Uuid) (sends : Bool)
  | control (id : Uuid) (sends : Bool)
  | incoming (id : Uuid) (user : UserId) (frame : ClientFrame β) (authorized sends : Bool)
  | hub (event : RoomEvent β)
  | administer (database : Database β)

variable [DecidableEq β] [DecidableEq Op] (yrs : Yrs β Op) (document : DocumentKey)

def Session.step (s : Session β Op) : SessionLabel β → Session β Op
  | .enter id readWrite => s.enter id readWrite
  | .act o sends =>
    match s.mailbox with
    | [] => s
    | (id,command) :: rest =>
      let r := s.actor.command yrs document o command
      { s with actor := r.1, mailbox := rest }.replies id sends r.2
  | .tick o =>
    let r := s.actor.flushIfPending document o
    { s with actor := r.1 }.replies 0 true r.2
  | .subscribe id => s.subscribe id
  | .greet id accepted initial => s.greet document.documentEpoch id accepted initial
  | .receive id sends => s.receive id sends
  | .control id sends => s.control id sends
  | .incoming id user frame authorized sends => s.incoming yrs id user frame authorized sends
  | .hub event =>
    match event with
    | .update .. | .durable .. => s
    | event => { s with sent := s.sent ++ [event] }
  | .administer database => { s with actor := { s.actor with database := database } }

def Actor.accepts (a : Actor β Op) : RoomCommand β → List (Uuid × β)
  | .apply source _ _ bytes =>
    match applyUpdateIfChanged yrs a.room.doc bytes with
    | .ok (_,true) => [(source,bytes)]
    | _ => []
  | _ => []

def Session.accepts (s : Session β Op) : SessionLabel β → List (Uuid × β)
  | .act _ _ =>
    match s.mailbox with
    | [] => []
    | (_,command) :: _ => s.actor.accepts yrs command
  | _ => []

end LatexCore.Collaboration
