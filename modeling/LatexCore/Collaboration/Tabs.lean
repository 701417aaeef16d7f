import LatexCore.Collaboration.Session
import LatexCore.Foundation.Runs
import Mathlib.Logic.Function.Basic

/-! # The session of a Writer

The `CollaborationSession` of the browser: its socket, the document that it edits
and the promises that wait for a flush. A turn of the event loop changes the
session, sends frames on its socket and resolves promises. The bindings of the
editor and what the page shows of a session are left out.

The sessions of any number of tabs with the rooms of one file, a room for each
document epoch. A room works on its own view of the database, where what the rest
of the system writes is a step of the room. A socket carries the frames of a tab to its connection and those
of the connection to the tab, each way in order and with any delay; a socket that
the tab has left may still deliver what was sent on it. The promise of a flush is
named by the operations that its session had sent before.
-/
namespace LatexCore.Collaboration
open Core Foundation

/-! ## Sessions -/

inductive ReadyState
  | connecting | opened | closed
deriving DecidableEq

/-- An entry of `flushWaiters`; a promise that has timed out is settled. -/
structure FlushWaiter (π : Type) where
  promise : π
  timedOut : Bool

/-- `access` is `read_write` or not, and `socket` is null or in a state. -/
structure CollaborationSession (β Op π : Type) where
  requestedEditable : Bool
  destroyed : Bool := false
  connected : Bool := false
  access : Bool := false
  socket : Option ReadyState := none
  clientSequence : ℕ := 0
  pending : List ℕ := []
  flushWaiters : List (FlushWaiter π) := []
  metadata : Option ℕ := none
  documentEpoch : Option ℕ := none
  initialState : Option β := none
  initializing : Bool := false
  bufferedRemote : List β := []
  doc : Option (Finset Op) := none
  /-- The handler of updates is registered and the editor is mounted. -/
  mounted : Bool := false
  editable : Bool := false

structure Turn (β Op π : Type) where
  session : CollaborationSession β Op π
  frames : List (ClientFrame β)
  resolved : List π

namespace CollaborationSession
variable {β Op π : Type} (s : CollaborationSession β Op π)

/-- A turn that sends and resolves nothing. -/
def quiet : Turn β Op π := ⟨s,[],[]⟩

def isOpen : Bool := s.socket == some .opened

/-- `connect`, with a new socket. -/
def connect : CollaborationSession β Op π :=
  { s with
    socket := some .connecting
    metadata := none
    initialState := none }

/-- The `open` event. -/
def handleOpen : CollaborationSession β Op π :=
  { s with
    socket := some .opened
    connected := true }

/-- The `close` event of the session's socket; its promises are rejected. -/
def handleClose : CollaborationSession β Op π :=
  { s with
    socket := some .closed
    connected := false
    pending := []
    flushWaiters := [] }

def destroy : CollaborationSession β Op π :=
  { s with
    destroyed := true
    flushWaiters := []
    socket := none
    doc := none
    mounted := false
    editable := false }

def sendUpdate (update : β) : Turn β Op π :=
  if s.isOpen then
    let sequence := s.clientSequence + 1
    let session := { s with
      clientSequence := sequence
      pending := s.pending ++ [sequence] }
    ⟨session,[.sourceUpdate sequence update],[]⟩
  else s.quiet

/-- `flush`; a call without write access resolves at once, and one without a socket is rejected. -/
def flush (promise : π) : Turn β Op π :=
  if !s.access then ⟨s,[],[promise]⟩
  else if !s.isOpen then s.quiet
  else ⟨{ s with flushWaiters := s.flushWaiters ++ [⟨promise,false⟩] },[.flush],[]⟩

def resolveFlushes : Turn β Op π :=
  ⟨{ s with flushWaiters := [] },[],
    (s.flushWaiters.filter (fun waiter => !waiter.timedOut)).map FlushWaiter.promise⟩

def timeOut (index : ℕ) : CollaborationSession β Op π :=
  { s with flushWaiters := s.flushWaiters.modify index (fun waiter => { waiter with timedOut := true }) }

variable [DecidableEq Op] (yrs : Yrs β Op)

/-- The end of `initializeOrMerge`: the whole document is sent. -/
def publish (doc : Finset Op) : Turn β Op π :=
  if s.access then s.sendUpdate (yrs.encodeStateAsUpdateV1 doc) else s.quiet

/-- `initializeOrMerge`; a session without a document waits for its persistence. -/
def initializeOrMerge : Turn β Op π :=
  match s.metadata, s.initialState with
  | some _, some bytes =>
    if s.initializing then s.quiet
    else match s.doc with
      | none => { s with
          initializing := true
          doc := some ∅ }.quiet
      | some doc => match applyUpdate yrs doc bytes with
        | .error _ => s.quiet
        | .ok doc => { s with doc := some doc }.publish yrs doc
  | _, _ => s.quiet

def applyAll (doc : Finset Op) : List β → Except String (Finset Op)
  | [] => .ok doc
  | bytes :: rest => do
    let doc ← applyUpdate yrs doc bytes
    applyAll doc rest

/-- The rest of `initializeOrMerge` once the persistence has restored its operations. Without an
initial state, after a reconnection, it throws. -/
def synced (restored : Finset Op) : Turn β Op π :=
  if !s.initializing then s.quiet
  else match s.doc, s.initialState with
    | some doc, some bytes =>
      match applyAll yrs (doc ∪ restored) (bytes :: s.bufferedRemote) with
      | .error _ => { s with
          initializing := false
          doc := some (doc ∪ restored) }.quiet
      | .ok doc => { s with
          initializing := false
          doc := some doc
          bufferedRemote := []
          mounted := true
          editable := s.requestedEditable && s.access }.publish yrs doc
    | some doc, none => { s with
        initializing := false
        doc := some (doc ∪ restored) }.quiet
    | none, _ => { s with initializing := false }.quiet

def edit (ops : Finset Op) : Turn β Op π :=
  match s.doc with
  | some doc =>
    if s.mounted && s.editable then
      let session := { s with doc := some (doc ∪ ops) }
      if s.connected && s.access then session.sendUpdate (yrs.encodeStateAsUpdateV1 ops)
      else session.quiet
    else s.quiet
  | none => s.quiet

def receive : Frame β → Turn β Op π
  | .joinAccepted documentEpoch _ readWrite =>
    if s.documentEpoch.any (fun epoch => epoch != documentEpoch) then s.destroy.quiet
    else { s with
      documentEpoch := some documentEpoch
      metadata := some documentEpoch
      access := readWrite }.initializeOrMerge yrs
  | .initialState bytes => { s with initialState := some bytes }.initializeOrMerge yrs
  | .remoteSourceUpdate bytes =>
    match s.doc with
    | some doc => match applyUpdate yrs doc bytes with
      | .error _ => s.quiet
      | .ok doc => { s with doc := some doc }.quiet
    | none => { s with bufferedRemote := s.bufferedRemote ++ [bytes] }.quiet
  | .control (.durableAck clientSeq _) => { s with pending := s.pending.filter (fun n => n != clientSeq) }.quiet
  | .flushed _ => s.resolveFlushes
  | .reloadRequired _ | .policyChanged _ | .paperEpochChanged _ => s.destroy.quiet
  | .remoteDurable _ | .control (.error _ _) => s.quiet

end CollaborationSession

/-! ## Browsers -/

/-- A WebSocket, named by its connection, with the frames of the tab, how many of them the server has
taken, and the frames of the connection that the tab has received. -/
structure Socket (β : Type) where
  /-- `access.document_epoch`, once the access has been read. -/
  epoch : Option ℕ := none
  sent : List (ClientFrame β) := []
  taken : ℕ := 0
  received : List (Frame β) := []

/-- A tab with its session; `sentOps` are the operations of all updates that it has sent. -/
structure Tab (β Op : Type) where
  browser : ℕ
  session : CollaborationSession β Op (Finset Op)
  socket : Option Uuid := none
  sentOps : Finset Op := ∅

/-- A resolved promise: the document of the socket, and the operations sent before the call. -/
structure Resolved (Op : Type) where
  epoch : ℕ
  before : Finset Op

structure Tabs (β Op : Type) where
  /-- `document_epoch` of `paper_collaboration_state`. -/
  documentEpoch : ℕ
  rooms : ℕ → Session β Op
  sockets : Uuid → Option (Socket β)
  tabs : ℕ → Option (Tab β Op)
  /-- The IndexedDB of a browser, by the epoch in the key. -/
  persisted : ℕ → ℕ → Finset Op
  resolved : List (Resolved Op)

/-- The steps of a room, and those of the rest of the system at its database. -/
inductive RoomLabel (β Op : Type)
  | act (o : Outcomes) (sends : Bool)
  | tick (o : Outcomes)
  | subscribe (id : Uuid)
  | greet (id : Uuid) (accepted initial : Bool)
  | receive (id : Uuid) (sends : Bool)
  | control (id : Uuid) (sends : Bool)
  | hub (event : RoomEvent β)
  /-- The server notices that the socket is gone. -/
  | drop (id : Uuid)
  /-- The server ends with all connections, and the room is loaded again. -/
  | restart (source : Except String (Finset Op)) (save : Outcome)
  | administer (files : Table Uuid PaperFile) (documentEpochs : Table WorkspaceId ℕ)
  | batchElsewhere (other : DocumentKey) (inputs : List (CollaborationUpdateInput β)) (batch : Outcome)
  | snapshotElsewhere (other : DocumentKey) (through : ℕ) (bytes : β)

inductive TabsLabel (β Op : Type)
  | create (tab browser : ℕ) (requestedEditable : Bool)
  /-- `start`, or the timer of a reconnection. -/
  | connect (tab : ℕ) (id : Uuid)
  /-- `collaboration_access` of the request, before the server accepts the socket. -/
  | access (id : Uuid)
  /-- `serve_socket` enters the room of the access. -/
  | seat (id : Uuid) (readWrite : Bool)
  | opened (tab : ℕ)
  | closed (tab : ℕ)
  | message (tab : ℕ)
  | synced (tab : ℕ) (restored : Finset Op)
  /-- The persistence stores the document of a tab. -/
  | persist (tab : ℕ)
  | edit (tab : ℕ) (ops : Finset Op)
  | flush (tab : ℕ)
  | timeOut (tab index : ℕ)
  | leave (tab : ℕ)
  | deliver (id : Uuid) (user : UserId) (authorized sends : Bool)
  | room (epoch : ℕ) (label : RoomLabel β Op)
  | restore

variable {β Op : Type}

/-- The connection takes the next frame. -/
def Session.serves (s : Session β Op) (id : Uuid) : Bool :=
  match s.connections.get? id with
  | some c => match c.phase with
    | .subscribed .serving _ _ => true
    | _ => false
  | none => false

def Session.framesOf (s : Session β Op) (id : Uuid) : List (Frame β) :=
  ((s.connections.get? id).map Connection.frames).getD []

def frameOps [DecidableEq Op] (yrs : Yrs β Op) (frames : List (ClientFrame β)) : Finset Op :=
  frames.foldl (fun ops frame => match frame with
    | .sourceUpdate _ payload => ops ∪ (yrs.decodeV1 payload).toOption.getD ∅
    | _ => ops) ∅

namespace Tabs
variable (key : RoomKey) (w : Tabs β Op)

def document (key : RoomKey) (epoch : ℕ) : DocumentKey := ⟨key,epoch⟩

def setRoom (epoch : ℕ) (s : Session β Op) : Tabs β Op :=
  { w with rooms := Function.update w.rooms epoch s }

def setSocket (id : Uuid) (socket : Socket β) : Tabs β Op :=
  { w with sockets := Function.update w.sockets id (some socket) }

def setTab (tab : ℕ) (t : Tab β Op) : Tabs β Op :=
  { w with tabs := Function.update w.tabs tab (some t) }

def socketOf (t : Tab β Op) : Option (Uuid × Socket β) :=
  t.socket.bind (fun id => (w.sockets id).map (fun socket => (id,socket)))

def epochOf (t : Tab β Op) : ℕ := ((w.socketOf t).bind (fun s => s.2.epoch)).getD 0

def transmit (t : Tab β Op) (frames : List (ClientFrame β)) : Tabs β Op :=
  match w.socketOf t with
  | some (id,socket) => w.setSocket id { socket with sent := socket.sent ++ frames }
  | none => w

variable [DecidableEq β] [DecidableEq Op] (yrs : Yrs β Op)

def take (tab : ℕ) (t : Tab β Op) (turn : Turn β Op (Finset Op)) : Tabs β Op :=
  { (w.transmit t turn.frames).setTab tab { t with
      session := turn.session
      sentOps := t.sentOps ∪ frameOps yrs turn.frames } with
    resolved := w.resolved ++ turn.resolved.map (fun before => ⟨w.epochOf t,before⟩) }

def message (tab : ℕ) (t : Tab β Op) : Tabs β Op :=
  match w.socketOf t with
  | some (id,socket) =>
    match socket.epoch.bind (fun epoch => ((w.rooms epoch).framesOf id)[socket.received.length]?) with
    | some frame =>
      (w.setSocket id { socket with received := socket.received ++ [frame] }).take yrs tab t
        (t.session.receive yrs frame)
    | none => w
  | none => w

/-- The next frame of a socket at its connection; an update is accepted in the current epoch only. -/
def deliver (id : Uuid) (user : UserId) (authorized sends : Bool) : Tabs β Op :=
  match w.sockets id with
  | some socket =>
    match socket.epoch, socket.sent[socket.taken]? with
    | some epoch, some frame =>
      if (w.rooms epoch).serves id then
        (w.setRoom epoch ((w.rooms epoch).incoming yrs id user frame
          (authorized && w.documentEpoch == epoch) sends)).setSocket id
            { socket with taken := socket.taken + 1 }
      else w
    | _, _ => w
  | none => w

omit [DecidableEq β] in
/-- A room that is loaded again, with the connections of before. -/
def restart (document : DocumentKey) (s : Session β Op) (source : Except String (Finset Op))
    (save : Outcome) : Session β Op :=
  match loadDocument yrs document source save s.actor.database with
  | (_,.error _) => s
  | (database,.ok (doc,sequence)) =>
    { actor := ⟨database,.spawn doc sequence⟩
      mailbox := []
      sent := []
      connections := s.connections.updateWhere (fun _ _ => true) (fun c => { c with phase := .closed }) }

def roomStep (document : DocumentKey) (s : Session β Op) : RoomLabel β Op → Session β Op
  | .act o sends => s.step yrs document (.act o sends)
  | .tick o => s.step yrs document (.tick o)
  | .subscribe id => s.step yrs document (.subscribe id)
  | .greet id accepted initial => s.step yrs document (.greet id accepted initial)
  | .receive id sends => s.step yrs document (.receive id sends)
  | .control id sends => s.step yrs document (.control id sends)
  | .hub event => s.step yrs document (.hub event)
  | .drop id => s.step yrs document (.incoming id 0 .close false false)
  | .restart source save => restart yrs document s source save
  | .administer files documentEpochs => s.step yrs document (.administer { s.actor.database with
      files := files
      documentEpochs := documentEpochs })
  | .batchElsewhere other inputs batch => if other = document then s
      else s.step yrs document (.administer
        (perform batch (persistCollaborationBatch other inputs) s.actor.database).1)
  | .snapshotElsewhere other through bytes => if other = document then s
      else s.step yrs document (.administer
        (perform .commits (saveCollaborationSnapshot other through bytes) s.actor.database).1)

def withTab (tab : ℕ) (f : Tab β Op → Tabs β Op) : Tabs β Op :=
  match w.tabs tab with
  | some t => f t
  | none => w

def update (tab : ℕ) (t : Tab β Op) (session : CollaborationSession β Op (Finset Op)) : Tabs β Op :=
  w.take yrs tab t session.quiet

/-- One step. What is typed into a document of an epoch was `created` there, unlike the text of a
file. -/
def step (created : Op → Option ℕ) : TabsLabel β Op → Tabs β Op
  | .create tab browser requestedEditable =>
    if (w.tabs tab).isSome then w
    else w.setTab tab
      { browser := browser
        session := { requestedEditable := requestedEditable } }
  | .connect tab id => w.withTab tab (fun t =>
      if t.session.destroyed || (t.session.socket != none && t.session.socket != some .closed) ||
          (w.sockets id).isSome then w
      else (w.setSocket id {}).setTab tab { t with
        session := t.session.connect
        socket := some id })
  | .access id =>
    match w.sockets id with
    | some socket =>
      if socket.epoch.isSome then w
      else w.setSocket id { socket with epoch := some w.documentEpoch }
    | none => w
  | .seat id readWrite =>
    match (w.sockets id).bind Socket.epoch with
    | some epoch => w.setRoom epoch ((w.rooms epoch).enter id readWrite)
    | none => w
  | .opened tab => w.withTab tab (fun t =>
      if t.session.socket == some .connecting && ((w.socketOf t).bind (fun s => s.2.epoch)).isSome
        then w.update yrs tab t t.session.handleOpen
      else w)
  | .closed tab => w.withTab tab (fun t =>
      if t.session.socket == some .connecting || t.session.socket == some .opened
        then w.update yrs tab t t.session.handleClose
      else w)
  | .message tab => w.withTab tab (fun t => if t.session.isOpen then w.message yrs tab t else w)
  | .synced tab restored => w.withTab tab (fun t =>
      if restored ⊆ w.persisted t.browser (t.session.documentEpoch.getD 0)
        then w.take yrs tab t (t.session.synced yrs restored)
      else w)
  | .persist tab => w.withTab tab (fun t =>
      match t.session.documentEpoch, t.session.doc with
      | some epoch, some doc => { w with
          persisted := Function.update w.persisted t.browser
            (Function.update (w.persisted t.browser) epoch (w.persisted t.browser epoch ∪ doc)) }
      | _, _ => w)
  | .edit tab ops => w.withTab tab (fun t =>
      if ∀ op ∈ ops, created op = t.session.documentEpoch
        then w.take yrs tab t (t.session.edit yrs ops)
      else w)
  | .flush tab => w.withTab tab (fun t => w.take yrs tab t (t.session.flush t.sentOps))
  | .timeOut tab index => w.withTab tab (fun t => w.update yrs tab t (t.session.timeOut index))
  | .leave tab => w.withTab tab (fun t => w.update yrs tab t t.session.destroy)
  | .deliver id user authorized sends => w.deliver yrs id user authorized sends
  | .room epoch label => w.setRoom epoch (roomStep yrs (document key epoch) (w.rooms epoch) label)
  | .restore => if w.documentEpoch < i64Max then { w with documentEpoch := w.documentEpoch + 1 } else w

omit [DecidableEq β] [DecidableEq Op] in
def start (actors : ℕ → Actor β Op) (documentEpoch : ℕ) (persisted : ℕ → ℕ → Finset Op) :
    Tabs β Op where
  documentEpoch := documentEpoch
  rooms epoch := Session.start (actors epoch)
  sockets _ := none
  tabs _ := none
  persisted := persisted
  resolved := []

end Tabs

end LatexCore.Collaboration
