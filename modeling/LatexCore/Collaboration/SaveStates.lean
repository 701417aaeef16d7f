import LatexCore.Collaboration.Tabs
import LatexCore.Collaboration.Soundness

/-! # What a Writer sees of the saving

The calls of `saveState` in the turns of a session, with the operations that the
document of a tab has as its own: those typed in it and those that its IndexedDB
has kept from earlier sessions. A session that shows `synced` tells its Writer
that they are durable.
-/
namespace LatexCore.Collaboration
open Core Foundation
variable {β Op : Type}

/-- The argument of `saveState`. -/
inductive SaveState
  | local | reconnecting | syncing | offline | synced | conflict
deriving DecidableEq

namespace CollaborationSession
variable {π : Type} (s : CollaborationSession β Op π)

def connectSaves : List SaveState := [if s.doc.isSome then .reconnecting else .local]

def closeSaves : List SaveState := if s.destroyed then [] else [.reconnecting]

def sendSaves : List SaveState := if s.isOpen then [.syncing] else [.offline]

def flushSaves : List SaveState := if s.access then s.sendSaves else []

def publishSaves : List SaveState := if s.access then s.sendSaves else [.synced]

/-- `saveState('synced')` behind a message that leaves nothing pending. -/
def settledSaves : List SaveState := if s.pending.isEmpty then [.synced] else []

variable [DecidableEq Op] (yrs : Yrs β Op)

def mergeSaves : List SaveState :=
  match s.metadata, s.initialState with
  | some _, some bytes =>
    if s.initializing then []
    else match s.doc with
      | none => []
      | some doc => match applyUpdate yrs doc bytes with
        | .error _ => []
        | .ok _ => s.publishSaves
  | _, _ => []

/-- The rest of `initializeOrMerge` behind the persistence. -/
def syncedSaves (restored : Finset Op) : List SaveState :=
  if !s.initializing then []
  else match s.doc, s.initialState with
    | some doc, some bytes =>
      match applyAll yrs (doc ∪ restored) (bytes :: s.bufferedRemote) with
      | .error _ => []
      | .ok _ => s.publishSaves
    | _, _ => []

def editSaves : List SaveState :=
  if s.doc.isSome && s.mounted && s.editable then
    if s.connected && s.access then s.sendSaves else [.offline]
  else []

def receiveSaves : Frame β → List SaveState
  | .joinAccepted documentEpoch _ readWrite =>
    if s.documentEpoch.any (fun epoch => epoch != documentEpoch) then [.conflict]
    else { s with
      documentEpoch := some documentEpoch
      metadata := some documentEpoch
      access := readWrite }.mergeSaves yrs
  | .initialState bytes => { s with initialState := some bytes }.mergeSaves yrs
  | .remoteSourceUpdate _ => [.syncing]
  | .control (.durableAck clientSeq _) =>
    { s with pending := s.pending.filter (fun n => n != clientSeq) }.settledSaves
  | .flushed _ | .remoteDurable _ => s.settledSaves
  | .reloadRequired _ | .policyChanged _ | .paperEpochChanged _ | .control (.error _ _) => [.conflict]

end CollaborationSession

/-- The tabs with the own operations of each document. -/
structure Watched (β Op : Type) where
  tabs : Tabs β Op
  own : ℕ → Finset Op

namespace Watched
variable (w : Watched β Op)

def addOwn (tab : ℕ) (ops : Finset Op) [DecidableEq Op] : ℕ → Finset Op :=
  Function.update w.own tab (w.own tab ∪ ops)

variable [DecidableEq Op]

def nextFrame (t : Tab β Op) : Option (Frame β) :=
  (w.tabs.socketOf t).bind (fun s => s.2.epoch.bind (fun epoch =>
    ((w.tabs.rooms epoch).framesOf s.1)[s.2.received.length]?))

/-- The own operations after a step. -/
def ownAfter (created : Op → Option ℕ) : TabsLabel β Op → ℕ → Finset Op
  | .edit tab ops => match w.tabs.tabs tab with
    | some t =>
      if (∀ op ∈ ops, created op = t.session.documentEpoch) ∧
          (t.session.doc.isSome && t.session.mounted && t.session.editable) then w.addOwn tab ops
      else w.own
    | none => w.own
  | .synced tab restored => match w.tabs.tabs tab with
    | some t =>
      if restored ⊆ w.tabs.persisted t.browser (t.session.documentEpoch.getD 0) ∧
          (t.session.initializing && t.session.doc.isSome) then w.addOwn tab restored
      else w.own
    | none => w.own
  | _ => w.own

/-- The calls of `saveState` in a step at the session of a tab. -/
def sessionSaves (yrs : Yrs β Op) (created : Op → Option ℕ) (t : Tab β Op) : TabsLabel β Op → List SaveState
  | .connect _ id =>
    if t.session.destroyed || (t.session.socket != none && t.session.socket != some .closed) ||
        (w.tabs.sockets id).isSome then []
    else t.session.connectSaves
  | .opened _ =>
    if t.session.socket == some .connecting && ((w.tabs.socketOf t).bind (fun s => s.2.epoch)).isSome
      then [.syncing] else []
  | .closed _ =>
    if t.session.socket == some .connecting || t.session.socket == some .opened
      then t.session.closeSaves else []
  | .message _ =>
    if t.session.isOpen then ((w.nextFrame t).map (t.session.receiveSaves yrs)).getD [] else []
  | .synced _ restored =>
    if restored ⊆ w.tabs.persisted t.browser (t.session.documentEpoch.getD 0)
      then t.session.syncedSaves yrs restored else []
  | .edit _ ops => if ∀ op ∈ ops, created op = t.session.documentEpoch then t.session.editSaves else []
  | .flush _ => t.session.flushSaves
  | _ => []

variable [DecidableEq β] (yrs : Yrs β Op) (key : RoomKey) (created : Op → Option ℕ)

def tabOf : TabsLabel β Op → Option ℕ
  | .connect tab _ | .opened tab | .closed tab | .message tab | .synced tab _ | .persist tab | .edit tab _
  | .flush tab | .timeOut tab _ | .leave tab | .create tab _ _ => some tab
  | .access _ | .seat .. | .deliver .. | .room .. | .restore => none

def step (label : TabsLabel β Op) : Watched β Op where
  tabs := w.tabs.step key yrs created label
  own := w.ownAfter created label

def start (w : Tabs β Op) : Watched β Op := ⟨w,fun _ => ∅⟩

def Durable (t : Tab β Op) (ops : Finset Op) : Prop :=
  ∃ epoch, t.session.documentEpoch = some epoch ∧
    ↑ops ⊆ stored yrs (Tabs.document key epoch) (w.tabs.rooms epoch).actor.database

/-- A session with write access shows `synced` only when all own operations are durable. -/
def SavedIsDurable (label : TabsLabel β Op) : Prop :=
  ∀ tab t t', tabOf label = some tab → w.tabs.tabs tab = some t →
    (w.step yrs key created label).tabs.tabs tab = some t' → t'.session.access = true →
      .synced ∈ w.sessionSaves yrs created t label →
        (w.step yrs key created label).Durable yrs key t' ((w.step yrs key created label).own tab)

/-- A session that has its metadata, its initial state and its local store has the editor mounted, and
an edit on an open connection with write access goes out. -/
def Ready : Prop :=
  ∀ tab t, w.tabs.tabs tab = some t → t.session.metadata.isSome = true → t.session.initialState.isSome = true →
    t.session.doc.isSome = true → t.session.initializing = false → t.session.mounted = true ∧
      ∀ ops, t.session.isOpen = true → t.session.access = true → t.session.editable = true →
        ∃ sequence, (t.session.edit yrs ops).frames = [.sourceUpdate sequence (yrs.encodeStateAsUpdateV1 ops)]

end Watched
end LatexCore.Collaboration
