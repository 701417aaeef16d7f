import LatexCore.Collaboration.Turns

/-! # Promises that wait behind a flush

A promise of a flush waits behind the flush with the number of the answers that
its tab has received. The invariant ties the sockets to the rooms and to the
tabs, and says that what was sent before a call lies in front of that flush; it
is kept by the frames that go out, arrive and are taken, and by every turn.
-/
namespace LatexCore.Collaboration
open Core Foundation
variable {β Op : Type}

def Socket.takenIn (epoch : ℕ) (socket : Socket β) : List (ClientFrame β) :=
  if socket.epoch = some epoch then socket.sent.take socket.taken else []

def Socket.receivedIn (epoch : ℕ) (socket : Socket β) : List (Frame β) :=
  if socket.epoch = some epoch then socket.received else []

namespace Tabs
variable (w : Tabs β Op)

def taken (epoch : ℕ) (id : Uuid) : List (ClientFrame β) := ((w.sockets id).map (Socket.takenIn epoch)).getD []

def received (epoch : ℕ) (id : Uuid) : List (Frame β) :=
  ((w.sockets id).map (Socket.receivedIn epoch)).getD []

variable (yrs : Yrs β Op)

def Barred (t : Tab β Op) (before : Finset Op) : Prop :=
  ∃ id socket epoch, w.socketOf t = some (id,socket) ∧ socket.epoch = some epoch ∧
    ↑before ⊆ updateOps yrs (beforeFlush (answerCount socket.received) socket.sent)

/-- A call of `flush` that waits for the answer to its own frame or to a later one; one that does not
wait has nothing to wait for. -/
def Safe : TabsLabel β Op → Prop
  | .flush tab => ∀ t, w.tabs tab = some t →
    if t.session.access then t.session.isOpen = true → w.Barred yrs t t.sentOps else t.sentOps = ∅
  | _ => True

variable (key : RoomKey)

/-- What was sent before a call of `flush` that has resolved is stored. -/
def Barrier : Prop :=
  ∀ r ∈ w.resolved, ↑r.before ⊆ stored yrs (document key r.epoch) (w.rooms r.epoch).actor.database

/-- Every socket is as far as its room and its tab say, and every promise waits behind a flush. -/
structure Ordered : Prop where
  bigint : w.documentEpoch ≤ i64Max
  rooms : ∀ epoch, epoch ≤ i64Max →
    (w.rooms epoch).Answered yrs (document key epoch) (w.taken epoch) (w.received epoch)
  sockets : ∀ id socket, w.sockets id = some socket → socket.taken ≤ socket.sent.length ∧
    (∀ epoch, socket.epoch = some epoch → epoch ≤ i64Max) ∧
    (socket.epoch = none → socket.taken = 0 ∧ socket.received = [])
  connected : ∀ tab t, w.tabs tab = some t → t.session.isOpen = true → w.Barred yrs t ∅
  waiters : ∀ tab t, w.tabs tab = some t → ∀ waiter ∈ t.session.flushWaiters,
    t.session.isOpen = true ∧ w.Barred yrs t waiter.promise
  resolved : ∀ r ∈ w.resolved, r.epoch ≤ i64Max
  barrier : w.Barrier yrs key

variable {w yrs key} {w' : Tabs β Op}

/-- No socket is taken back. -/
def Grown (w w' : Tabs β Op) : Prop :=
  ∀ id socket, w.sockets id = some socket → ∃ socket', w'.sockets id = some socket' ∧
    (∀ epoch, socket.epoch = some epoch → socket'.epoch = some epoch) ∧
    socket.sent <+: socket'.sent ∧ socket.received <+: socket'.received

theorem Grown.refl (w : Tabs β Op) : Grown w w :=
  fun _ socket h => ⟨socket,h,fun _ he => he,List.prefix_rfl,List.prefix_rfl⟩

theorem Grown.setSocket {id : Uuid} {socket' : Socket β} (h : ∀ socket, w.sockets id = some socket →
      (∀ epoch, socket.epoch = some epoch → socket'.epoch = some epoch) ∧
      socket.sent <+: socket'.sent ∧ socket.received <+: socket'.received) :
    Grown w (w.setSocket id socket') := by
  intro x socket hx
  by_cases hid : x = id
  · subst hid
    exact ⟨socket',Function.update_self ..,h socket hx⟩
  · exact ⟨socket,(Function.update_of_ne hid ..).trans hx,fun _ he => he,List.prefix_rfl,List.prefix_rfl⟩

theorem Barred.grown {t : Tab β Op} {before : Finset Op} (h : w.Barred yrs t before) (hg : Grown w w') :
    w'.Barred yrs t before := by
  obtain ⟨id,socket,epoch,hsocket,hepoch,hbefore⟩ := h
  obtain ⟨x,hx,hmap⟩ := Option.bind_eq_some_iff.mp hsocket
  obtain ⟨_,hget,heq⟩ := Option.map_eq_some_iff.mp hmap
  cases heq
  obtain ⟨socket',hget',hepoch',⟨sent,hsent⟩,⟨more,hmore⟩⟩ := hg id socket hget
  refine ⟨id,socket',epoch,?_,hepoch' epoch hepoch,?_⟩
  · rw [socketOf,hx,Option.bind_some,hget',Option.map_some]
  · refine hbefore.trans (updateOps_mono ?_)
    have hcount : answerCount socket.received ≤ answerCount socket'.received := by
      rw [← hmore,answerCount_append]
      exact Nat.le_add_right _ _
    have hright := beforeFlush_mono_right (answerCount socket.received) socket.sent sent
    rw [hsent] at hright
    exact List.Subset.trans hright (beforeFlush_mono_left hcount _)

theorem Ordered.evolves (h : w.Ordered yrs key) (hbigint : w'.documentEpoch ≤ i64Max)
    (hrooms : ∀ epoch, epoch ≤ i64Max →
      (w'.rooms epoch).Answered yrs (document key epoch) (w'.taken epoch) (w'.received epoch))
    (hsockets : ∀ id socket, w'.sockets id = some socket → socket.taken ≤ socket.sent.length ∧
      (∀ epoch, socket.epoch = some epoch → epoch ≤ i64Max) ∧
      (socket.epoch = none → socket.taken = 0 ∧ socket.received = []))
    (hgrown : Grown w w') (htabs : w'.tabs = w.tabs) (hresolved : w'.resolved = w.resolved)
    (hstored : ∀ epoch, epoch ≤ i64Max → stored yrs (document key epoch) (w.rooms epoch).actor.database ⊆
      stored yrs (document key epoch) (w'.rooms epoch).actor.database) : w'.Ordered yrs key := by
  refine ⟨hbigint,hrooms,hsockets,?_,?_,?_,?_⟩
  · intro tab t ht hopen
    rw [htabs] at ht
    exact (h.connected tab t ht hopen).grown hgrown
  · intro tab t ht waiter hwaiter
    rw [htabs] at ht
    obtain ⟨hopen,hbarred⟩ := h.waiters tab t ht waiter hwaiter
    exact ⟨hopen,hbarred.grown hgrown⟩
  · rw [hresolved]
    exact h.resolved
  · intro r hr
    rw [hresolved] at hr
    exact (h.barrier r hr).trans (hstored r.epoch (h.resolved r hr))

theorem Ordered.setRoom (h : w.Ordered yrs key) (epoch : ℕ) {s : Session β Op}
    (hs : epoch ≤ i64Max → s.Answered yrs (document key epoch) (w.taken epoch) (w.received epoch))
    (hstored : epoch ≤ i64Max → stored yrs (document key epoch) (w.rooms epoch).actor.database ⊆
      stored yrs (document key epoch) s.actor.database) : (w.setRoom epoch s).Ordered yrs key := by
  have hroom (e : ℕ) : (w.setRoom epoch s).rooms e = if e = epoch then s else w.rooms e :=
    Function.update_apply ..
  refine h.evolves h.bigint ?_ h.sockets (Grown.refl w) rfl rfl ?_
  · intro e he
    rw [hroom]
    split
    · next heq =>
      subst heq
      exact hs he
    · exact h.rooms e he
  · intro e he
    rw [hroom]
    split
    · next heq =>
      subst heq
      exact hstored he
    · exact subset_rfl

theorem taken_setSocket (w : Tabs β Op) (id : Uuid) (socket : Socket β) (epoch : ℕ) :
    (w.setSocket id socket).taken epoch = Function.update (w.taken epoch) id (socket.takenIn epoch) := by
  funext x
  simp only [Tabs.taken,Tabs.setSocket,Function.update_apply]
  split <;> rfl

theorem received_setSocket (w : Tabs β Op) (id : Uuid) (socket : Socket β) (epoch : ℕ) :
    (w.setSocket id socket).received epoch =
      Function.update (w.received epoch) id (socket.receivedIn epoch) := by
  funext x
  simp only [Tabs.received,Tabs.setSocket,Function.update_apply]
  split <;> rfl

/-- A step at a socket that its room does not see. -/
theorem Ordered.setSocket (h : w.Ordered yrs key) {id : Uuid} {socket : Socket β}
    (hlength : socket.taken ≤ socket.sent.length) (hbigint : ∀ epoch, socket.epoch = some epoch → epoch ≤ i64Max)
    (hunused : socket.epoch = none → socket.taken = 0 ∧ socket.received = [])
    (htaken : ∀ epoch, socket.takenIn epoch = w.taken epoch id)
    (hreceived : ∀ epoch, socket.receivedIn epoch = w.received epoch id)
    (hgrown : Grown w (w.setSocket id socket)) : (w.setSocket id socket).Ordered yrs key := by
  refine h.evolves h.bigint ?_ ?_ hgrown rfl rfl (fun _ _ => subset_rfl)
  · intro epoch he
    rw [taken_setSocket,received_setSocket,htaken,hreceived,Function.update_eq_self,Function.update_eq_self]
    exact h.rooms epoch he
  · intro x socket' hx
    change Function.update w.sockets id _ x = some socket' at hx
    rw [Function.update_apply] at hx
    split at hx
    · cases hx
      exact ⟨hlength,hbigint,hunused⟩
    · exact h.sockets x socket' hx

theorem socketOf_eq {t : Tab β Op} {id : Uuid} {socket : Socket β} (h : w.socketOf t = some (id,socket)) :
    t.socket = some id ∧ w.sockets id = some socket := by
  obtain ⟨x,hx,hmap⟩ := Option.bind_eq_some_iff.mp h
  obtain ⟨_,hget,heq⟩ := Option.map_eq_some_iff.mp hmap
  cases heq
  exact ⟨hx,hget⟩

theorem taken_eq {id : Uuid} {socket : Socket β} (h : w.sockets id = some socket) (epoch : ℕ) :
    w.taken epoch id = socket.takenIn epoch := by
  rw [Tabs.taken,h]
  rfl

theorem received_eq {id : Uuid} {socket : Socket β} (h : w.sockets id = some socket) (epoch : ℕ) :
    w.received epoch id = socket.receivedIn epoch := by
  rw [Tabs.received,h]
  rfl

theorem Ordered.transmit (h : w.Ordered yrs key) (t : Tab β Op) (frames : List (ClientFrame β)) :
    (w.transmit t frames).Ordered yrs key ∧ Grown w (w.transmit t frames) := by
  unfold Tabs.transmit
  split
  · next id socket hsocket =>
    have hget := (socketOf_eq hsocket).2
    obtain ⟨hlength,hbigint,hunused⟩ := h.sockets id socket hget
    have hgrown : Grown w (w.setSocket id { socket with sent := socket.sent ++ frames }) := by
      refine Grown.setSocket (fun socket' hget' => ?_)
      rw [hget] at hget'
      cases hget'
      exact ⟨fun _ he => he,List.prefix_append _ _,List.prefix_rfl⟩
    refine ⟨h.setSocket ?_ hbigint hunused ?_ ?_ hgrown,hgrown⟩
    · rw [List.length_append]
      exact hlength.trans (Nat.le_add_right _ _)
    · intro epoch
      rw [taken_eq hget,Socket.takenIn,Socket.takenIn]
      dsimp only
      rw [List.take_append_of_le_length hlength]
    · intro epoch
      rw [received_eq hget,Socket.receivedIn,Socket.receivedIn]
  · exact ⟨h,Grown.refl w⟩

theorem Ordered.setTab (h : w.Ordered yrs key) (tab : ℕ) (t : Tab β Op) (resolved : List (Resolved Op))
    (hconnected : t.session.isOpen = true → w.Barred yrs t ∅)
    (hwaiters : ∀ waiter ∈ t.session.flushWaiters,
      t.session.isOpen = true ∧ w.Barred yrs t waiter.promise)
    (hresolved : ∀ r ∈ resolved, r.epoch ≤ i64Max ∧
      ↑r.before ⊆ stored yrs (document key r.epoch) (w.rooms r.epoch).actor.database) :
    Ordered { w.setTab tab t with resolved := w.resolved ++ resolved } yrs key := by
  have htabs : ∀ tab' t', (w.setTab tab t).tabs tab' = some t' → t' = t ∨ w.tabs tab' = some t' := by
    intro tab' t' ht'
    change Function.update w.tabs tab _ tab' = some t' at ht'
    rw [Function.update_apply] at ht'
    split at ht'
    · cases ht'
      exact Or.inl rfl
    · exact Or.inr ht'
  refine ⟨h.bigint,h.rooms,h.sockets,?_,?_,?_,?_⟩
  · intro tab' t' ht'
    rcases htabs tab' t' ht' with rfl | hold
    · exact hconnected
    · exact h.connected tab' t' hold
  · intro tab' t' ht'
    rcases htabs tab' t' ht' with rfl | hold
    · exact hwaiters
    · exact h.waiters tab' t' hold
  · intro r hr
    rcases List.mem_append.mp hr with hr | hr
    · exact h.resolved r hr
    · exact (hresolved r hr).1
  · intro r hr
    rcases List.mem_append.mp hr with hr | hr
    · exact h.barrier r hr
    · exact (hresolved r hr).2

theorem epochOf_le (h : w.Ordered yrs key) (t : Tab β Op) : w.epochOf t ≤ i64Max := by
  unfold Tabs.epochOf
  cases hsocket : w.socketOf t with
  | none => exact Nat.zero_le _
  | some s =>
    cases hepoch : s.2.epoch with
    | none =>
      rw [Option.bind_some,hepoch]
      exact Nat.zero_le _
    | some epoch =>
      rw [Option.bind_some,hepoch]
      exact (h.sockets s.1 s.2 (socketOf_eq hsocket).2).2.1 epoch hepoch

theorem Barred.at {t : Tab β Op} {before : Finset Op} {id : Uuid} {socket : Socket β}
    (h : w.Barred yrs t before) (hsocket : w.socketOf t = some (id,socket)) :
    ↑before ⊆ updateOps yrs (beforeFlush (answerCount socket.received) socket.sent) := by
  obtain ⟨id',socket',epoch,hsocket',-,hbefore⟩ := h
  rw [hsocket] at hsocket'
  cases hsocket'
  exact hbefore

theorem Ordered.receipt (h : w.Ordered yrs key) {id : Uuid} {socket : Socket β} {epoch : ℕ} {frame : Frame β}
    (hget : w.sockets id = some socket) (hepoch : socket.epoch = some epoch)
    (hnext : ((w.rooms epoch).framesOf id)[socket.received.length]? = some frame) :
    (w.setSocket id { socket with received := socket.received ++ [frame] }).Ordered yrs key := by
  obtain ⟨hlength,hbigint,-⟩ := h.sockets id socket hget
  have hgrown : Grown w (w.setSocket id { socket with received := socket.received ++ [frame] }) := by
    refine Grown.setSocket (fun socket' hget' => ?_)
    rw [hget] at hget'
    cases hget'
    exact ⟨fun _ he => he,List.prefix_rfl,List.prefix_append _ _⟩
  refine h.evolves h.bigint ?_ ?_ hgrown rfl rfl (fun _ _ => subset_rfl)
  · intro e he
    have htaken : Socket.takenIn e { socket with received := socket.received ++ [frame] } = w.taken e id := by
      rw [taken_eq hget]
      rfl
    rw [taken_setSocket,received_setSocket,htaken,Function.update_eq_self]
    have hold := h.rooms e he
    by_cases heq : e = epoch
    · subst heq
      have hreceived : w.received e id = socket.received := by
        rw [received_eq hget,Socket.receivedIn,if_pos hepoch]
      have hmore : Socket.receivedIn e { socket with received := socket.received ++ [frame] } =
          w.received e id ++ [frame] := by
        rw [hreceived,Socket.receivedIn,if_pos hepoch]
      rw [hmore]
      rw [← hreceived] at hnext
      exact hold.receipt hnext
    · have hne : socket.epoch ≠ some e := by
        rw [hepoch]
        exact fun heq' => heq (Option.some.inj heq').symm
      have hsame : Socket.receivedIn e { socket with received := socket.received ++ [frame] } =
          w.received e id := by
        rw [received_eq hget,Socket.receivedIn,Socket.receivedIn,if_neg hne,if_neg hne]
      rw [hsame,Function.update_eq_self]
      exact hold
  · intro x socket' hx
    change Function.update w.sockets id _ x = some socket' at hx
    rw [Function.update_apply] at hx
    split at hx
    · cases hx
      refine ⟨hlength,hbigint,?_⟩
      intro hnone
      rw [hepoch] at hnone
      cases hnone
    · exact h.sockets x socket' hx

theorem Ordered.deliver (h : w.Ordered yrs key) (id : Uuid) (user : UserId) (authorized sends : Bool) :
    (w.deliver yrs id user authorized sends).Ordered yrs key := by
  unfold Tabs.deliver
  split
  · next socket hget =>
    split
    · next epoch frame hepoch hframe =>
      split
      · next hserves =>
        obtain ⟨hlength,hbigint,-⟩ := h.sockets id socket hget
        have hlt : socket.taken < socket.sent.length := (List.getElem?_eq_some_iff.mp hframe).1
        have hgrown : Grown w (w.setSocket id { socket with taken := socket.taken + 1 }) := by
          refine Grown.setSocket (fun socket' hget' => ?_)
          rw [hget] at hget'
          cases hget'
          exact ⟨fun _ he => he,List.prefix_rfl,List.prefix_rfl⟩
        refine h.evolves h.bigint ?_ ?_ hgrown rfl rfl ?_
        · intro e he
          have hreceived : Socket.receivedIn e { socket with taken := socket.taken + 1 } = w.received e id := by
            rw [received_eq hget]
            rfl
          rw [taken_setSocket,received_setSocket,hreceived]
          change Session.Answered yrs (document key e) (Function.update w.rooms epoch _ e)
            (Function.update (w.taken e) id _) (Function.update (w.received e) id (w.received e id))
          rw [Function.update_eq_self]
          have hold := h.rooms e he
          by_cases heq : e = epoch
          · subst heq
            have htaken : w.taken e id = socket.sent.take socket.taken := by
              rw [taken_eq hget,Socket.takenIn,if_pos hepoch]
            have hmore : Socket.takenIn e { socket with taken := socket.taken + 1 } =
                w.taken e id ++ [frame] := by
              rw [htaken,Socket.takenIn,if_pos hepoch,List.take_add_one,hframe]
              rfl
            rw [Function.update_self,hmore]
            exact hold.incoming hserves user frame _ sends
          · have hne : socket.epoch ≠ some e := by
              rw [hepoch]
              exact fun heq' => heq (Option.some.inj heq').symm
            have hsame : Socket.takenIn e { socket with taken := socket.taken + 1 } = w.taken e id := by
              rw [taken_eq hget,Socket.takenIn,Socket.takenIn,if_neg hne,if_neg hne]
            rw [Function.update_of_ne heq,hsame,Function.update_eq_self]
            exact hold
        · intro x socket' hx
          change Function.update w.sockets id _ x = some socket' at hx
          rw [Function.update_apply] at hx
          split at hx
          · cases hx
            refine ⟨hlt,hbigint,?_⟩
            intro hnone
            rw [hepoch] at hnone
            cases hnone
          · exact h.sockets x socket' hx
        · intro e he
          change _ ⊆ stored yrs _ (Function.update w.rooms epoch _ e).actor.database
          rw [Function.update_apply]
          split
          · next heq =>
            subst heq
            rw [Session.incoming_actor]
          · exact subset_rfl
      · exact h
    · exact h
  · exact h

variable [DecidableEq Op]

theorem Ordered.turn (h : w.Ordered yrs key) (tab : ℕ) {t : Tab β Op} {turn : Turn β Op (Finset Op)}
    (hconnected : turn.session.isOpen = true → w.Barred yrs t ∅)
    (hwaiters : ∀ waiter ∈ turn.session.flushWaiters,
      turn.session.isOpen = true ∧ (w.transmit t turn.frames).Barred yrs t waiter.promise)
    (hresolved : ∀ before ∈ turn.resolved,
      ↑before ⊆ stored yrs (document key (w.epochOf t)) (w.rooms (w.epochOf t)).actor.database) :
    (w.take yrs tab t turn).Ordered yrs key := by
  obtain ⟨hsent,hgrown⟩ := h.transmit t turn.frames
  have hrooms : (w.transmit t turn.frames).rooms = w.rooms := by
    unfold Tabs.transmit
    split <;> rfl
  have hlists : (w.transmit t turn.frames).resolved = w.resolved := by
    unfold Tabs.transmit
    split <;> rfl
  have hnext := hsent.setTab tab { t with
    session := turn.session
    sentOps := t.sentOps ∪ frameOps yrs turn.frames }
    (turn.resolved.map (fun before => ⟨w.epochOf t,before⟩))
    (fun hopen => (hconnected hopen).grown hgrown) hwaiters (by
      intro r hr
      obtain ⟨before,hbefore,rfl⟩ := List.mem_map.mp hr
      rw [hrooms]
      exact ⟨epochOf_le h t,hresolved before hbefore⟩)
  rw [hlists] at hnext
  exact hnext

theorem Ordered.holds (h : w.Ordered yrs key) {tab : ℕ} {t : Tab β Op} (ht : w.tabs tab = some t)
    {turn : Turn β Op (Finset Op)} (hturn : turn.Holds t.session) : (w.take yrs tab t turn).Ordered yrs key := by
  refine h.turn tab (fun hopen => h.connected tab t ht (hturn.socket hopen)) ?_ ?_
  · intro waiter hwaiter
    obtain ⟨hopen,old,hold,heq⟩ := hturn.waiters waiter hwaiter
    obtain ⟨ho,hbarred⟩ := h.waiters tab t ht old hold
    rw [← heq]
    exact ⟨hopen.trans ho,hbarred.grown (h.transmit t turn.frames).2⟩
  · rw [hturn.resolved]
    intro before hbefore
    cases hbefore

theorem Ordered.message (h : w.Ordered yrs key) {tab : ℕ} {t : Tab β Op} (ht : w.tabs tab = some t) :
    (w.message yrs tab t).Ordered yrs key := by
  unfold Tabs.message
  split
  · next id socket hsocket =>
    have hget := (socketOf_eq hsocket).2
    split
    · next frame hbind =>
      obtain ⟨epoch,hepoch,hnext⟩ := Option.bind_eq_some_iff.mp hbind
      have hnew := h.receipt hget hepoch hnext
      by_cases hflushed : ∃ sequence, frame = .flushed sequence
      · obtain ⟨sequence,rfl⟩ := hflushed
        refine hnew.turn tab ?_ ?_ ?_
        · intro hopen
          exact (h.connected tab t ht hopen).grown (Grown.setSocket (fun socket' hget' => by
            rw [hget] at hget'
            cases hget'
            exact ⟨fun _ he => he,List.prefix_rfl,List.prefix_append _ _⟩))
        · intro waiter hwaiter
          cases hwaiter
        · intro before hbefore
          obtain ⟨waiter,hwaiter,rfl⟩ := List.mem_map.mp hbefore
          have hwaits := (h.waiters tab t ht waiter (List.mem_filter.mp hwaiter).1).2.at hsocket
          have hroom : (w.setSocket id { socket with
              received := socket.received ++ [.flushed sequence] }).epochOf t = epoch := by
            rw [Tabs.epochOf,Tabs.socketOf,(socketOf_eq hsocket).1]
            simp only [Option.bind_some,Tabs.setSocket,Function.update_self,Option.map_some,hepoch,
              Option.getD_some]
          have hle := (h.sockets id socket hget).2.1 epoch hepoch
          have hreceived : w.received epoch id = socket.received := by
            rw [received_eq hget,Socket.receivedIn,if_pos hepoch]
          have htaken : w.taken epoch id = socket.sent.take socket.taken := by
            rw [taken_eq hget,Socket.takenIn,if_pos hepoch]
          rw [← hreceived] at hnext
          obtain ⟨hlt,hstored⟩ := (h.rooms epoch hle).received_flushed hnext
          rw [hreceived,htaken] at hlt hstored
          have hinit := beforeFlush_append hlt (socket.sent.drop socket.taken)
          rw [List.take_append_drop] at hinit
          rw [hinit] at hwaits
          rw [hroom]
          exact hwaits.trans hstored
      · exact hnew.holds ht (Turn.Holds.receive yrs t.session (fun sequence heq => hflushed ⟨sequence,heq⟩))
    · exact h
  · exact h

end Tabs
end LatexCore.Collaboration
