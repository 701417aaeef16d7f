import LatexCore.Collaboration.Inside
import LatexCore.Collaboration.Promises

/-! # Tabs in step with their sockets

The invariant of the tabs, sockets and rooms of a file whose rooms keep to the
operations of their epochs: a socket has sent what belongs to its epoch, and a
session that has received `JOIN_ACCEPTED` is in the epoch of its socket.
-/
namespace LatexCore.Collaboration
open Core Foundation
variable {β Op : Type}

structure Socket.Inside (yrs : Yrs β Op) (H : ℕ → Set Op) (socket : Socket β) : Prop where
  bigint : ∀ epoch, socket.epoch = some epoch → epoch ≤ i64Max
  sent : ∀ epoch, socket.epoch = some epoch → updateOps yrs socket.sent ⊆ H epoch
  unused : socket.epoch = none → socket.sent = [] ∧ socket.received = []

namespace Tabs

structure Placed (yrs : Yrs β Op) (H : ℕ → Set Op) (w : Tabs β Op) (t : Tab β Op) : Prop where
  inside : t.session.Inside yrs H
  socket : ∀ id, t.socket = some id → ∃ socket, w.sockets id = some socket ∧
    (t.session.destroyed = false → t.session.Linked socket) ∧
    (t.session.isOpen = true → socket.epoch.isSome = true)
  absent : t.socket = none → t.session.isOpen = false
  gone : t.session.destroyed = true → t.session.socket = none

structure Inside (yrs : Yrs β Op) (H : ℕ → Set Op) (key : RoomKey) (w : Tabs β Op) : Prop where
  bigint : w.documentEpoch ≤ i64Max
  rooms : ∀ epoch, epoch ≤ i64Max → (w.rooms epoch).Carries yrs (document key epoch) (H epoch)
  sockets : ∀ id socket, w.sockets id = some socket → socket.Inside yrs H
  tabs : ∀ tab t, w.tabs tab = some t → w.Placed yrs H t
  owned : ∀ tab t tab' t' id, w.tabs tab = some t → w.tabs tab' = some t' → t.socket = some id →
    t'.socket = some id → tab = tab'
  persisted : ∀ browser epoch, ↑(w.persisted browser epoch) ⊆ H epoch

/-- An edit goes out only on a socket to whose epoch its operations belong. -/
def Kept (H : ℕ → Set Op) (created : Op → Option ℕ) (w : Tabs β Op) : TabsLabel β Op → Prop
  | .edit tab ops => ∀ t, w.tabs tab = some t → (∀ op ∈ ops, created op = t.session.documentEpoch) →
    t.session.isOpen = true → t.session.mounted = true → t.session.editable = true →
      t.session.access = true → ↑ops ⊆ H (w.epochOf t)
  | _ => True

variable {yrs : Yrs β Op} {H : ℕ → Set Op} {key : RoomKey} {w w' : Tabs β Op} {tab : ℕ} {t t' : Tab β Op}
  {id : Uuid} {socket socket' : Socket β} {turn : Turn β Op (Finset Op)}

theorem socketOf_some (hid : t.socket = some id) (hget : w.sockets id = some socket) :
    w.socketOf t = some (id,socket) := by
  rw [socketOf,hid,Option.bind_some,hget,Option.map_some]

theorem socketOf_none (hid : t.socket = none) : w.socketOf t = none := by
  rw [socketOf,hid]
  rfl

theorem Placed.alive (h : w.Placed yrs H t) (hopen : t.session.isOpen = true) : t.session.destroyed = false := by
  cases hd : t.session.destroyed with
  | false => rfl
  | true =>
    rw [CollaborationSession.isOpen,h.gone hd] at hopen
    cases hopen

/-! ## Turns -/

theorem Inside.settle (h : w.Inside yrs H key) (ht : w.tabs tab = some t)
    (hbigint : w'.documentEpoch = w.documentEpoch) (hrooms : w'.rooms = w.rooms)
    (hpersisted : w'.persisted = w.persisted) (htabs : w'.tabs = Function.update w.tabs tab (some t'))
    (hsame : t'.socket = t.socket) (hsockets : ∀ id, t.socket ≠ some id → w'.sockets id = w.sockets id)
    (hown : ∀ id socket, t.socket = some id → w'.sockets id = some socket → socket.Inside yrs H)
    (hplaced : w'.Placed yrs H t') : w'.Inside yrs H key := by
  have hget (x : ℕ) (u : Tab β Op) (hu : w'.tabs x = some u) :
      x = tab ∧ u = t' ∨ x ≠ tab ∧ w.tabs x = some u := by
    rw [htabs,Function.update_apply] at hu
    split at hu
    · next hx =>
      cases hu
      exact Or.inl ⟨hx,rfl⟩
    · next hx => exact Or.inr ⟨hx,hu⟩
  refine ⟨hbigint ▸ h.bigint,hrooms ▸ h.rooms,?_,?_,?_,hpersisted ▸ h.persisted⟩
  · intro id socket hsocket
    by_cases hid : t.socket = some id
    · exact hown id socket hid hsocket
    · rw [hsockets id hid] at hsocket
      exact h.sockets id socket hsocket
  · intro x u hu
    rcases hget x u hu with ⟨rfl,rfl⟩ | ⟨hx,hold⟩
    · exact hplaced
    · have hp := h.tabs x u hold
      refine ⟨hp.inside,?_,hp.absent,hp.gone⟩
      intro id hid
      have hother : t.socket ≠ some id := by
        intro hthis
        exact hx (h.owned x u tab t id hold ht hid hthis)
      rw [hsockets id hother]
      exact hp.socket id hid
  · intro x u x' u' id hu hu' hid hid'
    rcases hget x u hu with ⟨rfl,rfl⟩ | ⟨hx,hold⟩
    · rcases hget x' u' hu' with ⟨rfl,rfl⟩ | ⟨hx',hold'⟩
      · rfl
      · exact h.owned x t x' u' id ht hold' (hsame ▸ hid) hid'
    · rcases hget x' u' hu' with ⟨rfl,rfl⟩ | ⟨hx',hold'⟩
      · exact h.owned x u x' t id hold ht hid (hsame ▸ hid')
      · exact h.owned x u x' u' id hold hold' hid hid'

variable [DecidableEq Op]

theorem take_sockets (yrs : Yrs β Op) (tab : ℕ) (turn : Turn β Op (Finset Op))
    (hsocket : w.socketOf t = some (id,socket)) : (w.take yrs tab t turn).sockets =
    Function.update w.sockets id (some { socket with sent := socket.sent ++ turn.frames }) := by
  simp only [take,transmit,hsocket,setSocket,setTab]

theorem take_sockets_none (yrs : Yrs β Op) (tab : ℕ) (turn : Turn β Op (Finset Op))
    (hsocket : w.socketOf t = none) : (w.take yrs tab t turn).sockets = w.sockets := by
  simp only [take,transmit,hsocket,setTab]

theorem take_rest (w : Tabs β Op) (yrs : Yrs β Op) (tab : ℕ) (t : Tab β Op) (turn : Turn β Op (Finset Op)) :
    (w.take yrs tab t turn).documentEpoch = w.documentEpoch ∧
      (w.take yrs tab t turn).rooms = w.rooms ∧ (w.take yrs tab t turn).persisted = w.persisted ∧
      (w.take yrs tab t turn).tabs = Function.update w.tabs tab (some { t with
        session := turn.session
        sentOps := t.sentOps ∪ frameOps yrs turn.frames }) := by
  unfold take transmit
  split <;> exact ⟨rfl,rfl,rfl,rfl⟩

theorem Inside.follow (h : w.Inside yrs H key) (ht : w.tabs tab = some t) (hid : t.socket = some id)
    (hget : w.sockets id = some socket) (hepoch : socket'.epoch = socket.epoch)
    (hsent : socket'.sent = socket.sent) (hreceived : socket'.epoch = none → socket'.received = [])
    (hinside : turn.session.Inside yrs H) (hgone : turn.session.destroyed = true → turn.session.socket = none)
    (hf : turn.Follows yrs H socket') : ((w.setSocket id socket').take yrs tab t turn).Inside yrs H key := by
  have hsocket : (w.setSocket id socket').socketOf t = some (id,socket') :=
    socketOf_some hid (Function.update_self ..)
  have hsockets := take_sockets yrs tab turn hsocket
  obtain ⟨hbigint,hrooms,hpersisted,htabs⟩ := take_rest (w.setSocket id socket') yrs tab t turn
  have hold := h.sockets id socket hget
  have hnew : ((w.setSocket id socket').take yrs tab t turn).sockets id =
      some { socket' with sent := socket'.sent ++ turn.frames } := by
    rw [hsockets,Function.update_self]
  refine h.settle ht hbigint hrooms hpersisted htabs rfl ?_ ?_ ⟨hinside,?_,?_,hgone⟩
  · intro x hx
    have hne : x ≠ id := by
      rintro rfl
      exact hx hid
    rw [hsockets,Function.update_of_ne hne]
    exact Function.update_of_ne hne ..
  · intro x y hx hy
    rw [hid,Option.some.injEq] at hx
    subst hx
    rw [hnew] at hy
    cases hy
    refine ⟨?_,?_,?_⟩
    · intro epoch he
      exact hold.bigint epoch (hepoch ▸ he)
    · intro epoch he
      rw [updateOps_append,hsent]
      exact Set.union_subset (hold.sent epoch (hepoch ▸ he)) (hf.frames epoch he)
    · intro he
      change socket'.sent ++ turn.frames = [] ∧ _
      rw [hf.silent he,hsent,(hold.unused (hepoch ▸ he)).1]
      exact ⟨rfl,hreceived he⟩
  · intro x hx
    obtain rfl : id = x := Option.some.inj (hid.symm.trans hx)
    refine ⟨_,hnew,?_,hf.isOpen⟩
    intro hdestroyed
    have hlinked := hf.linked hdestroyed
    exact ⟨hlinked.epoch,hlinked.metadata,hlinked.initial⟩
  · intro hx
    rw [hid] at hx
    cases hx

theorem Inside.takes (h : w.Inside yrs H key) (ht : w.tabs tab = some t) (hinside : turn.session.Inside yrs H)
    (hgone : turn.session.destroyed = true → turn.session.socket = none)
    (habsent : t.socket = none → turn.session.isOpen = false)
    (hf : ∀ id socket, t.socket = some id → w.sockets id = some socket → turn.Follows yrs H socket) :
    (w.take yrs tab t turn).Inside yrs H key := by
  cases hid : t.socket with
  | none =>
    obtain ⟨hbigint,hrooms,hpersisted,htabs⟩ := take_rest w yrs tab t turn
    have hnone : w.socketOf t = none := socketOf_none hid
    have hsockets := take_sockets_none yrs tab turn hnone
    refine h.settle ht hbigint hrooms hpersisted htabs rfl (fun x _ => by rw [hsockets]) ?_
      ⟨hinside,?_,fun _ => habsent hid,hgone⟩
    · intro x y hx
      rw [hid] at hx
      cases hx
    · intro x hx
      change t.socket = some x at hx
      rw [hid] at hx
      cases hx
  | some id =>
    obtain ⟨socket,hget,-⟩ := (h.tabs tab t ht).socket id hid
    have hself : w.setSocket id socket = w := by
      unfold setSocket
      rw [← hget,Function.update_eq_self]
    have hall := h.follow ht hid hget rfl rfl (fun he => ((h.sockets id socket hget).unused he).2) hinside hgone
      (hf id socket hid hget)
    rwa [hself] at hall

theorem Inside.keeps (h : w.Inside yrs H key) (ht : w.tabs tab = some t) (hk : Turn.Keeps yrs H t.session turn)
    (hout : t.session.isOpen = true → ∀ id socket epoch, t.socket = some id → w.sockets id = some socket →
      socket.epoch = some epoch → updateOps yrs turn.frames ⊆ H epoch) :
    (w.take yrs tab t turn).Inside yrs H key := by
  have hp := h.tabs tab t ht
  refine h.takes ht hk.inside ?_ ?_ ?_
  · rw [hk.destroyed,hk.socket]
    exact hp.gone
  · rw [hk.isOpen]
    exact hp.absent
  · intro id socket hid hget
    obtain ⟨socket',hget',hlinked,hopen⟩ := hp.socket id hid
    obtain rfl : socket = socket' := Option.some.inj (hget.symm.trans hget')
    refine ⟨?_,?_,?_,?_⟩
    · intro hdestroyed
      rw [hk.destroyed] at hdestroyed
      exact (hlinked hdestroyed).of_keeps hk
    · rw [hk.isOpen]
      exact hopen
    · intro epoch hepoch
      cases hcase : t.session.isOpen with
      | true => exact hout hcase id socket epoch hid hget hepoch
      | false =>
        rw [hk.closed hcase,updateOps_nil]
        exact Set.empty_subset _
    · intro hepoch
      apply hk.closed
      cases hcase : t.session.isOpen with
      | true =>
        have hsome := hopen hcase
        rw [hepoch] at hsome
        cases hsome
      | false => rfl

omit [DecidableEq Op] in
/-- A session that has received `JOIN_ACCEPTED` from its socket is in the epoch of the socket. -/
theorem Inside.linked_epoch (h : w.Inside yrs H key) (ht : w.tabs tab = some t) (hopen : t.session.isOpen = true)
    (hinitial : t.session.initialState.isSome = true) (hid : t.socket = some id)
    (hget : w.sockets id = some socket) : t.session.documentEpoch = socket.epoch := by
  have hp := h.tabs tab t ht
  obtain ⟨socket',hget',hlinked,-⟩ := hp.socket id hid
  obtain rfl : socket = socket' := Option.some.inj (hget.symm.trans hget')
  have hdestroyed := hp.alive hopen
  have hl := hlinked hdestroyed
  apply hl.epoch
  intro hnil
  have hlength := hl.initial.mp hinitial
  rw [hnil] at hlength
  simp at hlength

/-! ## Frames of the room -/

theorem Inside.message (h : w.Inside yrs H key) (ht : w.tabs tab = some t) (hopen : t.session.isOpen = true) :
    (w.message yrs tab t).Inside yrs H key := by
  have hp := h.tabs tab t ht
  unfold Tabs.message
  split
  · next id socket hsocket =>
    obtain ⟨hid,hget⟩ := socketOf_eq hsocket
    split
    · next frame hnext =>
      obtain ⟨epoch,hepoch,hframe⟩ := Option.bind_eq_some_iff.mp hnext
      have hs := h.sockets id socket hget
      have hroom := h.rooms epoch (hs.bigint epoch hepoch)
      obtain ⟨socket',hget',hlinked,-⟩ := hp.socket id hid
      obtain rfl : socket = socket' := Option.some.inj (hget.symm.trans hget')
      have hdestroyed := hp.alive hopen
      cases hconn : (w.rooms epoch).connections.get? id with
      | none =>
        rw [Session.framesOf,hconn] at hframe
        cases hframe
      | some c =>
        rw [Session.framesOf,hconn] at hframe
        have hc := hroom.connection id c hconn
        obtain ⟨hinside,hgone,hfollows⟩ := receive_inside hp.inside (hlinked hdestroyed) hepoch hdestroyed
          hc.greeted hc.frames hframe
        refine h.follow ht hid hget rfl rfl ?_ hinside hgone hfollows
        intro hnone
        rw [show socket.epoch = none from hnone] at hepoch
        cases hepoch
    · exact h
  · exact h

/-! ## Sockets and rooms -/

omit [DecidableEq Op] in
theorem Inside.setRoom (h : w.Inside yrs H key) (epoch : ℕ) {s : Session β Op}
    (hs : epoch ≤ i64Max → s.Carries yrs (document key epoch) (H epoch)) :
    (w.setRoom epoch s).Inside yrs H key := by
  refine ⟨h.bigint,?_,h.sockets,?_,h.owned,h.persisted⟩
  · intro e he
    have hroom : (w.setRoom epoch s).rooms e = if e = epoch then s else w.rooms e := Function.update_apply ..
    rw [hroom]
    split
    · next heq =>
      subst heq
      exact hs he
    · exact h.rooms e he
  · intro tab t ht
    have hp := h.tabs tab t ht
    exact ⟨hp.inside,hp.socket,hp.absent,hp.gone⟩

omit [DecidableEq Op] in
theorem Inside.setSocket (h : w.Inside yrs H key) (hget : w.sockets id = some socket)
    (hsocket : socket'.Inside yrs H) (hreceived : socket'.received = socket.received)
    (hepoch : socket.epoch.isSome = true → socket'.epoch = socket.epoch) :
    (w.setSocket id socket').Inside yrs H key := by
  refine ⟨h.bigint,h.rooms,?_,?_,h.owned,h.persisted⟩
  · intro x y hy
    change Function.update w.sockets id _ x = some y at hy
    rw [Function.update_apply] at hy
    split at hy
    · cases hy
      exact hsocket
    · exact h.sockets x y hy
  · intro tab t ht
    have hp := h.tabs tab t ht
    refine ⟨hp.inside,?_,hp.absent,hp.gone⟩
    intro x hx
    obtain ⟨y,hy,hlinked,hopen⟩ := hp.socket x hx
    by_cases hxid : x = id
    · subst hxid
      obtain rfl : socket = y := Option.some.inj (hget.symm.trans hy)
      refine ⟨socket',Function.update_self ..,?_,?_⟩
      · intro hdestroyed
        have hl := hlinked hdestroyed
        refine ⟨?_,?_,?_⟩
        · rw [hreceived]
          intro hne
          rw [hepoch ?_]
          · exact hl.epoch hne
          · cases he : socket.epoch with
            | some e => rfl
            | none => exact absurd ((h.sockets x socket hget).unused he).2 hne
        · rw [hreceived]
          exact hl.metadata
        · rw [hreceived]
          exact hl.initial
      · intro hopen'
        rw [hepoch (hopen hopen')]
        exact hopen hopen'
    · exact ⟨y,(Function.update_of_ne hxid ..).trans hy,hlinked,hopen⟩

omit [DecidableEq Op] in
theorem Inside.access (h : w.Inside yrs H key) (hget : w.sockets id = some socket) (hnone : socket.epoch = none) :
    (w.setSocket id { socket with epoch := some w.documentEpoch }).Inside yrs H key := by
  obtain ⟨hsent,hreceived⟩ := (h.sockets id socket hget).unused hnone
  refine h.setSocket hget ⟨?_,?_,?_⟩ rfl ?_
  · intro epoch he
    cases he
    exact h.bigint
  · intro epoch _
    change updateOps yrs socket.sent ⊆ H epoch
    rw [hsent,updateOps_nil]
    exact Set.empty_subset _
  · intro he
    cases he
  · intro hsome
    rw [hnone] at hsome
    cases hsome

omit [DecidableEq Op] in
theorem Inside.connect (h : w.Inside yrs H key) (ht : w.tabs tab = some t) (hfree : w.sockets id = none)
    (hdestroyed : t.session.destroyed = false) :
    ((w.setSocket id {}).setTab tab { t with
      session := t.session.connect
      socket := some id }).Inside yrs H key := by
  have hsockets (x : Uuid) : ((w.setSocket id {}).setTab tab { t with
      session := t.session.connect
      socket := some id }).sockets x = if x = id then some {} else w.sockets x := Function.update_apply ..
  have hother : ∀ x u, w.tabs x = some u → u.socket ≠ some id := by
    intro x u hu hx
    obtain ⟨y,hy,-⟩ := (h.tabs x u hu).socket id hx
    rw [hfree] at hy
    cases hy
  have hget (x : ℕ) (u : Tab β Op) (hu : ((w.setSocket id {}).setTab tab { t with
      session := t.session.connect
      socket := some id }).tabs x = some u) :
      x = tab ∧ u = { t with
        session := t.session.connect
        socket := some id } ∨ x ≠ tab ∧ w.tabs x = some u := by
    change Function.update w.tabs tab _ x = some u at hu
    rw [Function.update_apply] at hu
    split at hu
    · next hx =>
      cases hu
      exact Or.inl ⟨hx,rfl⟩
    · next hx => exact Or.inr ⟨hx,hu⟩
  refine ⟨h.bigint,h.rooms,?_,?_,?_,h.persisted⟩
  · intro x y hy
    rw [hsockets] at hy
    split at hy
    · cases hy
      refine ⟨?_,?_,fun _ => ⟨rfl,rfl⟩⟩
      · intro epoch he
        cases he
      · intro epoch he
        cases he
    · exact h.sockets x y hy
  · intro x u hu
    rcases hget x u hu with ⟨rfl,rfl⟩ | ⟨hx,hold⟩
    · have hp := h.tabs x t ht
      refine ⟨⟨hp.inside.doc,hp.inside.buffered,?_⟩,?_,?_,?_⟩
      · intro bytes hbytes
        cases hbytes
      · intro y hy
        cases hy
        refine ⟨{},by rw [hsockets,if_pos rfl],?_,?_⟩
        · intro _
          refine ⟨fun hne => absurd rfl hne,?_,?_⟩
          · simp [CollaborationSession.connect]
          · simp [CollaborationSession.connect]
        · intro hopen
          cases hopen
      · intro hnone
        cases hnone
      · intro hd
        rw [show t.session.connect.destroyed = t.session.destroyed from rfl,hdestroyed] at hd
        cases hd
    · have hp := h.tabs x u hold
      refine ⟨hp.inside,?_,hp.absent,hp.gone⟩
      intro y hy
      rw [hsockets,if_neg]
      · exact hp.socket y hy
      · rintro rfl
        exact hother x u hold hy
  · intro x u x' u' y hu hu' hy hy'
    rcases hget x u hu with ⟨rfl,rfl⟩ | ⟨hx,hold⟩
    · cases hy
      rcases hget x' u' hu' with ⟨rfl,rfl⟩ | ⟨hx',hold'⟩
      · rfl
      · exact absurd hy' (hother x' u' hold')
    · rcases hget x' u' hu' with ⟨rfl,rfl⟩ | ⟨hx',hold'⟩
      · cases hy'
        exact absurd hy (hother x u hold)
      · exact h.owned x u x' u' y hold hold' hy hy'

omit [DecidableEq Op] in
/-- The next frame of a socket at its connection. -/
theorem Inside.deliver (h : w.Inside yrs H key) (id : Uuid) (user : UserId) (authorized sends : Bool) :
    (w.deliver yrs id user authorized sends).Inside yrs H key := by
  unfold Tabs.deliver
  split
  · next socket hget =>
    split
    · next epoch frame hepoch hframe =>
      split
      · have hs := h.sockets id socket hget
        have hops : ∀ sequence payload, frame = .sourceUpdate sequence payload → yrs.ops payload ⊆ H epoch := by
          rintro sequence payload rfl op hop
          exact hs.sent epoch hepoch ⟨sequence,payload,List.mem_of_getElem? hframe,hop⟩
        have hroom := h.setRoom epoch (fun he => (h.rooms epoch he).incoming id user
          (fun sequence payload hf (_ : (authorized && w.documentEpoch == epoch) = true) =>
            hops sequence payload hf) sends)
        exact hroom.setSocket hget ⟨hs.bigint,hs.sent,hs.unused⟩ rfl (fun _ => rfl)
      · exact h
    · exact h
  · exact h

end Tabs
end LatexCore.Collaboration
