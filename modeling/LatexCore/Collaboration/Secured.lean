import LatexCore.Collaboration.Kept
import LatexCore.Collaboration.Owned
import LatexCore.Collaboration.Settled

/-! # Own operations on their way

An own operation of a tab whose whole document has gone out on its connection is
stored, or it is in an update that is pending and not yet acknowledged. The steps
of the rooms keep this as long as what they acknowledge is stored, and the turns
of the tabs as long as they owe nothing.
-/
namespace LatexCore.Collaboration
open Core Foundation
variable {β Op : Type}

namespace Tabs

def admitted (w : Tabs β Op) (id : Uuid) : Option ℕ := (w.sockets id).bind Socket.epoch

def sentOf (w : Tabs β Op) (id : Uuid) : List (ClientFrame β) := ((w.sockets id).map Socket.sent).getD []

def sentIn (w : Tabs β Op) (epoch : ℕ) (id : Uuid) : List (ClientFrame β) :=
  if w.admitted id = some epoch then w.sentOf id else []

end Tabs

namespace Watched

def ownBy (w : Watched β Op) (id : Uuid) : Set Op :=
  { op | ∃ tab t, w.tabs.tabs tab = some t ∧ t.socket = some id ∧ op ∈ w.own tab }

structure Secured (yrs : Yrs β Op) (key : RoomKey) (w : Watched β Op) (tab : ℕ) (t : Tab β Op) : Prop where
  owns : t.session.Owns (w.own tab)
  numbered : ∀ id epoch n bytes, t.socket = some id → .sourceUpdate n bytes ∈ w.tabs.sentIn epoch id →
    n ≤ t.session.clientSequence
  secured : t.session.Current → ∀ id epoch, t.socket = some id → w.tabs.admitted id = some epoch →
    ∀ op ∈ w.own tab, op ∈ stored yrs (Tabs.document key epoch) (w.tabs.rooms epoch).actor.database ∨
      ∃ n bytes, .sourceUpdate n bytes ∈ w.tabs.sentIn epoch id ∧ op ∈ yrs.ops bytes ∧
        n ∈ t.session.pending ∧ ¬(w.tabs.rooms epoch).Acked id n

structure Holds (yrs : Yrs β Op) (key : RoomKey) (w : Watched β Op) : Prop where
  inside : w.tabs.Inside yrs (fun _ => Set.univ) key
  traced : ∀ epoch, epoch ≤ i64Max → (w.tabs.rooms epoch).Traced (w.tabs.sentIn epoch)
  unique : ∀ epoch id n bytes bytes', .sourceUpdate n bytes ∈ w.tabs.sentIn epoch id →
    .sourceUpdate n bytes' ∈ w.tabs.sentIn epoch id → bytes = bytes'
  tabs : ∀ tab t, w.tabs.tabs tab = some t → w.Secured yrs key tab t
  fresh : ∀ tab, w.tabs.tabs tab = none → w.own tab = ∅

end Watched

variable {yrs : Yrs β Op} {key : RoomKey} {w w' : Watched β Op} {tab : ℕ} {t t' : Tab β Op} {id : Uuid}
  {turn : Turn β Op (Finset Op)} {own' : Finset Op}

theorem Session.Traced.mono {s : Session β Op} {sent sent' : Uuid → List (ClientFrame β)} (h : s.Traced sent)
    (hsub : ∀ id, sent id ⊆ sent' id) : s.Traced sent' := by
  refine ⟨?_,?_,?_⟩
  · intro entry hentry source user sequence bytes happly
    exact hsub source (h.mailbox entry hentry source user sequence bytes happly)
  · intro u hu
    exact hsub u.acknowledgements (h.pending u hu)
  · intro id n hack
    obtain ⟨bytes,hbytes⟩ := h.acked id n hack
    exact ⟨bytes,hsub id hbytes⟩

namespace Tabs
variable {w w' : Tabs β Op} {socket socket' : Socket β}

theorem sentIn_congr (hadmitted : w'.admitted = w.admitted) (hsent : w'.sentOf = w.sentOf) :
    w'.sentIn = w.sentIn := by
  funext epoch id
  rw [sentIn,sentIn,hadmitted,hsent]

theorem admitted_setSocket (w : Tabs β Op) (id : Uuid) (socket : Socket β) :
    (w.setSocket id socket).admitted = Function.update w.admitted id socket.epoch := by
  funext x
  rw [admitted,Function.update_apply]
  change (Function.update w.sockets id (some socket) x).bind Socket.epoch = _
  rw [Function.update_apply]
  split
  · rfl
  · rfl

theorem sentOf_setSocket (w : Tabs β Op) (id : Uuid) (socket : Socket β) :
    (w.setSocket id socket).sentOf = Function.update w.sentOf id socket.sent := by
  funext x
  rw [sentOf,Function.update_apply]
  change ((Function.update w.sockets id (some socket) x).map Socket.sent).getD [] = _
  rw [Function.update_apply]
  split
  · rfl
  · rfl

theorem admitted_eq (hget : w.sockets id = some socket) : w.admitted id = socket.epoch := by
  rw [admitted,hget,Option.bind_some]

theorem sentOf_eq (hget : w.sockets id = some socket) : w.sentOf id = socket.sent := by
  rw [sentOf,hget]
  rfl

theorem admitted_same (hget : w.sockets id = some socket) (hepoch : socket'.epoch = socket.epoch) :
    (w.setSocket id socket').admitted = w.admitted := by
  rw [admitted_setSocket,hepoch,← admitted_eq hget,Function.update_eq_self]

theorem sentIn_same (hget : w.sockets id = some socket) (hepoch : socket'.epoch = socket.epoch)
    (hsent : socket'.sent = socket.sent) : (w.setSocket id socket').sentIn = w.sentIn := by
  refine sentIn_congr (admitted_same hget hepoch) ?_
  rw [sentOf_setSocket,hsent,← sentOf_eq hget,Function.update_eq_self]

variable [DecidableEq Op]

theorem admitted_take (yrs : Yrs β Op) (tab : ℕ) (t : Tab β Op) (turn : Turn β Op (Finset Op)) :
    (w.take yrs tab t turn).admitted = w.admitted := by
  have htransmit : (w.take yrs tab t turn).admitted = (w.transmit t turn.frames).admitted := rfl
  rw [htransmit,transmit]
  split
  · next id socket hsocket => exact admitted_same (socketOf_eq hsocket).2 rfl
  · rfl

theorem sentIn_take (yrs : Yrs β Op) (tab : ℕ) (t : Tab β Op) (turn : Turn β Op (Finset Op)) (epoch : ℕ)
    (id : Uuid) : (w.take yrs tab t turn).sentIn epoch id = w.sentIn epoch id ++
      if t.socket = some id ∧ w.admitted id = some epoch then turn.frames else [] := by
  rw [sentIn,sentIn,admitted_take]
  by_cases hadmitted : w.admitted id = some epoch
  · rw [if_pos hadmitted,if_pos hadmitted]
    have htransmit : (w.take yrs tab t turn).sentOf id = (w.transmit t turn.frames).sentOf id := rfl
    rw [htransmit,transmit]
    split
    · next x socket hsocket =>
      obtain ⟨hx,hget⟩ := socketOf_eq hsocket
      rw [sentOf_setSocket,Function.update_apply]
      by_cases hid : id = x
      · rw [if_pos hid,if_pos ⟨hid ▸ hx,hadmitted⟩,hid,sentOf_eq hget]
      · rw [if_neg hid,if_neg,List.append_nil]
        rintro ⟨hthis,-⟩
        exact hid (Option.some.inj (hthis.symm.trans hx))
    · next hsocket =>
      rw [if_neg,List.append_nil]
      rintro ⟨hthis,-⟩
      cases hget : w.sockets id with
      | none =>
        rw [admitted,hget] at hadmitted
        cases hadmitted
      | some socket =>
        rw [socketOf_some hthis hget] at hsocket
        cases hsocket
  · rw [if_neg hadmitted,if_neg hadmitted,if_neg (fun hboth => hadmitted hboth.2),List.append_nil]

end Tabs

namespace Watched

theorem Holds.bigint (h : w.Holds yrs key) {epoch : ℕ} (hadmitted : w.tabs.admitted id = some epoch) :
    epoch ≤ i64Max := by
  obtain ⟨socket,hget,hepoch⟩ := Option.bind_eq_some_iff.mp hadmitted
  exact (h.inside.sockets id socket hget).bigint epoch hepoch

theorem Holds.move (h : w.Holds yrs key) (hinside : w'.tabs.Inside yrs (fun _ => Set.univ) key)
    (htabs : w'.tabs.tabs = w.tabs.tabs) (hown : w'.own = w.own) (hsent : w'.tabs.sentIn = w.tabs.sentIn)
    (hadmitted : ∀ id, (w.tabs.admitted id).isSome = true → w'.tabs.admitted id = w.tabs.admitted id)
    (htraced : ∀ epoch, epoch ≤ i64Max → (w'.tabs.rooms epoch).Traced (w.tabs.sentIn epoch) ∧
      (w.tabs.rooms epoch).Settles yrs (Tabs.document key epoch) (w.tabs.sentIn epoch) w.ownBy (w'.tabs.rooms epoch))
    (hstored : ∀ epoch, epoch ≤ i64Max → stored yrs (Tabs.document key epoch) (w.tabs.rooms epoch).actor.database ⊆
      stored yrs (Tabs.document key epoch) (w'.tabs.rooms epoch).actor.database) : w'.Holds yrs key := by
  refine ⟨hinside,?_,?_,?_,?_⟩
  · intro epoch he
    rw [hsent]
    exact (htraced epoch he).1
  · rw [hsent]
    exact h.unique
  · intro tab t ht
    rw [htabs] at ht
    have hs := h.tabs tab t ht
    refine ⟨hown ▸ hs.owns,hsent ▸ hs.numbered,?_⟩
    intro hcurrent id epoch hid hepoch op hop
    rw [hown] at hop
    obtain ⟨socket,hget,-,hopen⟩ := (h.inside.tabs tab t ht).socket id hid
    have hsame : w.tabs.admitted id = some epoch := by
      rw [← hadmitted id (by rw [Tabs.admitted_eq hget]; exact hopen hcurrent.1)]
      exact hepoch
    have he := h.bigint hsame
    rcases hs.secured hcurrent id epoch hid hsame op hop with hin | ⟨n,bytes,hbytes,hops,hpending,hack⟩
    · exact Or.inl (hstored epoch he hin)
    · by_cases hack' : (w'.tabs.rooms epoch).Acked id n
      · rcases (htraced epoch he).2 id n hack' with hold | hsettled
        · exact absurd hold hack
        · exact Or.inl (hsettled bytes hbytes op hops ⟨tab,t,ht,hid,hop⟩)
      · exact Or.inr ⟨n,bytes,hsent ▸ hbytes,hops,hpending,hack'⟩
  · rw [htabs,hown]
    exact h.fresh

/-- A step of the rest of the system. -/
theorem Holds.aside (h : w.Holds yrs key) (hinside : w'.tabs.Inside yrs (fun _ => Set.univ) key)
    (hrooms : w'.tabs.rooms = w.tabs.rooms) (htabs : w'.tabs.tabs = w.tabs.tabs) (hown : w'.own = w.own)
    (hsent : w'.tabs.sentIn = w.tabs.sentIn)
    (hadmitted : ∀ id, (w.tabs.admitted id).isSome = true → w'.tabs.admitted id = w.tabs.admitted id) :
    w'.Holds yrs key := by
  refine h.move hinside htabs hown hsent hadmitted ?_ ?_
  · intro epoch he
    rw [hrooms]
    exact ⟨h.traced epoch he,fun id n hack => Or.inl hack⟩
  · intro epoch _
    rw [hrooms]

theorem Holds.setRoom (h : w.Holds yrs key) {epoch : ℕ} {s : Session β Op}
    (hinside : w'.tabs.Inside yrs (fun _ => Set.univ) key)
    (hrooms : w'.tabs.rooms = Function.update w.tabs.rooms epoch s)
    (htabs : w'.tabs.tabs = w.tabs.tabs) (hown : w'.own = w.own) (hsent : w'.tabs.sentIn = w.tabs.sentIn)
    (hadmitted : w'.tabs.admitted = w.tabs.admitted)
    (htraced : epoch ≤ i64Max → s.Traced (w.tabs.sentIn epoch) ∧
      (w.tabs.rooms epoch).Settles yrs (Tabs.document key epoch) (w.tabs.sentIn epoch) w.ownBy s)
    (hstored : epoch ≤ i64Max → stored yrs (Tabs.document key epoch) (w.tabs.rooms epoch).actor.database ⊆
      stored yrs (Tabs.document key epoch) s.actor.database) : w'.Holds yrs key := by
  refine h.move hinside htabs hown hsent (fun id _ => congrFun hadmitted id) ?_ ?_
  · intro e he
    rw [hrooms,Function.update_apply]
    split
    · next heq =>
      subst heq
      exact htraced he
    · exact ⟨h.traced e he,fun id n hack => Or.inl hack⟩
  · intro e he
    rw [hrooms,Function.update_apply]
    split
    · next heq =>
      subst heq
      exact hstored he
    · exact Set.Subset.refl _

/-- The acknowledgements on the way to a tab. -/
def AckedAt (w : Watched β Op) (t : Tab β Op) (n : ℕ) : Prop :=
  ∃ id epoch, t.socket = some id ∧ w.tabs.admitted id = some epoch ∧ (w.tabs.rooms epoch).Acked id n

theorem Holds.owed (h : w.Holds yrs key) (ht : w.tabs.tabs tab = some t)
    (hinside : w'.tabs.Inside yrs (fun _ => Set.univ) key) (hrooms : w'.tabs.rooms = w.tabs.rooms)
    (htabs : w'.tabs.tabs = Function.update w.tabs.tabs tab (some t')) (hsocket : t'.socket = t.socket)
    (hsession : t'.session = turn.session) (hown : w'.own = Function.update w.own tab own')
    (hadmitted : w'.tabs.admitted = w.tabs.admitted)
    (hsent : ∀ epoch id, w'.tabs.sentIn epoch id = w.tabs.sentIn epoch id ++
      if t.socket = some id ∧ w.tabs.admitted id = some epoch then turn.frames else [])
    (howed : turn.Owed yrs t.session (w.own tab) (w.AckedAt t) own') : w'.Holds yrs key := by
  have hs := h.tabs tab t ht
  have hget (x : ℕ) (u : Tab β Op) (hu : w'.tabs.tabs x = some u) :
      x = tab ∧ u = t' ∨ x ≠ tab ∧ w.tabs.tabs x = some u := by
    rw [htabs,Function.update_apply] at hu
    split at hu
    · next hx =>
      cases hu
      exact Or.inl ⟨hx,rfl⟩
    · next hx => exact Or.inr ⟨hx,hu⟩
  have hmore : ∀ epoch id, w.tabs.sentIn epoch id ⊆ w'.tabs.sentIn epoch id := by
    intro epoch id
    rw [hsent]
    exact List.subset_append_left ..
  -- An update that is new in the socket of the tab.
  have hnew : ∀ epoch id n bytes, .sourceUpdate n bytes ∈ w'.tabs.sentIn epoch id →
      .sourceUpdate n bytes ∈ w.tabs.sentIn epoch id ∨ t.socket = some id ∧ w.tabs.admitted id = some epoch ∧
        .sourceUpdate n bytes ∈ turn.frames := by
    intro epoch id n bytes hmem
    rw [hsent] at hmem
    rcases List.mem_append.mp hmem with hmem | hmem
    · exact Or.inl hmem
    · split at hmem
      · next hboth => exact Or.inr ⟨hboth.1,hboth.2,hmem⟩
      · cases hmem
  have hframes : ∀ n bytes, .sourceUpdate n bytes ∈ turn.frames →
      n = t.session.clientSequence + 1 ∧ turn.session.clientSequence = t.session.clientSequence + 1 ∧
        n ∈ turn.session.pending ∧ ∀ n' bytes', .sourceUpdate n' bytes' ∈ turn.frames → bytes = bytes' := by
    intro n bytes hmem
    cases howed.sends with
    | nothing hnone hsequence => exact absurd hmem (hnone n bytes)
    | update payload honly hsequence hpending =>
      rw [honly] at hmem ⊢
      cases List.mem_singleton.mp hmem
      refine ⟨rfl,hsequence,hpending,?_⟩
      intro n' bytes' hmem'
      cases List.mem_singleton.mp hmem'
      rfl
  have hsequence : t.session.clientSequence ≤ turn.session.clientSequence := by
    cases howed.sends with
    | nothing _ hsequence => omega
    | update _ _ hsequence _ => omega
  refine ⟨hinside,?_,?_,?_,?_⟩
  · intro epoch he
    rw [hrooms]
    exact (h.traced epoch he).mono (hmore epoch)
  · intro epoch id n bytes bytes' hmem hmem'
    rcases hnew epoch id n bytes hmem with hold | ⟨hid,-,hin⟩
    · rcases hnew epoch id n bytes' hmem' with hold' | ⟨hid,-,hin'⟩
      · exact h.unique epoch id n bytes bytes' hold hold'
      · have hle := hs.numbered id epoch n bytes hid hold
        have hlast := (hframes n bytes' hin').1
        omega
    · rcases hnew epoch id n bytes' hmem' with hold' | ⟨-,-,hin'⟩
      · have hle := hs.numbered id epoch n bytes' hid hold'
        have hlast := (hframes n bytes hin).1
        omega
      · exact (hframes n bytes hin).2.2.2 n bytes' hin'
  · intro x u hu
    rcases hget x u hu with ⟨rfl,rfl⟩ | ⟨hx,hold⟩
    · refine ⟨?_,?_,?_⟩
      · rw [hown,Function.update_self,hsession]
        exact howed.owns
      · intro id epoch n bytes hid hmem
        rw [hsession]
        rcases hnew epoch id n bytes hmem with hold | ⟨-,-,hin⟩
        · have hle := hs.numbered id epoch n bytes (hsocket ▸ hid) hold
          omega
        · obtain ⟨hn,hlast,-⟩ := hframes n bytes hin
          omega
      · intro hcurrent id epoch hid hepoch op hop
        rw [hsession] at hcurrent
        rw [hown,Function.update_self] at hop
        rw [hsocket] at hid
        rw [hadmitted] at hepoch
        rw [hrooms,hsession]
        rcases howed.covered hcurrent op hop with ⟨hwas,hop⟩ | ⟨payload,honly,hop⟩
        · rcases hs.secured hwas id epoch hid hepoch op hop with hin | ⟨n,bytes,hbytes,hops,hpending,hack⟩
          · exact Or.inl hin
          · rcases howed.pending hcurrent n hpending with hstays | ⟨id',epoch',hid',hepoch',hack'⟩
            · exact Or.inr ⟨n,bytes,hmore epoch id hbytes,hops,hstays,hack⟩
            · rw [hid,Option.some.injEq] at hid'
              subst hid'
              rw [hepoch,Option.some.injEq] at hepoch'
              subst hepoch'
              exact absurd hack' hack
        · have hin : .sourceUpdate (t.session.clientSequence + 1) payload ∈ turn.frames := by
            rw [honly]
            exact List.mem_singleton_self _
          refine Or.inr ⟨t.session.clientSequence + 1,payload,?_,hop,(hframes _ payload hin).2.2.1,?_⟩
          · rw [hsent,if_pos ⟨hid,hepoch⟩]
            exact List.mem_append_right _ hin
          · intro hack
            obtain ⟨bytes,hbytes⟩ := (h.traced epoch (h.bigint hepoch)).acked id _ hack
            have hle := hs.numbered id epoch _ bytes hid hbytes
            omega
    · have hu' := h.tabs x u hold
      have hother : ∀ epoch id, u.socket = some id → w'.tabs.sentIn epoch id = w.tabs.sentIn epoch id := by
        intro epoch id hid
        rw [hsent,if_neg,List.append_nil]
        rintro ⟨hthis,-⟩
        exact hx (h.inside.owned x u tab t id hold ht hid hthis)
      refine ⟨?_,?_,?_⟩
      · rw [hown,Function.update_of_ne hx]
        exact hu'.owns
      · intro id epoch n bytes hid hmem
        rw [hother epoch id hid] at hmem
        exact hu'.numbered id epoch n bytes hid hmem
      · intro hcurrent id epoch hid hepoch op hop
        rw [hown,Function.update_of_ne hx] at hop
        rw [hadmitted] at hepoch
        rw [hrooms,hother epoch id hid]
        exact hu'.secured hcurrent id epoch hid hepoch op hop
  · intro x hnone
    rw [htabs,Function.update_apply] at hnone
    split at hnone
    · cases hnone
    · next hx =>
      rw [hown,Function.update_of_ne hx]
      exact h.fresh x hnone

/-- A tab that is new, or that gets a new socket. -/
theorem Holds.place (h : w.Holds yrs key) (hinside : w'.tabs.Inside yrs (fun _ => Set.univ) key)
    (hrooms : w'.tabs.rooms = w.tabs.rooms) (htabs : w'.tabs.tabs = Function.update w.tabs.tabs tab (some t'))
    (hown : w'.own = w.own) (hsent : w'.tabs.sentIn = w.tabs.sentIn)
    (hadmitted : w'.tabs.admitted = w.tabs.admitted) (hsecured : w.Secured yrs key tab t') : w'.Holds yrs key := by
  have hsame : ∀ x u, w.Secured yrs key x u → w'.Secured yrs key x u := by
    intro x u hu
    refine ⟨hown ▸ hu.owns,hsent ▸ hu.numbered,?_⟩
    rw [hown,hsent,hadmitted,hrooms]
    exact hu.secured
  refine ⟨hinside,?_,?_,?_,?_⟩
  · intro epoch he
    rw [hrooms,hsent]
    exact h.traced epoch he
  · rw [hsent]
    exact h.unique
  · intro x u hu
    rw [htabs,Function.update_apply] at hu
    split at hu
    · next hx =>
      cases hu
      exact hx ▸ hsame tab t' hsecured
    · exact hsame x u (h.tabs x u hu)
  · intro x hnone
    rw [hown]
    rw [htabs,Function.update_apply] at hnone
    split at hnone
    · cases hnone
    · exact h.fresh x hnone

variable [DecidableEq Op]

theorem Holds.take (h : w.Holds yrs key) (ht : w.tabs.tabs tab = some t) {base : Tabs β Op}
    (hrooms : base.rooms = w.tabs.rooms) (htabs : base.tabs = w.tabs.tabs)
    (hadmitted : base.admitted = w.tabs.admitted) (hsent : base.sentIn = w.tabs.sentIn)
    (hinside : (base.take yrs tab t turn).Inside yrs (fun _ => Set.univ) key)
    (howed : turn.Owed yrs t.session (w.own tab) (w.AckedAt t) own') :
    Holds yrs key ⟨base.take yrs tab t turn,Function.update w.own tab own'⟩ := by
  obtain ⟨-,hrooms',-,htabs'⟩ := Tabs.take_rest base yrs tab t turn
  rw [htabs] at htabs'
  refine h.owed ht hinside (hrooms'.trans hrooms) htabs' rfl rfl rfl
    ((Tabs.admitted_take yrs tab t turn).trans hadmitted) ?_ howed
  intro epoch id
  change (base.take yrs tab t turn).sentIn epoch id = _
  rw [Tabs.sentIn_take,hsent,hadmitted]

theorem Holds.update (h : w.Holds yrs key) (ht : w.tabs.tabs tab = some t) {base : Tabs β Op}
    (hrooms : base.rooms = w.tabs.rooms) (htabs : base.tabs = w.tabs.tabs)
    (hadmitted : base.admitted = w.tabs.admitted) (hsent : base.sentIn = w.tabs.sentIn)
    (hinside : (base.take yrs tab t turn).Inside yrs (fun _ => Set.univ) key)
    (howed : turn.Owed yrs t.session (w.own tab) (w.AckedAt t) (w.own tab)) :
    Holds yrs key ⟨base.take yrs tab t turn,w.own⟩ := by
  have hall := h.take ht hrooms htabs hadmitted hsent hinside howed
  rwa [Function.update_eq_self] at hall

omit [DecidableEq Op] in
theorem Holds.create (h : w.Holds yrs key) (browser : ℕ) (requestedEditable : Bool)
    (hnone : w.tabs.tabs tab = none) (hinside : (w.tabs.setTab tab
      { browser := browser
        session := { requestedEditable := requestedEditable } }).Inside yrs (fun _ => Set.univ) key) :
    Holds yrs key ⟨w.tabs.setTab tab
      { browser := browser
        session := { requestedEditable := requestedEditable } },w.own⟩ := by
  have hown : w.own tab = ∅ := h.fresh tab hnone
  refine h.place hinside rfl rfl rfl rfl rfl ⟨⟨?_,?_,?_,?_,?_,?_⟩,?_,?_⟩
  · intro hopen
    cases hopen
  · intro hconnecting
    cases hconnecting
  · exact fun _ _ => ⟨hown,rfl,rfl⟩
  · exact fun _ _ => ⟨hown,rfl⟩
  · intro doc hdoc
    cases hdoc
  · intro doc hdoc
    cases hdoc
  · intro id epoch n bytes hid
    cases hid
  · intro _ id epoch hid
    cases hid

omit [DecidableEq Op] in
theorem Holds.connect (h : w.Holds yrs key) (ht : w.tabs.tabs tab = some t) (hfree : w.tabs.sockets id = none)
    (hinside : ((w.tabs.setSocket id {}).setTab tab { t with
      session := t.session.connect
      socket := some id }).Inside yrs (fun _ => Set.univ) key) :
    Holds yrs key ⟨(w.tabs.setSocket id {}).setTab tab { t with
      session := t.session.connect
      socket := some id },w.own⟩ := by
  have hs := h.tabs tab t ht
  have hnone : w.tabs.admitted id = none := by
    rw [Tabs.admitted,hfree]
    rfl
  have hnothing : w.tabs.sentOf id = [] := by
    rw [Tabs.sentOf,hfree]
    rfl
  have hadmitted : (w.tabs.setSocket id {}).admitted = w.tabs.admitted := by
    rw [Tabs.admitted_setSocket,← hnone,Function.update_eq_self]
  have hsent : (w.tabs.setSocket id {}).sentIn = w.tabs.sentIn := by
    refine Tabs.sentIn_congr hadmitted ?_
    rw [Tabs.sentOf_setSocket,← hnothing,Function.update_eq_self]
  refine h.place hinside rfl rfl rfl hsent hadmitted ⟨⟨?_,?_,hs.owns.unloaded,hs.owns.loading,hs.owns.doc,
    hs.owns.mounted⟩,?_,?_⟩
  · intro hopen
    cases hopen
  · exact fun _ => rfl
  · intro x epoch n bytes hx hmem
    cases hx
    rw [Tabs.sentIn,hnothing,ite_self] at hmem
    cases hmem
  · rintro ⟨hopen,-⟩
    cases hopen

omit [DecidableEq Op] in
theorem Holds.received (h : w.Holds yrs key) (ht : w.tabs.tabs tab = some t) (hopen : t.session.isOpen = true)
    {socket : Socket β} (hsocket : w.tabs.socketOf t = some (id,socket)) {epoch : ℕ}
    (hepoch : socket.epoch = some epoch) {frame : Frame β}
    (hframe : ((w.tabs.rooms epoch).framesOf id)[socket.received.length]? = some frame) :
    t.session.Linked socket ∧ t.session.destroyed = false ∧ ∃ c, (w.tabs.rooms epoch).connections.get? id = some c ∧
      Greeted epoch c.frames ∧ c.frames[socket.received.length]? = some frame ∧
      (∀ bytes, frame.payload? = some bytes → ∃ update, yrs.decodeV1 bytes = .ok update) ∧
      ∀ n durableSeq, frame = .control (.durableAck n durableSeq) → w.AckedAt t n := by
  obtain ⟨hid,hget⟩ := Tabs.socketOf_eq hsocket
  have hp := h.inside.tabs tab t ht
  have hdestroyed := hp.alive hopen
  obtain ⟨socket',hget',hlinked,-⟩ := hp.socket id hid
  obtain rfl : socket = socket' := Option.some.inj (hget.symm.trans hget')
  have hroom := h.inside.rooms epoch ((h.inside.sockets id socket hget).bigint epoch hepoch)
  cases hconn : (w.tabs.rooms epoch).connections.get? id with
  | none =>
    rw [Session.framesOf,hconn] at hframe
    cases hframe
  | some c =>
    rw [Session.framesOf,hconn] at hframe
    have hc := hroom.connection id c hconn
    refine ⟨hlinked hdestroyed,hdestroyed,c,rfl,hc.greeted,hframe,?_,?_⟩
    · intro bytes hbytes
      obtain ⟨update,hdec,-⟩ := hc.frames frame (List.mem_of_getElem? hframe) bytes hbytes
      exact ⟨update,hdec⟩
    · rintro n durableSeq rfl
      exact ⟨id,epoch,hid,(Tabs.admitted_eq hget).trans hepoch,c,hconn,durableSeq,
        Or.inr (List.mem_of_getElem? hframe)⟩

end Watched
end LatexCore.Collaboration
