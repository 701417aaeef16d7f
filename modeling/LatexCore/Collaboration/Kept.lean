import LatexCore.Collaboration.InStep

/-! # Steps of tabs in step

Every step of the tabs keeps them in step with their sockets and inside their
epochs, an edit as long as it belongs to the socket that it goes out on.
-/
namespace LatexCore.Collaboration
open Core Foundation
variable {β Op : Type}

namespace Tabs
variable {yrs : Yrs β Op} {H : ℕ → Set Op} {key : RoomKey} {w w' : Tabs β Op} {tab : ℕ} {t t' : Tab β Op}
  {id : Uuid} {socket socket' : Socket β} {turn : Turn β Op (Finset Op)} [DecidableEq Op]

/-! ## Steps -/

omit [DecidableEq Op] in
theorem Inside.create (h : w.Inside yrs H key) (tab browser : ℕ) (requestedEditable : Bool) :
    (w.setTab tab
      { browser := browser
        session := { requestedEditable := requestedEditable } }).Inside yrs H key := by
  have hget (x : ℕ) (u : Tab β Op) (hu : (w.setTab tab
      { browser := browser
        session := { requestedEditable := requestedEditable } }).tabs x = some u) :
      u.socket = none ∧ u.session = { requestedEditable := requestedEditable } ∨ w.tabs x = some u := by
    change Function.update w.tabs tab _ x = some u at hu
    rw [Function.update_apply] at hu
    split at hu
    · cases hu
      exact Or.inl ⟨rfl,rfl⟩
    · exact Or.inr hu
  refine ⟨h.bigint,h.rooms,h.sockets,?_,?_,h.persisted⟩
  · intro x u hu
    rcases hget x u hu with ⟨hnone,hsession⟩ | hold
    · refine ⟨?_,?_,?_,?_⟩
      · rw [hsession]
        exact ⟨fun _ hdoc => (by cases hdoc),fun _ hbytes => (by cases hbytes),fun _ hbytes => (by cases hbytes)⟩
      · intro id hid
        rw [hnone] at hid
        cases hid
      · intro _
        rw [hsession]
        rfl
      · intro hdestroyed
        rw [hsession] at hdestroyed
        cases hdestroyed
    · have hp := h.tabs x u hold
      exact ⟨hp.inside,hp.socket,hp.absent,hp.gone⟩
  · intro x u x' u' id hu hu' hid hid'
    rcases hget x u hu with ⟨hnone,-⟩ | hold
    · rw [hnone] at hid
      cases hid
    · rcases hget x' u' hu' with ⟨hnone,-⟩ | hold'
      · rw [hnone] at hid'
        cases hid'
      · exact h.owned x u x' u' id hold hold' hid hid'

theorem Inside.halt (h : w.Inside yrs H key) (ht : w.tabs tab = some t) {s : CollaborationSession β Op (Finset Op)}
    (hinside : s.Inside yrs H) (hgone : s.destroyed = true → s.socket = none) (hclosed : s.isOpen = false)
    (hlinked : ∀ socket : Socket β, (t.session.destroyed = false → t.session.Linked socket) →
      s.destroyed = false → s.Linked socket) : (w.update yrs tab t s).Inside yrs H key := by
  refine h.takes ht hinside hgone (fun _ => hclosed) ?_
  intro id socket hid hget
  obtain ⟨socket',hget',hold,-⟩ := (h.tabs tab t ht).socket id hid
  obtain rfl : socket = socket' := Option.some.inj (hget.symm.trans hget')
  refine ⟨hlinked socket hold,?_,?_,fun _ => rfl⟩
  · intro hopen
    rw [show s.quiet.session.isOpen = false from hclosed] at hopen
    cases hopen
  · intro _ _
    rw [show s.quiet.frames = [] from rfl,updateOps_nil]
    exact Set.empty_subset _

theorem Inside.opened (h : w.Inside yrs H key) (ht : w.tabs tab = some t)
    (hconnecting : t.session.socket = some .connecting)
    (haccess : ((w.socketOf t).bind (fun s => s.2.epoch)).isSome = true) :
    (w.update yrs tab t t.session.handleOpen).Inside yrs H key := by
  have hp := h.tabs tab t ht
  obtain ⟨epoch,hepoch⟩ := Option.isSome_iff_exists.mp haccess
  obtain ⟨⟨id,socket⟩,hsocket,hepoch⟩ := Option.bind_eq_some_iff.mp hepoch
  obtain ⟨hid,hget⟩ := socketOf_eq hsocket
  have hdestroyed : t.session.destroyed = false := by
    cases hd : t.session.destroyed with
    | false => rfl
    | true =>
      rw [hp.gone hd] at hconnecting
      cases hconnecting
  refine h.takes ht ⟨hp.inside.doc,hp.inside.buffered,hp.inside.initial⟩ ?_ ?_ ?_
  · intro hd
    rw [show t.session.handleOpen.quiet.session.destroyed = t.session.destroyed from rfl,hdestroyed] at hd
    cases hd
  · intro hnone
    rw [hid] at hnone
    cases hnone
  · intro id' socket' hid' hget'
    obtain rfl : id = id' := Option.some.inj (hid.symm.trans hid')
    obtain rfl : socket = socket' := Option.some.inj (hget.symm.trans hget')
    obtain ⟨socket',hget',hlinked,-⟩ := hp.socket id hid
    obtain rfl : socket = socket' := Option.some.inj (hget.symm.trans hget')
    have hl := hlinked hdestroyed
    refine ⟨fun _ => ⟨hl.epoch,hl.metadata,hl.initial⟩,fun _ => by rw [hepoch]; rfl,?_,fun _ => rfl⟩
    intro _ _
    rw [show t.session.handleOpen.quiet.frames = [] from rfl,updateOps_nil]
    exact Set.empty_subset _

omit [DecidableEq Op] in
theorem epochOf_eq (hid : t.socket = some id) (hget : w.sockets id = some socket) {epoch : ℕ}
    (hepoch : socket.epoch = some epoch) : w.epochOf t = epoch := by
  rw [epochOf,socketOf_some hid hget,Option.bind_some,hepoch]
  rfl

theorem edit_frames {s : CollaborationSession β Op (Finset Op)} {ops : Finset Op} {K : Set Op}
    (hops : s.isOpen = true → s.mounted = true → s.editable = true → s.access = true → ↑ops ⊆ K) :
    updateOps yrs (s.edit yrs ops).frames ⊆ K := by
  have hquiet : ∀ s' : CollaborationSession β Op (Finset Op), updateOps yrs s'.quiet.frames ⊆ K := by
    intro s'
    rw [show s'.quiet.frames = [] from rfl,updateOps_nil]
    exact Set.empty_subset _
  unfold CollaborationSession.edit
  split
  · split
    · next hmounted =>
      obtain ⟨hmounted,heditable⟩ := Bool.and_eq_true_iff.mp hmounted
      dsimp only
      split
      · next hconnected =>
        have haccess := (Bool.and_eq_true_iff.mp hconnected).2
        unfold CollaborationSession.sendUpdate
        split
        · next hopen =>
          rw [updateOps_singleton]
          dsimp only
          rw [mem_ops (yrs.decode_encode ops)]
          exact hops hopen hmounted heditable haccess
        · exact hquiet _
      · exact hquiet _
    · exact hquiet s
  · exact hquiet s

variable [DecidableEq β]

theorem Inside.step (h : w.Inside yrs H key) {created : Op → Option ℕ}
    (hcreated : ∀ op epoch, created op = some epoch → op ∈ H epoch) (label : TabsLabel β Op)
    (hkept : w.Kept H created label) : (w.step key yrs created label).Inside yrs H key := by
  have hwith : ∀ (tab : ℕ) (f : Tab β Op → Tabs β Op), (∀ t, w.tabs tab = some t → (f t).Inside yrs H key) →
      (w.withTab tab f).Inside yrs H key := by
    intro tab f hf
    unfold Tabs.withTab
    split
    · next t ht => exact hf t ht
    · exact h
  cases label with
  | create tab browser requestedEditable =>
    simp only [Tabs.step]
    split
    · exact h
    · exact h.create tab browser requestedEditable
  | connect tab id =>
    refine hwith tab _ (fun t ht => ?_)
    split
    · exact h
    · next hstops =>
      simp only [Bool.or_eq_true,not_or,Bool.not_eq_true,Option.isSome_eq_false_iff,Option.isNone_iff_eq_none]
        at hstops
      exact h.connect ht hstops.2 hstops.1.1
  | access id =>
    simp only [Tabs.step]
    split
    · next socket hget =>
      split
      · exact h
      · next hnone => exact h.access hget (Option.not_isSome_iff_eq_none.mp hnone)
    · exact h
  | seat id readWrite =>
    simp only [Tabs.step]
    split
    · next epoch _ => exact h.setRoom epoch (fun he => (h.rooms epoch he).enter id readWrite)
    · exact h
  | opened tab =>
    refine hwith tab _ (fun t ht => ?_)
    split
    · next hboth =>
      obtain ⟨hconnecting,haccess⟩ := Bool.and_eq_true_iff.mp hboth
      exact h.opened ht (beq_iff_eq.mp hconnecting) haccess
    · exact h
  | closed tab =>
    refine hwith tab _ (fun t ht => ?_)
    split
    · next hsocket =>
      have hp := h.tabs tab t ht
      refine h.halt ht ⟨hp.inside.doc,hp.inside.buffered,hp.inside.initial⟩ ?_ rfl ?_
      · intro hd
        rw [hp.gone hd] at hsocket
        cases hsocket
      · intro socket hold hd
        have hl := hold hd
        exact ⟨hl.epoch,hl.metadata,hl.initial⟩
    · exact h
  | message tab =>
    refine hwith tab _ (fun t ht => ?_)
    split
    · next hopen => exact h.message ht hopen
    · exact h
  | synced tab restored =>
    refine hwith tab _ (fun t ht => ?_)
    split
    · next hrestored =>
      have hp := h.tabs tab t ht
      have hin : ∀ epoch, t.session.documentEpoch = some epoch → ↑restored ⊆ H epoch := by
        intro epoch he
        rw [he] at hrestored
        exact (Finset.coe_subset.mpr hrestored).trans (h.persisted t.browser epoch)
      have hk := Turn.Keeps.synced hp.inside hin
      refine h.keeps ht hk ?_
      intro hopen id socket epoch hid hget hepoch
      cases hinitial : t.session.initialState with
      | none =>
        rw [synced_frames hinitial,updateOps_nil]
        exact Set.empty_subset _
      | some bytes =>
        have hlinked := h.linked_epoch ht hopen (by rw [hinitial]; rfl) hid hget
        rcases hk.frames with hnone | ⟨e,he,hsub⟩
        · rw [hnone]
          exact Set.empty_subset _
        · rw [hlinked,hepoch,Option.some.injEq] at he
          subst he
          exact hsub
    · exact h
  | persist tab =>
    refine hwith tab _ (fun t ht => ?_)
    split
    · next epoch doc hepoch hdoc =>
      have hp := h.tabs tab t ht
      obtain ⟨e,he,hsub⟩ := hp.inside.doc doc hdoc
      rw [hepoch,Option.some.injEq] at he
      subst he
      refine ⟨h.bigint,h.rooms,h.sockets,?_,h.owned,?_⟩
      · intro x u hu
        have hpu := h.tabs x u hu
        exact ⟨hpu.inside,hpu.socket,hpu.absent,hpu.gone⟩
      · intro browser e
        change (↑(Function.update w.persisted t.browser _ browser e) : Set Op) ⊆ H e
        rw [Function.update_apply]
        split
        · next hb =>
          rw [Function.update_apply]
          split
          · next hx =>
            subst hx
            rw [Finset.coe_union]
            exact Set.union_subset (h.persisted t.browser e) hsub
          · exact h.persisted t.browser e
        · exact h.persisted browser e
    · exact h
  | edit tab ops =>
    refine hwith tab _ (fun t ht => ?_)
    split
    · next hthere =>
      have hp := h.tabs tab t ht
      have hin : ∀ epoch, t.session.documentEpoch = some epoch → ↑ops ⊆ H epoch := by
        intro epoch he op hop
        exact hcreated op epoch ((hthere op hop).trans he)
      refine h.keeps ht (.edit hp.inside hin) ?_
      intro _ id socket epoch hid hget hepoch
      refine edit_frames (fun hopen hmounted heditable haccess => ?_)
      have hall := hkept t ht hthere hopen hmounted heditable haccess
      rwa [epochOf_eq hid hget hepoch] at hall
    · exact h
  | flush tab =>
    refine hwith tab _ (fun t ht => h.keeps ht (.flush (h.tabs tab t ht).inside t.sentOps) ?_)
    intro _ id socket epoch _ _ _
    unfold CollaborationSession.flush
    split
    · rw [updateOps_nil]
      exact Set.empty_subset _
    · split
      · rw [show t.session.quiet.frames = [] from rfl,updateOps_nil]
        exact Set.empty_subset _
      · rw [updateOps_singleton]
        exact Set.empty_subset _
  | timeOut tab index =>
    refine hwith tab _ (fun t ht => ?_)
    have hin := (h.tabs tab t ht).inside
    refine h.keeps ht (.quietly ⟨hin.doc,hin.buffered,hin.initial⟩ rfl rfl rfl rfl rfl) ?_
    intro _ _ _ _ _ _ _
    rw [show (t.session.timeOut index).quiet.frames = [] from rfl,updateOps_nil]
    exact Set.empty_subset _
  | leave tab =>
    refine hwith tab _ (fun t ht => ?_)
    refine h.halt ht (h.tabs tab t ht).inside.destroy (fun _ => rfl) rfl ?_
    intro socket _ hd
    cases hd
  | deliver id user authorized sends => exact h.deliver id user authorized sends
  | room epoch label => exact h.setRoom epoch (fun he => (h.rooms epoch he).roomStep label)
  | restore =>
    simp only [Tabs.step]
    split
    · next hlt =>
      refine ⟨hlt,h.rooms,h.sockets,?_,h.owned,h.persisted⟩
      intro x u hu
      have hp := h.tabs x u hu
      exact ⟨hp.inside,hp.socket,hp.absent,hp.gone⟩
    · exact h

omit [DecidableEq β] [DecidableEq Op] in
theorem Inside.start {actors : ℕ → Actor β Op} {documentEpoch : ℕ} {persisted : ℕ → ℕ → Finset Op}
    (hbigint : documentEpoch ≤ i64Max)
    (hactors : ∀ epoch, epoch ≤ i64Max → (actors epoch).Sound yrs (document key epoch) ∧
      ↑(actors epoch).room.doc ⊆ H epoch)
    (hpersisted : ∀ browser epoch, ↑(persisted browser epoch) ⊆ H epoch) :
    (Tabs.start actors documentEpoch persisted).Inside yrs H key := by
  refine ⟨hbigint,fun epoch he => .start (hactors epoch he).1 (hactors epoch he).2,?_,?_,?_,hpersisted⟩
  · intro id socket hget
    cases hget
  · intro tab t ht
    cases ht
  · intro tab t tab' t' id ht
    cases ht

end Tabs
end LatexCore.Collaboration
