import LatexCore.Collaboration.Barrier
import LatexCore.Collaboration.Secured

/-! # Saved means durable

Two steps leave an own operation behind: the persistence that is ready between a
reconnection and its initial state, after which neither the handler of updates nor
the editor is mounted, and an update that only repeats what a batch still holds,
which the room acknowledges at once. In the runs without them a session that shows
`synced` has all of its own operations stored.
-/
namespace LatexCore.Collaboration
open Core Foundation
variable {β Op : Type}

namespace Watched

/-- The persistence is ready when there is an initial state to go on from, and the room takes no update
that only repeats what it has, with own operations of the sender that are not stored. -/
def Steady (yrs : Yrs β Op) (key : RoomKey) (w : Watched β Op) : TabsLabel β Op → Prop
  | .synced tab _ => ∀ t, w.tabs.tabs tab = some t → t.session.doc.isSome = true →
    t.session.initializing = true → t.session.initialState.isSome = true
  | .room epoch (.act _ _) => ¬(w.tabs.rooms epoch).Repeats yrs (Tabs.document key epoch) w.ownBy
  | _ => True

variable {yrs : Yrs β Op} {key : RoomKey} {w : Watched β Op} {tab : ℕ} {t : Tab β Op}
  {created : Op → Option ℕ} [DecidableEq β] [DecidableEq Op]

theorem Holds.tabsInside (h : w.Holds yrs key) (label : TabsLabel β Op) :
    (w.tabs.step key yrs created label).Inside yrs (fun _ => Set.univ) key := by
  refine h.inside.step (fun _ _ _ => Set.mem_univ _) label ?_
  cases label with
  | edit tab ops => exact fun _ _ _ _ _ _ _ => Set.subset_univ _
  | _ => trivial

/-- Every steady step keeps the own operations stored or on their way. -/
theorem Holds.step (h : w.Holds yrs key) (label : TabsLabel β Op) (hsteady : w.Steady yrs key label) :
    (w.step yrs key created label).Holds yrs key := by
  have hinside : (w.tabs.step key yrs created label).Inside yrs (fun _ => Set.univ) key := h.tabsInside label
  unfold Watched.step
  have hwith : ∀ (tab : ℕ) (f : Tab β Op → Tabs β Op) (own : ℕ → Finset Op),
      (w.tabs.withTab tab f).Inside yrs (fun _ => Set.univ) key → (w.tabs.tabs tab = none → own = w.own) →
      (∀ t, w.tabs.tabs tab = some t → (f t).Inside yrs (fun _ => Set.univ) key → Holds yrs key ⟨f t,own⟩) →
        Holds yrs key ⟨w.tabs.withTab tab f,own⟩ := by
    intro tab f own hin hnone hf
    unfold Tabs.withTab at hin ⊢
    cases ht : w.tabs.tabs tab with
    | none =>
      rw [hnone ht]
      exact h
    | some t =>
      rw [ht] at hin
      exact hf t ht hin
  cases label with
  | create tab browser requestedEditable =>
    simp only [Tabs.step,ownAfter] at hinside ⊢
    split
    · exact h
    · next hno =>
      rw [if_neg hno] at hinside
      exact h.create browser requestedEditable (Option.not_isSome_iff_eq_none.mp hno) hinside
  | connect tab id =>
    simp only [Tabs.step,ownAfter] at hinside ⊢
    refine hwith tab _ _ hinside (fun _ => rfl) (fun t ht hinside => ?_)
    split
    · exact h
    · next hstops =>
      rw [if_neg hstops] at hinside
      simp only [Bool.or_eq_true,not_or,Bool.not_eq_true,Option.isSome_eq_false_iff,Option.isNone_iff_eq_none]
        at hstops
      exact h.connect ht hstops.2 hinside
  | access id =>
    simp only [Tabs.step,ownAfter] at hinside ⊢
    cases hget : w.tabs.sockets id with
    | none => exact h
    | some socket =>
      rw [hget] at hinside
      dsimp only at hinside ⊢
      split
      · exact h
      · next hno =>
        rw [if_neg hno] at hinside
        have hunused := (h.inside.sockets id socket hget).unused (Option.not_isSome_iff_eq_none.mp hno)
        refine h.aside hinside rfl rfl rfl ?_ ?_
        · funext epoch x
          rw [Tabs.sentIn,Tabs.sentIn,Tabs.sentOf_setSocket,Tabs.admitted_setSocket,Function.update_apply,
            Function.update_apply]
          by_cases hx : x = id
          · subst hx
            rw [if_pos rfl,if_pos rfl,Tabs.sentOf_eq hget,hunused.1,ite_self,ite_self]
          · rw [if_neg hx,if_neg hx]
        · intro x hsome
          rw [Tabs.admitted_setSocket,Function.update_of_ne]
          rintro rfl
          rw [Tabs.admitted_eq hget] at hsome
          exact hno hsome
  | seat id readWrite =>
    simp only [Tabs.step,ownAfter] at hinside ⊢
    cases hepoch : (w.tabs.sockets id).bind Socket.epoch with
    | none => exact h
    | some epoch =>
      rw [hepoch] at hinside
      refine h.setRoom hinside rfl rfl rfl rfl rfl (fun he => (h.traced epoch he).enter id readWrite) (fun _ => ?_)
      rw [Session.enter_actor]
  | opened tab =>
    simp only [Tabs.step,ownAfter] at hinside ⊢
    refine hwith tab _ _ hinside (fun _ => rfl) (fun t ht hinside => ?_)
    have ho := (h.tabs tab t ht).owns
    split
    · next hboth =>
      rw [if_pos hboth] at hinside
      have hconnecting := beq_iff_eq.mp (Bool.and_eq_true_iff.mp hboth).1
      refine h.update ht rfl rfl rfl rfl hinside (.waiting ⟨fun _ => rfl,?_,ho.unloaded,ho.loading,ho.doc,ho.mounted⟩
        rfl (ho.connecting hconnecting))
      intro hnot
      cases hnot
    · exact h
  | closed tab =>
    simp only [Tabs.step,ownAfter] at hinside ⊢
    refine hwith tab _ _ hinside (fun _ => rfl) (fun t ht hinside => ?_)
    have ho := (h.tabs tab t ht).owns
    split
    · next hsocket =>
      rw [if_pos hsocket] at hinside
      refine h.update ht rfl rfl rfl rfl hinside (.apart ⟨?_,?_,ho.unloaded,ho.loading,ho.doc,ho.mounted⟩ rfl ?_)
      · intro hopen
        cases hopen
      · intro hnot
        cases hnot
      · rintro ⟨hopen,-⟩
        cases hopen
    · exact h
  | message tab =>
    simp only [Tabs.step,ownAfter] at hinside ⊢
    refine hwith tab _ _ hinside (fun _ => rfl) (fun t ht hinside => ?_)
    split
    · next hopen =>
      rw [if_pos hopen] at hinside
      unfold Tabs.message at hinside ⊢
      cases hsocket : w.tabs.socketOf t with
      | none => exact h
      | some pair =>
        obtain ⟨id,socket⟩ := pair
        rw [hsocket] at hinside
        dsimp only at hinside ⊢
        split
        · next frame hnext =>
          rw [hnext] at hinside
          obtain ⟨epoch,hepoch,hframe⟩ := Option.bind_eq_some_iff.mp hnext
          obtain ⟨hlinked,hdestroyed,c,-,hgreeted,hin,hreadable,hacked⟩ := h.received ht hopen hsocket hepoch hframe
          have hget := (Tabs.socketOf_eq hsocket).2
          exact h.update ht rfl rfl (Tabs.admitted_same hget rfl) (Tabs.sentIn_same hget rfl rfl) hinside
            (.receive (h.tabs tab t ht).owns hlinked hopen hdestroyed hgreeted hin hreadable hacked)
        · exact h
    · exact h
  | synced tab restored =>
    simp only [Tabs.step,ownAfter] at hinside ⊢
    refine hwith tab _ _ hinside (fun hnone => by rw [hnone]) (fun t ht hinside => ?_)
    rw [ht]
    have hp := h.inside.tabs tab t ht
    dsimp only
    split
    · next hrestored =>
      rw [if_pos hrestored] at hinside
      have hreadable : ∀ bytes, t.session.initialState = some bytes → ∃ update, yrs.decodeV1 bytes = .ok update := by
        intro bytes hbytes
        obtain ⟨-,-,update,hdec,-⟩ := hp.inside.initial bytes hbytes
        exact ⟨update,hdec⟩
      have hbuffered : ∀ bytes ∈ t.session.bufferedRemote, ∃ update, yrs.decodeV1 bytes = .ok update := by
        intro bytes hbytes
        obtain ⟨-,-,update,hdec,-⟩ := hp.inside.buffered bytes hbytes
        exact ⟨update,hdec⟩
      have howed : Turn.Owed yrs t.session (w.own tab) (w.AckedAt t) _ _ :=
        .synced (h.tabs tab t ht).owns hp.gone restored hreadable hbuffered (hsteady t ht)
      cases hloads : t.session.initializing && t.session.doc.isSome with
      | true =>
        rw [hloads,if_pos rfl] at howed
        rw [if_pos ⟨hrestored,rfl⟩]
        exact h.take ht rfl rfl rfl rfl hinside howed
      | false =>
        rw [hloads,if_neg Bool.false_ne_true] at howed
        rw [if_neg (fun hboth => Bool.false_ne_true hboth.2)]
        exact h.update ht rfl rfl rfl rfl hinside howed
    · next hno =>
      rw [if_neg (fun hboth => hno hboth.1)]
      exact h
  | persist tab =>
    simp only [Tabs.step,ownAfter] at hinside ⊢
    refine hwith tab _ _ hinside (fun _ => rfl) (fun t ht hinside => ?_)
    split
    · next hepoch hdoc =>
      rw [hepoch,hdoc] at hinside
      exact h.aside hinside rfl rfl rfl rfl (fun _ _ => rfl)
    · exact h
  | edit tab ops =>
    simp only [Tabs.step,ownAfter] at hinside ⊢
    refine hwith tab _ _ hinside (fun hnone => by rw [hnone]) (fun t ht hinside => ?_)
    rw [ht]
    dsimp only
    split
    · next hthere =>
      rw [if_pos hthere] at hinside
      have howed : Turn.Owed yrs t.session (w.own tab) (w.AckedAt t) _ _ := .edit (h.tabs tab t ht).owns ops
      cases hedits : t.session.doc.isSome && t.session.mounted && t.session.editable with
      | true =>
        rw [hedits,if_pos rfl] at howed
        rw [if_pos ⟨hthere,rfl⟩]
        exact h.take ht rfl rfl rfl rfl hinside howed
      | false =>
        rw [hedits,if_neg Bool.false_ne_true] at howed
        rw [if_neg (fun hboth => Bool.false_ne_true hboth.2)]
        exact h.update ht rfl rfl rfl rfl hinside howed
    · next hno =>
      rw [if_neg (fun hboth => hno hboth.1)]
      exact h
  | flush tab =>
    simp only [Tabs.step,ownAfter] at hinside ⊢
    refine hwith tab _ _ hinside (fun _ => rfl) (fun t ht hinside => ?_)
    exact h.update ht rfl rfl rfl rfl hinside (.flush (h.tabs tab t ht).owns t.sentOps)
  | timeOut tab index =>
    simp only [Tabs.step,ownAfter] at hinside ⊢
    refine hwith tab _ _ hinside (fun _ => rfl) (fun t ht hinside => ?_)
    exact h.update ht rfl rfl rfl rfl hinside (.quiet ((h.tabs tab t ht).owns.of_same rfl rfl rfl rfl rfl rfl rfl) rfl
      id (fun _ n hn => Or.inl hn))
  | leave tab =>
    simp only [Tabs.step,ownAfter] at hinside ⊢
    refine hwith tab _ _ hinside (fun _ => rfl) (fun t ht hinside => ?_)
    exact h.update ht rfl rfl rfl rfl hinside .destroy
  | deliver id user authorized sends =>
    simp only [Tabs.step,ownAfter] at hinside ⊢
    unfold Tabs.deliver at hinside ⊢
    cases hget : w.tabs.sockets id with
    | none => exact h
    | some socket =>
      rw [hget] at hinside
      dsimp only at hinside ⊢
      split
      · next epoch frame hepoch hframe =>
        rw [hepoch,hframe] at hinside
        dsimp only at hinside
        split
        · next hserves =>
          rw [if_pos hserves,← hepoch] at hinside
          have hsentIn : frame ∈ w.tabs.sentIn epoch id := by
            rw [Tabs.sentIn,Tabs.admitted_eq hget,if_pos hepoch,Tabs.sentOf_eq hget]
            exact List.mem_of_getElem? hframe
          refine h.setRoom hinside rfl rfl rfl (Tabs.sentIn_same hget rfl rfl) (Tabs.admitted_same hget rfl)
            (fun he => (h.traced epoch he).incoming id user hsentIn _ sends) (fun _ => ?_)
          rw [Session.incoming_actor]
        · exact h
      · exact h
  | room epoch label =>
    simp only [Tabs.step,ownAfter] at hinside ⊢
    refine h.setRoom hinside rfl rfl rfl rfl rfl (fun he => ?_) (fun he => ?_)
    · refine (h.traced epoch he).roomStep (h.inside.rooms epoch he).sound (h.unique epoch) label ?_
      rintro o sends rfl
      exact hsteady
    · exact Session.roomStep_stored (h.inside.rooms epoch he).sound label
  | restore =>
    simp only [Tabs.step,ownAfter] at hinside ⊢
    split
    · next hlt =>
      rw [if_pos hlt] at hinside
      exact h.aside hinside rfl rfl rfl rfl (fun _ _ => rfl)
    · exact h

/-! ## What the Writer sees -/

section Saves
variable {s : CollaborationSession β Op (Finset Op)}

omit [DecidableEq β] [DecidableEq Op] in
theorem publishSaves_synced (h : .synced ∈ s.publishSaves) : s.access = false := by
  unfold CollaborationSession.publishSaves CollaborationSession.sendSaves at h
  cases haccess : s.access with
  | false => rfl
  | true =>
    rw [haccess,if_pos rfl] at h
    split at h
    · cases List.mem_singleton.mp h
    · cases List.mem_singleton.mp h

omit [DecidableEq β] in
theorem mergeSaves_synced (h : .synced ∈ s.mergeSaves yrs) : s.access = false := by
  unfold CollaborationSession.mergeSaves at h
  split at h
  · split at h
    · cases h
    · split at h
      · cases h
      · split at h
        · cases h
        · exact publishSaves_synced h
  · cases h

omit [DecidableEq β] in
theorem syncedSaves_synced {restored : Finset Op} (h : .synced ∈ s.syncedSaves yrs restored) :
    s.access = false := by
  unfold CollaborationSession.syncedSaves at h
  split at h
  · cases h
  · split at h
    · split at h
      · cases h
      · exact publishSaves_synced h
    · cases h

omit [DecidableEq β] [DecidableEq Op] in
theorem publish_access (doc : Finset Op) : (s.publish yrs doc).session.access = s.access := by
  unfold CollaborationSession.publish CollaborationSession.sendUpdate
  split
  · split <;> rfl
  · rfl

omit [DecidableEq β] in
theorem initializeOrMerge_access : (s.initializeOrMerge yrs).session.access = s.access := by
  unfold CollaborationSession.initializeOrMerge
  split
  · split
    · rfl
    · split
      · rfl
      · split
        · rfl
        · exact publish_access _
  · rfl

omit [DecidableEq β] in
theorem synced_access (restored : Finset Op) : (s.synced yrs restored).session.access = s.access := by
  unfold CollaborationSession.synced
  split
  · rfl
  · split
    · split
      · rfl
      · exact publish_access _
    · rfl
    · rfl

omit [DecidableEq β] [DecidableEq Op] in
theorem settledSaves_synced (h : .synced ∈ s.settledSaves) : s.pending = [] := by
  unfold CollaborationSession.settledSaves at h
  split at h
  · next hempty => exact List.isEmpty_iff.mp hempty
  · cases h

omit [DecidableEq β] in
/-- A message shows `synced` behind the greeting only, and with nothing pending. -/
theorem receiveSaves_synced {frame : Frame β} (h : .synced ∈ s.receiveSaves yrs frame)
    (haccess : (s.receive yrs frame).session.access = true) :
    frame.isGreeting = false ∧ (s.receive yrs frame).session.socket = s.socket ∧
      (s.receive yrs frame).session.initialState = s.initialState ∧
      (s.receive yrs frame).session.pending = [] := by
  cases frame with
  | joinAccepted documentEpoch durableSeq readWrite =>
    simp only [CollaborationSession.receiveSaves,CollaborationSession.receive] at h haccess
    split at h
    · cases List.mem_singleton.mp h
    · next hsame =>
      rw [if_neg hsame,initializeOrMerge_access] at haccess
      rw [mergeSaves_synced h] at haccess
      cases haccess
  | initialState bytes =>
    simp only [CollaborationSession.receive,initializeOrMerge_access] at haccess
    have hno := mergeSaves_synced h
    rw [show s.access = false from hno] at haccess
    cases haccess
  | remoteSourceUpdate bytes => cases List.mem_singleton.mp h
  | remoteDurable sequence => exact ⟨rfl,rfl,rfl,settledSaves_synced h⟩
  | flushed sequence => exact ⟨rfl,rfl,rfl,settledSaves_synced h⟩
  | control message =>
    cases message with
    | durableAck clientSeq durableSeq => exact ⟨rfl,rfl,rfl,settledSaves_synced h⟩
    | error code text => cases List.mem_singleton.mp h
  | reloadRequired reason => cases List.mem_singleton.mp h
  | policyChanged message => cases List.mem_singleton.mp h
  | paperEpochChanged documentEpoch => cases List.mem_singleton.mp h

end Saves

omit [DecidableEq β] [DecidableEq Op] in
theorem Holds.settled (h : w.Holds yrs key) (ht : w.tabs.tabs tab = some t) (hopen : t.session.isOpen = true)
    (haccess : t.session.access = true) (hinitial : t.session.initialState.isSome = true)
    (hpending : t.session.pending = []) : w.Durable yrs key t (w.own tab) := by
  have hp := h.inside.tabs tab t ht
  have hs := h.tabs tab t ht
  have hdestroyed := hp.alive hopen
  cases hid : t.socket with
  | none =>
    rw [hp.absent hid] at hopen
    cases hopen
  | some id =>
    obtain ⟨socket,hget,-,hadmitted⟩ := hp.socket id hid
    obtain ⟨epoch,hepoch⟩ := Option.isSome_iff_exists.mp (hadmitted hopen)
    have hlinked := h.inside.linked_epoch ht hopen hinitial hid hget
    refine ⟨epoch,hlinked.trans hepoch,?_⟩
    intro op hop
    cases hinitializing : t.session.initializing with
    | true =>
      rw [(hs.owns.loading hinitializing hdestroyed).1] at hop
      cases hop
    | false =>
      have hcurrent : t.session.Current := ⟨hopen,haccess,hinitial,hinitializing⟩
      have hin := hs.secured hcurrent id epoch hid ((Tabs.admitted_eq hget).trans hepoch) op hop
      rcases hin with hin | ⟨n,bytes,-,-,hn,-⟩
      · exact hin
      · rw [hpending] at hn
        cases hn

omit [DecidableEq β] in
theorem Holds.ready (h : w.Holds yrs key) : w.Ready yrs := by
  intro tab t ht _ _ hsome hinitializing
  have ho := (h.tabs tab t ht).owns
  obtain ⟨doc,hdoc⟩ := Option.isSome_iff_exists.mp hsome
  have hmounted := ho.mounted doc hdoc hinitializing
  refine ⟨hmounted,fun ops hopen haccess heditable => ⟨t.session.clientSequence + 1,?_⟩⟩
  have hconnected := ho.connected hopen
  rw [CollaborationSession.isOpen] at hopen
  simp only [CollaborationSession.edit,hdoc,hmounted,heditable,hconnected,haccess,Bool.and_self,if_true,
    CollaborationSession.sendUpdate,CollaborationSession.isOpen,hopen]

/-- A session shows `synced` only when all of its own operations are stored. -/
theorem Holds.saved (h : w.Holds yrs key) (label : TabsLabel β Op) (hsteady : w.Steady yrs key label) :
    w.SavedIsDurable yrs key created label := by
  intro tab t t' htab ht ht' haccess hsaves
  have hnext : (w.step yrs key created label).Holds yrs key := h.step label hsteady
  cases label with
  | message tab' =>
    cases htab
    simp only [sessionSaves] at hsaves
    split at hsaves
    · next hopen =>
      cases hframe : w.nextFrame t with
      | none =>
        rw [hframe] at hsaves
        cases hsaves
      | some frame =>
        rw [hframe,Option.map_some,Option.getD_some] at hsaves
        obtain ⟨⟨id,socket⟩,hsocket,hthere⟩ := Option.bind_eq_some_iff.mp hframe
        dsimp only at hthere
        obtain ⟨epoch,hepoch,hframe⟩ := Option.bind_eq_some_iff.mp hthere
        obtain ⟨hlinked,-,c,-,hgreeted,hin,-⟩ := h.received ht hopen hsocket hepoch hframe
        have hnow : t'.session = (t.session.receive yrs frame).session := by
          simp only [Watched.step,Tabs.step,Tabs.withTab,ht,hopen,if_true,Tabs.message,hsocket,hthere] at ht'
          rw [(Tabs.take_rest ..).2.2.2,Function.update_self,Option.some.injEq] at ht'
          rw [← ht']
        rw [hnow] at haccess
        obtain ⟨hplain,hsame,hinitial,hpending⟩ := receiveSaves_synced hsaves haccess
        have hsome : t.session.initialState.isSome = true := by
          rcases hgreeted.next hin with ⟨-,_,_,rfl⟩ | ⟨-,_,rfl⟩ | ⟨htwo,-⟩
          · cases hplain
          · cases hplain
          · exact hlinked.initial.mpr htwo
        refine hnext.settled ht' ?_ (hnow ▸ haccess) ?_ (hnow ▸ hpending)
        · rwa [hnow,CollaborationSession.isOpen,hsame]
        · rwa [hnow,hinitial]
    · cases hsaves
  | synced tab' restored =>
    cases htab
    simp only [sessionSaves] at hsaves
    split at hsaves
    · next hrestored =>
      have hno := syncedSaves_synced hsaves
      have hnow : t'.session = (t.session.synced yrs restored).session := by
        simp only [Watched.step,Tabs.step,Tabs.withTab,ht,if_pos hrestored] at ht'
        rw [(Tabs.take_rest ..).2.2.2,Function.update_self,Option.some.injEq] at ht'
        rw [← ht']
      rw [hnow,synced_access,hno] at haccess
      cases haccess
    · cases hsaves
  | connect tab' id =>
    simp only [sessionSaves,CollaborationSession.connectSaves] at hsaves
    split at hsaves
    · cases hsaves
    · split at hsaves <;> cases List.mem_singleton.mp hsaves
  | opened tab' =>
    simp only [sessionSaves] at hsaves
    split at hsaves
    · cases List.mem_singleton.mp hsaves
    · cases hsaves
  | closed tab' =>
    simp only [sessionSaves,CollaborationSession.closeSaves] at hsaves
    split at hsaves
    · split at hsaves
      · cases hsaves
      · cases List.mem_singleton.mp hsaves
    · cases hsaves
  | edit tab' ops =>
    simp only [sessionSaves,CollaborationSession.editSaves,CollaborationSession.sendSaves] at hsaves
    split at hsaves
    · split at hsaves
      · split at hsaves
        · split at hsaves <;> cases List.mem_singleton.mp hsaves
        · cases List.mem_singleton.mp hsaves
      · cases hsaves
    · cases hsaves
  | flush tab' =>
    simp only [sessionSaves,CollaborationSession.flushSaves,CollaborationSession.sendSaves] at hsaves
    split at hsaves
    · split at hsaves <;> cases List.mem_singleton.mp hsaves
    · cases hsaves
  | _ => cases hsaves

/-! ## Runs -/

theorem Holds.start {actors : ℕ → Actor β Op} {documentEpoch : ℕ} {persisted : ℕ → ℕ → Finset Op}
    (hbigint : documentEpoch ≤ i64Max)
    (hactors : ∀ epoch, epoch ≤ i64Max → (actors epoch).Reached yrs (Tabs.document key epoch) ∧
      (actors epoch).room.pending = []) :
    (Watched.start (Tabs.start actors documentEpoch persisted)).Holds yrs key := by
  refine ⟨.start hbigint (fun epoch he => ⟨(hactors epoch he).1.sound,Set.subset_univ _⟩)
    (fun _ _ => Set.subset_univ _),?_,?_,?_,fun _ _ => rfl⟩
  · intro epoch he
    refine ⟨?_,?_,?_⟩
    · intro entry hentry
      cases hentry
    · intro u hu
      change u ∈ (actors epoch).room.pending at hu
      rw [(hactors epoch he).2] at hu
      cases hu
    · rintro id n ⟨c,hc,-⟩
      cases hc
  · intro epoch id n bytes bytes' hmem
    cases hmem
  · intro tab t ht
    cases ht

end Watched

/-- In every run of steady steps a session that shows `synced` has all of its own operations stored, and
one that is initialised has its editor mounted and sends what is typed. -/
theorem saved_is_durable [DecidableEq β] [DecidableEq Op] (yrs : Yrs β Op) (key : RoomKey)
    (created : Op → Option ℕ) (actors : ℕ → Actor β Op) (documentEpoch : ℕ) (persisted : ℕ → ℕ → Finset Op)
    (hbigint : documentEpoch ≤ i64Max)
    (hactors : ∀ epoch, epoch ≤ i64Max → (actors epoch).Reached yrs (Tabs.document key epoch) ∧
      (actors epoch).room.pending = [])
    (labels : List (TabsLabel β Op))
    (h : Along (fun w l => Watched.step w yrs key created l) (fun w l => w.Steady yrs key l)
      (Watched.start (Tabs.start actors documentEpoch persisted)) labels) :
    Along (fun w l => Watched.step w yrs key created l) (fun w l => w.SavedIsDurable yrs key created l)
        (Watched.start (Tabs.start actors documentEpoch persisted)) labels ∧
      (run (fun w l => Watched.step w yrs key created l)
        (Watched.start (Tabs.start actors documentEpoch persisted)) labels).Ready yrs := by
  have hstart : (Watched.start (Tabs.start actors documentEpoch persisted)).Holds yrs key := .start hbigint hactors
  constructor
  · exact h.of_invariant (fun w : Watched β Op => w.Holds yrs key) (fun w l hw hl => hw.step l hl)
      (fun w l hw hl => hw.saved l hl) hstart
  · have hholds := h.invariant (fun w : Watched β Op => w.Holds yrs key) (fun w l hw hl => hw.step l hl) hstart
    exact hholds.ready

/-! ## Edits that are sent again -/

def watchedStep (w : Watched (Finset ℕ) ℕ) (l : TabsLabel (Finset ℕ) ℕ) : Watched (Finset ℕ) ℕ :=
  w.step plainYrs sampleDocument.room (fun op => if op = 1 then none else some 1) l

/-- An edit, its update and the acknowledgement after the batch. -/
def savedOnce : List (TabsLabel (Finset ℕ) ℕ) :=
  opening ++ [.edit 0 {7},.deliver 5 4 true true,.deliver 5 4 true true,.room 1 (.act .fine true),
    .room 1 (.act .fine true),.room 1 (.tick .fine),.room 1 (.control 5 true),.room 1 (.control 5 true),.message 0,
    .message 0]

/-- The socket closes with the edit in a batch, and the next one sends the whole document again. -/
def resent : List (TabsLabel (Finset ℕ) ℕ) :=
  opening ++ [.edit 0 {7},.deliver 5 4 true true,.deliver 5 4 true true,.room 1 (.act .fine true),
    .room 1 (.act .fine true),.closed 0,.connect 0 6,.access 6,.seat 6 true,.room 1 (.act .fine true),
    .room 1 (.subscribe 6),.room 1 (.greet 6 true true),.opened 0,.message 0,.message 0,.deliver 6 4 true true,
    .room 1 (.act .fine true),.room 1 (.control 6 true)]

/-- The persistence is ready while the tab waits for the initial state of its second socket. -/
def restored : List (TabsLabel (Finset ℕ) ℕ) :=
  opening.take 10 ++ [.closed 0,.connect 0 6,.access 6,.seat 6 true,.room 1 (.act .fine true),
    .room 1 (.subscribe 6),.room 1 (.greet 6 true true),.opened 0,.synced 0 ∅,.message 0,.message 0]

/-- What an update only repeats is in the snapshot. -/
def InSnapshot (document : DocumentKey) (s : Session (Finset ℕ) ℕ) : Prop :=
  ∀ entry ∈ s.mailbox.head?, ∀ bytes ∈ entry.2.payload?, bytes ⊆ s.actor.room.doc →
    ∃ snapshot ∈ s.actor.database.latestSnapshot document, bytes ⊆ snapshot.2

instance (document : DocumentKey) (s : Session (Finset ℕ) ℕ) : Decidable (InSnapshot document s) := by
  unfold InSnapshot
  infer_instance

theorem InSnapshot.not_repeats {s : Session (Finset ℕ) ℕ} {document : DocumentKey} (h : InSnapshot document s)
    (own : Uuid → Set ℕ) : ¬s.Repeats plainYrs document own := by
  rintro ⟨entry,rest,source,user,sequence,bytes,update,hmail,happly,hdec,hsub,op,hop,-,hno⟩
  cases hdec
  have hhead : entry ∈ s.mailbox.head? := by rw [hmail]; rfl
  obtain ⟨snapshot,hsnapshot,hin⟩ := h entry hhead bytes (by rw [happly]; rfl) hsub
  exact hno (Or.inl ⟨snapshot,hsnapshot,snapshot.2,rfl,snapshot.2,rfl,hin hop⟩)

/-- Steady steps that can be checked. -/
def Calm (w : Watched (Finset ℕ) ℕ) : TabsLabel (Finset ℕ) ℕ → Prop
  | .synced tab _ => ∀ t ∈ w.tabs.tabs tab, t.session.doc.isSome = true → t.session.initializing = true →
    t.session.initialState.isSome = true
  | .room epoch (.act _ _) => InSnapshot (Tabs.document sampleDocument.room epoch) (w.tabs.rooms epoch)
  | _ => True

instance (w : Watched (Finset ℕ) ℕ) (label : TabsLabel (Finset ℕ) ℕ) : Decidable (Calm w label) := by
  unfold Calm
  split <;> infer_instance

theorem Calm.steady {w : Watched (Finset ℕ) ℕ} {label : TabsLabel (Finset ℕ) ℕ} (h : Calm w label) :
    w.Steady plainYrs sampleDocument.room label := by
  cases label with
  | synced tab restored => exact h
  | room epoch label =>
    cases label with
    | act o sends => exact InSnapshot.not_repeats h w.ownBy
    | _ => trivial
  | _ => trivial

theorem saved_once_durable :
    (Along watchedStep (fun w l => w.SavedIsDurable plainYrs sampleDocument.room
        (fun op => if op = 1 then none else some 1) l) (Watched.start sampleTabs) savedOnce ∧
      (run watchedStep (Watched.start sampleTabs) savedOnce).Ready plainYrs) ∧
      ∀ t ∈ (run watchedStep (Watched.start sampleTabs) savedOnce.dropLast).tabs.tabs 0,
        (run watchedStep (Watched.start sampleTabs) savedOnce.dropLast).sessionSaves plainYrs
          (fun op => if op = 1 then none else some 1) t (.message 0) = [.synced] := by
  have hcalm : Along watchedStep Calm (Watched.start sampleTabs) savedOnce := by decide +kernel
  have hsteady := hcalm.mono (fun _ _ hl => hl.steady)
  have hactors : ∀ epoch, epoch ≤ i64Max →
      (Actor.fresh (Tabs.document sampleDocument.room epoch) {1}).Reached plainYrs
        (Tabs.document sampleDocument.room epoch) ∧
      (Actor.fresh (Tabs.document sampleDocument.room epoch) {1}).room.pending = [] :=
    fun epoch he => ⟨Actor.fresh_reached he {1},rfl⟩
  have hsynced : ∀ t ∈ (run watchedStep (Watched.start sampleTabs) savedOnce.dropLast).tabs.tabs 0,
      (run watchedStep (Watched.start sampleTabs) savedOnce.dropLast).sessionSaves plainYrs
        (fun op => if op = 1 then none else some 1) t (.message 0) = [.synced] := by decide +kernel
  exact ⟨saved_is_durable plainYrs sampleDocument.room (fun op => if op = 1 then none else some 1)
    (fun epoch => Actor.fresh (Tabs.document sampleDocument.room epoch) {1}) 1 (fun _ _ => ∅) (by decide) hactors
    savedOnce hsteady,hsynced⟩

/-- The edit that is sent again is acknowledged before it is stored; and the persistence that is ready
too early leaves the session without its editor. -/
theorem resent_edit_not_durable :
    ¬Along watchedStep (fun w l => w.SavedIsDurable plainYrs sampleDocument.room
        (fun op => if op = 1 then none else some 1) l) (Watched.start sampleTabs) (resent ++ [.message 0]) ∧
      ¬(run watchedStep (Watched.start sampleTabs) restored).Ready plainYrs := by
  constructor
  · intro h
    obtain ⟨-,hsaved⟩ := along_concat.mp h
    obtain ⟨t,ht⟩ := Option.isSome_iff_exists.mp
      (show ((run watchedStep (Watched.start sampleTabs) resent).tabs.tabs 0).isSome = true by decide +kernel)
    obtain ⟨t',ht'⟩ := Option.isSome_iff_exists.mp (show ((watchedStep
      (run watchedStep (Watched.start sampleTabs) resent) (.message 0)).tabs.tabs 0).isSome = true by decide +kernel)
    have haccess : ∀ u ∈ (watchedStep (run watchedStep (Watched.start sampleTabs) resent) (.message 0)).tabs.tabs 0,
        u.session.access = true ∧ u.session.documentEpoch = some 1 := by decide +kernel
    have hsaves : ∀ u ∈ (run watchedStep (Watched.start sampleTabs) resent).tabs.tabs 0, .synced ∈
        (run watchedStep (Watched.start sampleTabs) resent).sessionSaves plainYrs
          (fun op => if op = 1 then none else some 1) u (.message 0) := by decide +kernel
    have hown : 7 ∈ (watchedStep (run watchedStep (Watched.start sampleTabs) resent) (.message 0)).own 0 := by
      decide +kernel
    have hlatest : ((watchedStep (run watchedStep (Watched.start sampleTabs) resent)
        (.message 0)).tabs.rooms 1).actor.database.latestSnapshot (Tabs.document sampleDocument.room 1) =
          some (0,{1}) := by decide +kernel
    have hrows : ∀ r ∈ ((watchedStep (run watchedStep (Watched.start sampleTabs) resent)
        (.message 0)).tabs.rooms 1).actor.database.updates, 7 ∉ r.updateBytes := by decide +kernel
    obtain ⟨epoch,hepoch,hdurable⟩ := hsaved 0 t t' rfl ht ht' (haccess t' ht').1 (hsaves t ht)
    rw [(haccess t' ht').2,Option.some.injEq] at hepoch
    subst hepoch
    have hstored : 7 ∈ stored plainYrs (Tabs.document sampleDocument.room 1) ((watchedStep
        (run watchedStep (Watched.start sampleTabs) resent) (.message 0)).tabs.rooms 1).actor.database := hdurable hown
    rcases hstored with ⟨s,hs,bytes,hbytes,update,hupdate,hop⟩ | ⟨row,hrow,_,_,update,hupdate,hop⟩
    · rw [hlatest] at hs
      cases hs
      cases hbytes
      cases hupdate
      simp at hop
    · cases hupdate
      exact hrows row hrow hop
  · intro h
    obtain ⟨t,ht⟩ := Option.isSome_iff_exists.mp
      (show ((run watchedStep (Watched.start sampleTabs) restored).tabs.tabs 0).isSome = true by decide +kernel)
    have hfields : ∀ u ∈ (run watchedStep (Watched.start sampleTabs) restored).tabs.tabs 0,
        u.session.metadata.isSome = true ∧ u.session.initialState.isSome = true ∧ u.session.doc.isSome = true ∧
          u.session.initializing = false ∧ u.session.mounted = false := by decide +kernel
    obtain ⟨hmetadata,hinitial,hdoc,hinitializing,hmounted⟩ := hfields t ht
    have hready := (h 0 t ht hmetadata hinitial hdoc hinitializing).1
    rw [hmounted] at hready
    cases hready

end LatexCore.Collaboration
