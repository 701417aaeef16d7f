import LatexCore.Collaboration.Payloads
import LatexCore.Collaboration.Turns

/-! # Tabs inside their epochs

Each epoch has a set of operations. If the rooms keep to the set of their epoch
and every update that goes out on a socket keeps to the set of the epoch that the
socket was admitted to, then a tab and its socket stay in step: the frames that
the tab has received from its present socket decide what its session holds.
-/
namespace LatexCore.Collaboration
open Core Foundation
variable {β Op : Type}

structure CollaborationSession.Inside (yrs : Yrs β Op) (H : ℕ → Set Op)
    (s : CollaborationSession β Op (Finset Op)) : Prop where
  doc : ∀ doc, s.doc = some doc → ∃ epoch, s.documentEpoch = some epoch ∧ ↑doc ⊆ H epoch
  buffered : ∀ bytes ∈ s.bufferedRemote, ∃ epoch, s.documentEpoch = some epoch ∧ yrs.Within (H epoch) bytes
  initial : ∀ bytes, s.initialState = some bytes →
    ∃ epoch, s.documentEpoch = some epoch ∧ yrs.Within (H epoch) bytes

structure CollaborationSession.Linked (s : CollaborationSession β Op (Finset Op)) (socket : Socket β) :
    Prop where
  epoch : socket.received ≠ [] → s.documentEpoch = socket.epoch
  metadata : s.metadata.isSome = true ↔ socket.received ≠ []
  initial : s.initialState.isSome = true ↔ 2 ≤ socket.received.length

/-- A turn that changes nothing of what ties a session to its socket. -/
structure Turn.Keeps (yrs : Yrs β Op) (H : ℕ → Set Op) (s : CollaborationSession β Op (Finset Op))
    (turn : Turn β Op (Finset Op)) : Prop where
  inside : turn.session.Inside yrs H
  destroyed : turn.session.destroyed = s.destroyed
  documentEpoch : turn.session.documentEpoch = s.documentEpoch
  metadata : turn.session.metadata = s.metadata
  initialState : turn.session.initialState = s.initialState
  socket : turn.session.socket = s.socket
  frames : updateOps yrs turn.frames = ∅ ∨ ∃ epoch, s.documentEpoch = some epoch ∧
    updateOps yrs turn.frames ⊆ H epoch
  closed : s.isOpen = false → turn.frames = []

variable {yrs : Yrs β Op} {H : ℕ → Set Op} {s s' : CollaborationSession β Op (Finset Op)}
  {turn : Turn β Op (Finset Op)} {socket socket' : Socket β}

theorem updateOps_nil : updateOps yrs ([] : List (ClientFrame β)) = ∅ := by
  ext op
  simp [updateOps]

theorem CollaborationSession.Inside.destroy (h : s.Inside yrs H) : s.destroy.Inside yrs H :=
  ⟨fun _ hdoc => (by cases hdoc),h.buffered,h.initial⟩

namespace Turn.Keeps

theorem isOpen (h : Turn.Keeps yrs H s turn) : turn.session.isOpen = s.isOpen := by
  simp only [CollaborationSession.isOpen,h.socket]

theorem quiet (h : s.Inside yrs H) : Turn.Keeps yrs H s s.quiet :=
  ⟨h,rfl,rfl,rfl,rfl,rfl,Or.inl updateOps_nil,fun _ => rfl⟩

/-- A turn of a session that differs in other fields. -/
theorem of_same (h : Turn.Keeps yrs H s' turn) (hdestroyed : s'.destroyed = s.destroyed)
    (hepoch : s'.documentEpoch = s.documentEpoch) (hmetadata : s'.metadata = s.metadata)
    (hinitial : s'.initialState = s.initialState) (hsocket : s'.socket = s.socket) :
    Turn.Keeps yrs H s turn := by
  have hopen : s'.isOpen = s.isOpen := by
    simp only [CollaborationSession.isOpen,hsocket]
  refine ⟨h.inside,h.destroyed.trans hdestroyed,h.documentEpoch.trans hepoch,h.metadata.trans hmetadata,
    h.initialState.trans hinitial,h.socket.trans hsocket,hepoch ▸ h.frames,?_⟩
  rw [← hopen]
  exact h.closed

theorem quietly (h : s'.Inside yrs H) (hdestroyed : s'.destroyed = s.destroyed)
    (hepoch : s'.documentEpoch = s.documentEpoch) (hmetadata : s'.metadata = s.metadata)
    (hinitial : s'.initialState = s.initialState) (hsocket : s'.socket = s.socket) :
    Turn.Keeps yrs H s s'.quiet :=
  (quiet h).of_same hdestroyed hepoch hmetadata hinitial hsocket

theorem sendUpdate (h : s.Inside yrs H) {update : β}
    (hupdate : ∃ epoch, s.documentEpoch = some epoch ∧ yrs.ops update ⊆ H epoch) :
    Turn.Keeps yrs H s (s.sendUpdate update) := by
  unfold CollaborationSession.sendUpdate
  split
  · next hopen =>
    refine ⟨⟨h.doc,h.buffered,h.initial⟩,rfl,rfl,rfl,rfl,rfl,Or.inr ?_,?_⟩
    · obtain ⟨epoch,hepoch,hops⟩ := hupdate
      rw [updateOps_singleton]
      exact ⟨epoch,hepoch,hops⟩
    · intro hclosed
      rw [hopen] at hclosed
      cases hclosed
  · exact quiet h

theorem publish (h : s.Inside yrs H) {doc : Finset Op} (hdoc : s.doc = some doc) :
    Turn.Keeps yrs H s (s.publish yrs doc) := by
  unfold CollaborationSession.publish
  split
  · obtain ⟨epoch,hepoch,hsub⟩ := h.doc doc hdoc
    refine sendUpdate h ⟨epoch,hepoch,?_⟩
    rw [mem_ops (yrs.decode_encode doc)]
    exact hsub
  · exact quiet h

theorem flush (h : s.Inside yrs H) (before : Finset Op) : Turn.Keeps yrs H s (s.flush before) := by
  unfold CollaborationSession.flush
  split
  · exact ⟨h,rfl,rfl,rfl,rfl,rfl,Or.inl updateOps_nil,fun _ => rfl⟩
  · split
    · exact quiet h
    · next hopen =>
      refine ⟨⟨h.doc,h.buffered,h.initial⟩,rfl,rfl,rfl,rfl,rfl,Or.inl (updateOps_singleton _),?_⟩
      intro hclosed
      rw [hclosed] at hopen
      exact absurd rfl hopen

theorem resolveFlushes (h : s.Inside yrs H) : Turn.Keeps yrs H s s.resolveFlushes :=
  ⟨⟨h.doc,h.buffered,h.initial⟩,rfl,rfl,rfl,rfl,rfl,Or.inl updateOps_nil,fun _ => rfl⟩

variable [DecidableEq Op]

/-- The next frame of a session that has an initial state. -/
theorem initializeOrMerge (h : s.Inside yrs H) (hmetadata : s.metadata.isSome = true → ∃ epoch,
    s.documentEpoch = some epoch) : Turn.Keeps yrs H s (s.initializeOrMerge yrs) := by
  unfold CollaborationSession.initializeOrMerge
  split
  · next metadata bytes hmeta hbytes =>
    obtain ⟨epoch,hepoch⟩ := hmetadata (by rw [hmeta]; rfl)
    split
    · exact quiet h
    · split
      · refine quietly ⟨?_,h.buffered,h.initial⟩ rfl rfl rfl rfl rfl
        intro doc hdoc
        cases hdoc
        exact ⟨epoch,hepoch,by simp⟩
      · next doc hdoc =>
        split
        · exact quiet h
        · next doc' happly =>
          obtain ⟨update,hdec,rfl⟩ := (applyUpdate_ok yrs).mp happly
          obtain ⟨e,he,update',hdec',hsub⟩ := h.initial bytes hbytes
          rw [hdec] at hdec'
          cases hdec'
          obtain ⟨e',he',hdocs⟩ := h.doc doc hdoc
          rw [he] at he'
          cases he'
          have hinside : CollaborationSession.Inside yrs H { s with doc := some (doc ∪ update) } := by
            refine ⟨?_,h.buffered,h.initial⟩
            intro d hd
            cases hd
            exact ⟨e,he,by rw [Finset.coe_union]; exact Set.union_subset hdocs hsub⟩
          exact (publish hinside rfl).of_same rfl rfl rfl rfl rfl
  · exact quiet h

theorem applyAll_inside {K : Set Op} {doc doc' : Finset Op} {updates : List β} (hdoc : ↑doc ⊆ K)
    (hupdates : ∀ bytes ∈ updates, yrs.Within K bytes)
    (h : CollaborationSession.applyAll yrs doc updates = .ok doc') : ↑doc' ⊆ K := by
  induction updates generalizing doc with
  | nil =>
    cases h
    exact hdoc
  | cons bytes rest ih =>
    rw [CollaborationSession.applyAll,bind_ok] at h
    obtain ⟨next,happly,hrest⟩ := h
    obtain ⟨update,hdec,rfl⟩ := (applyUpdate_ok yrs).mp happly
    obtain ⟨update',hdec',hsub⟩ := hupdates bytes (List.mem_cons_self ..)
    rw [hdec] at hdec'
    cases hdec'
    refine ih ?_ (fun b hb => hupdates b (List.mem_cons_of_mem _ hb)) hrest
    rw [Finset.coe_union]
    exact Set.union_subset hdoc hsub

theorem synced (h : s.Inside yrs H) {restored : Finset Op}
    (hrestored : ∀ epoch, s.documentEpoch = some epoch → ↑restored ⊆ H epoch) :
    Turn.Keeps yrs H s (s.synced yrs restored) := by
  unfold CollaborationSession.synced
  split
  · exact quiet h
  · have hunion : ∀ doc, s.doc = some doc → ∃ epoch, s.documentEpoch = some epoch ∧
        (↑(doc ∪ restored) : Set Op) ⊆ H epoch := by
      intro doc hdoc
      obtain ⟨epoch,hepoch,hsub⟩ := h.doc doc hdoc
      refine ⟨epoch,hepoch,?_⟩
      rw [Finset.coe_union]
      exact Set.union_subset hsub (hrestored epoch hepoch)
    have hkept : ∀ doc, s.doc = some doc → Turn.Keeps yrs H s (CollaborationSession.quiet { s with
        initializing := false
        doc := some (doc ∪ restored) }) := by
      intro doc hdoc
      refine quietly ⟨?_,h.buffered,h.initial⟩ rfl rfl rfl rfl rfl
      intro d hd
      cases hd
      exact hunion doc hdoc
    split
    · next doc bytes hdoc hbytes =>
      split
      · exact hkept doc hdoc
      · next doc' happly =>
        obtain ⟨epoch,hepoch,hsub⟩ := hunion doc hdoc
        have hall : ↑doc' ⊆ H epoch := by
          refine applyAll_inside hsub ?_ happly
          intro b hb
          rcases List.mem_cons.mp hb with rfl | hb
          · obtain ⟨e,he,hwithin⟩ := h.initial b hbytes
            rw [hepoch] at he
            cases he
            exact hwithin
          · obtain ⟨e,he,hwithin⟩ := h.buffered b hb
            rw [hepoch] at he
            cases he
            exact hwithin
        have hinside : CollaborationSession.Inside yrs H { s with
            initializing := false
            doc := some doc'
            bufferedRemote := []
            mounted := true
            editable := s.requestedEditable && s.access } := by
          refine ⟨?_,?_,h.initial⟩
          · intro d hd
            cases hd
            exact ⟨epoch,hepoch,hall⟩
          · intro b hb
            cases hb
        exact (publish hinside rfl).of_same rfl rfl rfl rfl rfl
    · next doc hdoc _ => exact hkept doc hdoc
    · next hdoc =>
      refine quietly ⟨?_,h.buffered,h.initial⟩ rfl rfl rfl rfl rfl
      intro d hd
      exact h.doc d hd

theorem edit (h : s.Inside yrs H) {ops : Finset Op}
    (hops : ∀ epoch, s.documentEpoch = some epoch → ↑ops ⊆ H epoch) : Turn.Keeps yrs H s (s.edit yrs ops) := by
  unfold CollaborationSession.edit
  split
  · next doc hdoc =>
    split
    · obtain ⟨epoch,hepoch,hsub⟩ := h.doc doc hdoc
      have hinside : CollaborationSession.Inside yrs H { s with doc := some (doc ∪ ops) } := by
        refine ⟨?_,h.buffered,h.initial⟩
        intro d hd
        cases hd
        refine ⟨epoch,hepoch,?_⟩
        rw [Finset.coe_union]
        exact Set.union_subset hsub (hops epoch hepoch)
      dsimp only
      split
      · refine (sendUpdate hinside ⟨epoch,hepoch,?_⟩).of_same rfl rfl rfl rfl rfl
        rw [mem_ops (yrs.decode_encode ops)]
        exact hops epoch hepoch
      · exact quietly hinside rfl rfl rfl rfl rfl
    · exact quiet h
  · exact quiet h

end Turn.Keeps

theorem initializeOrMerge_quiet [DecidableEq Op] (h : s.initialState = none) :
    s.initializeOrMerge yrs = s.quiet := by
  unfold CollaborationSession.initializeOrMerge
  rw [h]
  cases s.metadata <;> rfl

theorem synced_frames [DecidableEq Op] {restored : Finset Op} (h : s.initialState = none) :
    (s.synced yrs restored).frames = [] := by
  unfold CollaborationSession.synced
  rw [h]
  split
  · rfl
  · cases s.doc <;> rfl

theorem CollaborationSession.Linked.of_keeps (h : s.Linked socket) (hk : Turn.Keeps yrs H s turn) :
    turn.session.Linked socket := by
  refine ⟨?_,?_,?_⟩
  · rw [hk.documentEpoch]
    exact h.epoch
  · rw [hk.metadata]
    exact h.metadata
  · rw [hk.initialState]
    exact h.initial

structure Turn.Follows (yrs : Yrs β Op) (H : ℕ → Set Op) (socket : Socket β)
    (turn : Turn β Op (Finset Op)) : Prop where
  linked : turn.session.destroyed = false → turn.session.Linked socket
  isOpen : turn.session.isOpen = true → socket.epoch.isSome = true
  frames : ∀ epoch, socket.epoch = some epoch → updateOps yrs turn.frames ⊆ H epoch
  silent : socket.epoch = none → turn.frames = []

/-! ## Frames of the room -/

theorem receive_inside [DecidableEq Op] {s : CollaborationSession β Op (Finset Op)} (hs : s.Inside yrs H)
    (hlinked : s.Linked socket) {epoch : ℕ} (hepoch : socket.epoch = some epoch)
    (hdestroyed : s.destroyed = false) {frame : Frame β} {frames : List (Frame β)} (hgreeted : Greeted epoch frames)
    (hframes : ∀ f ∈ frames, ∀ bytes, f.payload? = some bytes → yrs.Within (H epoch) bytes)
    (hnext : frames[socket.received.length]? = some frame) :
    (s.receive yrs frame).session.Inside yrs H ∧
      ((s.receive yrs frame).session.destroyed = true → (s.receive yrs frame).session.socket = none) ∧
      (s.receive yrs frame).Follows yrs H { socket with received := socket.received ++ [frame] } := by
  have hsome : socket.epoch.isSome = true := by rw [hepoch]; rfl
  have hmem : frame ∈ frames := List.mem_of_getElem? hnext
  -- A session that is destroyed has nothing to do with its socket any more.
  have hdestroy : s.destroy.quiet.session.Inside yrs H ∧
      (s.destroy.quiet.session.destroyed = true → s.destroy.quiet.session.socket = none) ∧
      s.destroy.quiet.Follows yrs H { socket with received := socket.received ++ [frame] } := by
    refine ⟨hs.destroy,fun _ => rfl,?_,fun _ => hsome,?_,fun _ => rfl⟩
    · intro hfalse
      cases hfalse
    · intro _ _
      rw [show s.destroy.quiet.frames = [] from rfl,updateOps_nil]
      exact Set.empty_subset _
  -- A turn that keeps what a session has learnt from its frames.
  have hkeeps : ∀ {s' : CollaborationSession β Op (Finset Op)} {turn : Turn β Op (Finset Op)},
      Turn.Keeps yrs H s' turn → s'.destroyed = false → s'.documentEpoch = some epoch →
      s'.Linked { socket with received := socket.received ++ [frame] } →
      turn.session.Inside yrs H ∧ (turn.session.destroyed = true → turn.session.socket = none) ∧
        turn.Follows yrs H { socket with received := socket.received ++ [frame] } := by
    intro s' turn hk hd he hl
    refine ⟨hk.inside,?_,fun _ => hl.of_keeps hk,fun _ => hsome,?_,?_⟩
    · rw [hk.destroyed,hd]
      intro hfalse
      cases hfalse
    · intro e hsocket
      obtain rfl : epoch = e := Option.some.inj (hepoch.symm.trans hsocket)
      rcases hk.frames with hnone | ⟨e,he',hsub⟩
      · rw [hnone]
        exact Set.empty_subset _
      · rw [he,Option.some.injEq] at he'
        subst he'
        exact hsub
    · intro hnone
      rw [show socket.epoch = none from hnone] at hsome
      cases hsome
  have hjoin : ∀ durableSeq readWrite, socket.received = [] → frame = .joinAccepted epoch durableSeq readWrite →
      (s.receive yrs frame).session.Inside yrs H ∧
        ((s.receive yrs frame).session.destroyed = true → (s.receive yrs frame).session.socket = none) ∧
        (s.receive yrs frame).Follows yrs H { socket with received := socket.received ++ [frame] } := by
    rintro durableSeq readWrite hnil rfl
    have hinitial : s.initialState = none := by
      have hno : ¬s.initialState.isSome = true := by
        rw [hlinked.initial,hnil]
        simp
      exact Option.not_isSome_iff_eq_none.mp hno
    simp only [CollaborationSession.receive]
    split
    · exact hdestroy
    · next hany =>
      have hsame : ∀ e, s.documentEpoch = some e → e = epoch := by
        intro e he
        rw [he] at hany
        simpa using hany
      have hinside : CollaborationSession.Inside yrs H { s with
          documentEpoch := some epoch
          metadata := some epoch
          access := readWrite } := by
        refine ⟨?_,?_,?_⟩
        · intro doc hdoc
          obtain ⟨e,he,hsub⟩ := hs.doc doc hdoc
          exact ⟨epoch,rfl,hsame e he ▸ hsub⟩
        · intro bytes hbytes
          obtain ⟨e,he,hwithin⟩ := hs.buffered bytes hbytes
          exact ⟨epoch,rfl,hsame e he ▸ hwithin⟩
        · intro bytes hbytes
          rw [show s.initialState = some bytes from hbytes] at hinitial
          cases hinitial
      rw [initializeOrMerge_quiet (by exact hinitial)]
      refine hkeeps (.quiet hinside) hdestroyed rfl ⟨fun _ => hepoch.symm,?_,?_⟩
      · simp
      · rw [hinitial,hnil]
        simp
  have hlater : ∀ bytes, socket.received.length = 1 → frame = .initialState bytes →
      (s.receive yrs frame).session.Inside yrs H ∧
        ((s.receive yrs frame).session.destroyed = true → (s.receive yrs frame).session.socket = none) ∧
        (s.receive yrs frame).Follows yrs H { socket with received := socket.received ++ [frame] } := by
    rintro bytes hone rfl
    have hne : socket.received ≠ [] := by
      intro hnil
      rw [hnil] at hone
      cases hone
    have he : s.documentEpoch = some epoch := (hlinked.epoch hne).trans hepoch
    have hinside : CollaborationSession.Inside yrs H { s with initialState := some bytes } := by
      refine ⟨hs.doc,hs.buffered,?_⟩
      intro b hb
      cases hb
      exact ⟨epoch,he,hframes _ hmem bytes rfl⟩
    refine hkeeps (.initializeOrMerge hinside (fun _ => ⟨epoch,he⟩)) hdestroyed he ⟨fun _ => he.trans hepoch.symm,?_,?_⟩
    · have hmeta := hlinked.metadata.mpr hne
      simpa using hmeta
    · simp [hone]
  have hrest : 2 ≤ socket.received.length → frame.isGreeting = false →
      (s.receive yrs frame).session.Inside yrs H ∧
        ((s.receive yrs frame).session.destroyed = true → (s.receive yrs frame).session.socket = none) ∧
        (s.receive yrs frame).Follows yrs H { socket with received := socket.received ++ [frame] } := by
    intro htwo hplain
    have hne : socket.received ≠ [] := by
      intro hnil
      rw [hnil] at htwo
      simp at htwo
    have he : s.documentEpoch = some epoch := (hlinked.epoch hne).trans hepoch
    have hmore : s.Linked { socket with received := socket.received ++ [frame] } := by
      refine ⟨fun _ => hlinked.epoch hne,?_,?_⟩
      · have hmeta := hlinked.metadata.mpr hne
        simpa using hmeta
      · have hinitial := hlinked.initial.mpr htwo
        simp only [hinitial,List.length_append,List.length_singleton,true_iff]
        omega
    cases frame with
    | joinAccepted e d r => cases hplain
    | initialState bytes => cases hplain
    | remoteSourceUpdate bytes =>
      have hwithin := hframes _ hmem bytes rfl
      simp only [CollaborationSession.receive]
      split
      · next doc hdoc =>
        split
        · exact hkeeps (.quiet hs) hdestroyed he hmore
        · next doc' happly =>
          obtain ⟨update,hdec,rfl⟩ := (applyUpdate_ok yrs).mp happly
          obtain ⟨e,he',hsub⟩ := hs.doc doc hdoc
          rw [he,Option.some.injEq] at he'
          subst he'
          have hops := hwithin.ops
          rw [mem_ops hdec] at hops
          have hinside : CollaborationSession.Inside yrs H { s with doc := some (doc ∪ update) } := by
            refine ⟨?_,hs.buffered,hs.initial⟩
            intro d hd
            cases hd
            exact ⟨epoch,he,by rw [Finset.coe_union]; exact Set.union_subset hsub hops⟩
          exact hkeeps (.quiet hinside) hdestroyed he ⟨hmore.epoch,hmore.metadata,hmore.initial⟩
      · have hinside : CollaborationSession.Inside yrs H { s with
            bufferedRemote := s.bufferedRemote ++ [bytes] } := by
          refine ⟨hs.doc,?_,hs.initial⟩
          intro b hb
          rcases List.mem_append.mp hb with hb | hb
          · exact hs.buffered b hb
          · rw [List.mem_singleton.mp hb]
            exact ⟨epoch,he,hwithin⟩
        exact hkeeps (.quiet hinside) hdestroyed he ⟨hmore.epoch,hmore.metadata,hmore.initial⟩
    | remoteDurable sequence => exact hkeeps (.quiet hs) hdestroyed he hmore
    | control message =>
      cases message with
      | durableAck clientSeq durableSeq =>
        have hinside : CollaborationSession.Inside yrs H { s with
            pending := s.pending.filter (fun n => n != clientSeq) } := ⟨hs.doc,hs.buffered,hs.initial⟩
        exact hkeeps (.quiet hinside) hdestroyed he ⟨hmore.epoch,hmore.metadata,hmore.initial⟩
      | error code text => exact hkeeps (.quiet hs) hdestroyed he hmore
    | flushed sequence => exact hkeeps (.resolveFlushes hs) hdestroyed he hmore
    | reloadRequired reason => exact hdestroy
    | policyChanged message => exact hdestroy
    | paperEpochChanged documentEpoch => exact hdestroy
  rcases hgreeted.next hnext with ⟨hzero,durableSeq,readWrite,hframe⟩ | ⟨hone,bytes,hframe⟩ | ⟨htwo,hplain⟩
  · exact hjoin durableSeq readWrite (List.length_eq_zero_iff.mp hzero) hframe
  · exact hlater bytes hone hframe
  · exact hrest htwo hplain

end LatexCore.Collaboration
