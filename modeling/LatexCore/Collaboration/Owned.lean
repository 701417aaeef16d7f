import LatexCore.Collaboration.Inside
import LatexCore.Collaboration.SaveStates

/-! # Turns and the own operations of a session

What each turn does to the operations that the document of a session has as its
own, and how it numbers the update that it sends: a turn sends at most one, under
the next number of the client.
-/
namespace LatexCore.Collaboration
open Core Foundation
variable {β Op : Type}

namespace CollaborationSession

structure Owns (s : CollaborationSession β Op (Finset Op)) (own : Finset Op) : Prop where
  connected : s.isOpen = true → s.connected = true
  connecting : s.socket = some .connecting → s.initialState = none
  unloaded : s.doc = none → s.destroyed = false → own = ∅ ∧ s.mounted = false ∧ s.initializing = false
  loading : s.initializing = true → s.destroyed = false → own = ∅ ∧ s.mounted = false
  doc : ∀ doc, s.doc = some doc → own ⊆ doc
  mounted : ∀ doc, s.doc = some doc → s.initializing = false → s.mounted = true

/-- The whole document has gone out on the present connection. -/
def Current (s : CollaborationSession β Op (Finset Op)) : Prop :=
  s.isOpen = true ∧ s.access = true ∧ s.initialState.isSome = true ∧ s.initializing = false

end CollaborationSession

inductive Turn.Sends (s : CollaborationSession β Op (Finset Op)) (turn : Turn β Op (Finset Op)) : Prop
  | nothing (frames : ∀ n bytes, .sourceUpdate n bytes ∉ turn.frames)
    (sequence : turn.session.clientSequence = s.clientSequence)
  | update (payload : β) (frames : turn.frames = [.sourceUpdate (s.clientSequence + 1) payload])
    (sequence : turn.session.clientSequence = s.clientSequence + 1)
    (pending : s.clientSequence + 1 ∈ turn.session.pending)

/-- A turn that owes nothing new: what becomes current or own goes out in it. -/
structure Turn.Owed (yrs : Yrs β Op) (s : CollaborationSession β Op (Finset Op)) (own : Finset Op)
    (acked : ℕ → Prop) (turn : Turn β Op (Finset Op)) (own' : Finset Op) : Prop where
  owns : turn.session.Owns own'
  sends : Turn.Sends s turn
  covered : turn.session.Current → ∀ op ∈ own', (s.Current ∧ op ∈ own) ∨
    ∃ payload, turn.frames = [.sourceUpdate (s.clientSequence + 1) payload] ∧ op ∈ yrs.ops payload
  pending : turn.session.Current → ∀ n ∈ s.pending, n ∈ turn.session.pending ∨ acked n

variable {yrs : Yrs β Op} {s s' : CollaborationSession β Op (Finset Op)} {turn : Turn β Op (Finset Op)}
  {own own' : Finset Op} {acked : ℕ → Prop}

theorem CollaborationSession.Owns.of_same (h : s.Owns own) (hsocket : s'.socket = s.socket)
    (hconnected : s'.connected = s.connected) (hinitial : s'.initialState = s.initialState)
    (hdoc : s'.doc = s.doc) (hdestroyed : s'.destroyed = s.destroyed)
    (hinitializing : s'.initializing = s.initializing) (hmounted : s'.mounted = s.mounted) : s'.Owns own := by
  have hopen : s'.isOpen = s.isOpen := by
    simp only [CollaborationSession.isOpen,hsocket]
  refine ⟨?_,?_,?_,?_,?_,?_⟩
  · rw [hopen,hconnected]
    exact h.connected
  · rw [hsocket,hinitial]
    exact h.connecting
  · rw [hdoc,hdestroyed,hmounted,hinitializing]
    exact h.unloaded
  · rw [hinitializing,hdestroyed,hmounted]
    exact h.loading
  · rw [hdoc]
    exact h.doc
  · rw [hdoc,hinitializing,hmounted]
    exact h.mounted

theorem CollaborationSession.Owns.destroy : s.destroy.Owns own := by
  refine ⟨?_,?_,?_,?_,?_,?_⟩
  · intro hopen
    cases hopen
  · intro hsocket
    cases hsocket
  · intro _ hdestroyed
    cases hdestroyed
  · intro _ hdestroyed
    cases hdestroyed
  · intro doc hdoc
    cases hdoc
  · intro doc hdoc
    cases hdoc

namespace Turn.Owed

theorem silent (howns : turn.session.Owns own) (hframes : ∀ n bytes, .sourceUpdate n bytes ∉ turn.frames)
    (hsequence : turn.session.clientSequence = s.clientSequence) (hcurrent : turn.session.Current → s.Current)
    (hpending : turn.session.Current → ∀ n ∈ s.pending, n ∈ turn.session.pending ∨ acked n) :
    Turn.Owed yrs s own acked turn own :=
  ⟨howns,.nothing hframes hsequence,fun hc _ hop => Or.inl ⟨hcurrent hc,hop⟩,hpending⟩

theorem quiet (howns : s'.Owns own) (hsequence : s'.clientSequence = s.clientSequence)
    (hcurrent : s'.Current → s.Current) (hpending : s'.Current → ∀ n ∈ s.pending, n ∈ s'.pending ∨ acked n) :
    Turn.Owed yrs s own acked s'.quiet own := by
  refine silent howns ?_ hsequence hcurrent hpending
  intro n bytes hmem
  cases hmem

theorem apart (howns : s'.Owns own') (hsequence : s'.clientSequence = s.clientSequence)
    (hcurrent : ¬s'.Current) : Turn.Owed yrs s own acked s'.quiet own' := by
  refine ⟨howns,.nothing ?_ hsequence,fun hc => absurd hc hcurrent,fun hc => absurd hc hcurrent⟩
  intro n bytes hmem
  cases hmem

theorem destroy : Turn.Owed yrs s own acked s.destroy.quiet own := by
  refine apart .destroy rfl ?_
  rintro ⟨hopen,-⟩
  cases hopen

theorem sendUpdate (howns : s'.Owns own') (hsequence : s'.clientSequence = s.clientSequence)
    (hsame : s'.pending = s.pending) {update : β}
    (hnew : s'.Current → ∀ op ∈ own', (s.Current ∧ op ∈ own) ∨ op ∈ yrs.ops update) :
    Turn.Owed yrs s own acked (s'.sendUpdate update) own' := by
  unfold CollaborationSession.sendUpdate
  split
  · refine ⟨howns.of_same rfl rfl rfl rfl rfl rfl rfl,.update update ?_ ?_ ?_,?_,?_⟩
    · simp only [hsequence]
    · simp only [hsequence]
    · simp only [hsequence]
      exact List.mem_append_right _ (List.mem_singleton_self _)
    · intro hc op hop
      refine (hnew hc op hop).imp_right (fun hin => ⟨update,?_,hin⟩)
      simp only [hsequence]
    · intro _ n hn
      refine Or.inl (List.mem_append_left _ ?_)
      rw [hsame]
      exact hn
  · next hclosed =>
    exact apart howns hsequence (fun hc => hclosed hc.1)

/-- The whole document goes out. -/
theorem publish {doc : Finset Op} (howns : s'.Owns own') (hsequence : s'.clientSequence = s.clientSequence)
    (hsame : s'.pending = s.pending) (hdoc : own' ⊆ doc) :
    Turn.Owed yrs s own acked (s'.publish yrs doc) own' := by
  unfold CollaborationSession.publish
  split
  · refine sendUpdate howns hsequence hsame (fun _ op hop => Or.inr ?_)
    rw [mem_ops (yrs.decode_encode doc)]
    exact hdoc hop
  · next haccess => exact apart howns hsequence (fun hc => haccess hc.2.1)

theorem flush (h : s.Owns own) (before : Finset Op) : Turn.Owed yrs s own acked (s.flush before) own := by
  unfold CollaborationSession.flush
  split
  · refine silent h ?_ rfl id (fun _ n hn => Or.inl hn)
    intro n bytes hmem
    cases hmem
  · split
    · exact quiet h rfl id (fun _ n hn => Or.inl hn)
    · refine silent (h.of_same rfl rfl rfl rfl rfl rfl rfl) ?_ rfl id (fun _ n hn => Or.inl hn)
      intro n bytes hmem
      cases List.mem_singleton.mp hmem

variable [DecidableEq Op]

/-- What is typed goes out with the document that holds it. -/
theorem edit (h : s.Owns own) (ops : Finset Op) : Turn.Owed yrs s own acked (s.edit yrs ops)
    (if s.doc.isSome && s.mounted && s.editable then own ∪ ops else own) := by
  unfold CollaborationSession.edit
  cases hdoc : s.doc with
  | none => exact quiet h rfl id (fun _ n hn => Or.inl hn)
  | some doc =>
    simp only [Option.isSome_some,Bool.true_and]
    split
    · next hmounted =>
      have howns : CollaborationSession.Owns { s with doc := some (doc ∪ ops) } (own ∪ ops) := by
        refine ⟨h.connected,h.connecting,?_,?_,?_,?_⟩
        · intro hnone
          cases hnone
        · intro hinitializing hdestroyed
          rw [(h.loading hinitializing hdestroyed).2] at hmounted
          cases hmounted
        · intro d hd
          cases hd
          exact Finset.union_subset_union_left (h.doc doc hdoc)
        · intro d _ hinitializing
          exact h.mounted doc hdoc hinitializing
      split
      · refine sendUpdate (s := s) howns rfl rfl (fun hc op hop => ?_)
        rw [mem_ops (yrs.decode_encode ops)]
        exact (Finset.mem_union.mp hop).imp (fun hin => ⟨hc,hin⟩) (fun hin => hin)
      · next hapart =>
        refine apart howns rfl ?_
        rintro ⟨hopen,haccess,-⟩
        apply hapart
        rw [show s.connected = true from h.connected hopen,show s.access = true from haccess]
        rfl
    · exact quiet h rfl id (fun _ n hn => Or.inl hn)

/-- `initializeOrMerge` with an initial state that decodes. -/
theorem initializeOrMerge (h : s'.Owns own) (hsequence : s'.clientSequence = s.clientSequence)
    (hpending : s'.pending = s.pending) (hdestroyed : s'.destroyed = false)
    (hreadable : ∀ bytes, s'.initialState = some bytes → ∃ update, yrs.decodeV1 bytes = .ok update)
    (hmetadata : s'.metadata.isSome = true) (hinitial : s'.initialState.isSome = true) :
    Turn.Owed yrs s own acked (s'.initializeOrMerge yrs) own := by
  unfold CollaborationSession.initializeOrMerge
  split
  · next metadata bytes hmeta hbytes =>
    split
    · next hinitializing =>
      refine apart h hsequence ?_
      rintro ⟨-,-,-,hnot⟩
      rw [hinitializing] at hnot
      cases hnot
    · split
      · next hdoc =>
        obtain ⟨hown,hmounted,-⟩ := h.unloaded hdoc hdestroyed
        refine apart ⟨h.connected,h.connecting,?_,fun _ _ => ⟨hown,hmounted⟩,?_,?_⟩ hsequence ?_
        · intro hnone
          cases hnone
        · intro doc _
          rw [hown]
          exact Finset.empty_subset doc
        · intro _ _ hnot
          cases hnot
        · rintro ⟨-,-,-,hnot⟩
          cases hnot
      · next doc hdoc =>
        obtain ⟨update,hdec⟩ := hreadable bytes hbytes
        have happly : applyUpdate yrs doc bytes = .ok (doc ∪ update) := (applyUpdate_ok yrs).mpr ⟨update,hdec,rfl⟩
        rw [happly]
        have hsub : own ⊆ doc ∪ update := (h.doc doc hdoc).trans Finset.subset_union_left
        refine publish ⟨h.connected,h.connecting,?_,h.loading,?_,?_⟩ hsequence hpending hsub
        · intro hnone
          cases hnone
        · intro d hd
          cases hd
          exact hsub
        · intro d _ hnot
          exact h.mounted doc hdoc hnot
  · next hnone =>
    obtain ⟨m,hm⟩ := Option.isSome_iff_exists.mp hmetadata
    obtain ⟨b,hb⟩ := Option.isSome_iff_exists.mp hinitial
    exact absurd hb (hnone m b hm)

theorem applyAll_readable (doc : Finset Op) (updates : List β)
    (hupdates : ∀ bytes ∈ updates, ∃ update, yrs.decodeV1 bytes = .ok update) :
    ∃ doc', CollaborationSession.applyAll yrs doc updates = .ok doc' ∧ doc ⊆ doc' := by
  induction updates generalizing doc with
  | nil => exact ⟨doc,rfl,Finset.Subset.refl doc⟩
  | cons bytes rest ih =>
    obtain ⟨update,hdec⟩ := hupdates bytes (List.mem_cons_self ..)
    have happly : applyUpdate yrs doc bytes = .ok (doc ∪ update) := (applyUpdate_ok yrs).mpr ⟨update,hdec,rfl⟩
    obtain ⟨doc',hall,hsub⟩ := ih (doc ∪ update) (fun b hb => hupdates b (List.mem_cons_of_mem _ hb))
    refine ⟨doc',?_,Finset.subset_union_left.trans hsub⟩
    rw [CollaborationSession.applyAll,bind_ok]
    exact ⟨doc ∪ update,happly,hall⟩

theorem synced (h : s.Owns own) (hgone : s.destroyed = true → s.socket = none) (restored : Finset Op)
    (hreadable : ∀ bytes, s.initialState = some bytes → ∃ update, yrs.decodeV1 bytes = .ok update)
    (hbuffered : ∀ bytes ∈ s.bufferedRemote, ∃ update, yrs.decodeV1 bytes = .ok update)
    (hinitial : s.doc.isSome = true → s.initializing = true → s.initialState.isSome = true) :
    Turn.Owed yrs s own acked (s.synced yrs restored)
      (if s.initializing && s.doc.isSome then own ∪ restored else own) := by
  unfold CollaborationSession.synced
  cases hinitializing : s.initializing with
  | false => exact quiet h rfl id (fun _ n hn => Or.inl hn)
  | true =>
    simp only [Bool.not_true,Bool.false_eq_true,if_false,Bool.true_and]
    cases hdoc : s.doc with
    | none =>
      refine apart ⟨h.connected,h.connecting,?_,?_,?_,?_⟩ rfl ?_
      · intro hnone hdestroyed
        have hnot := (h.unloaded hdoc hdestroyed).2.2
        rw [hinitializing] at hnot
        cases hnot
      · intro hnot
        cases hnot
      · intro doc hd
        cases hd
      · intro doc hd
        cases hd
      · rintro ⟨hopen,-⟩
        have hdestroyed : s.destroyed = false := by
          cases hd : s.destroyed with
          | false => rfl
          | true =>
            simp [CollaborationSession.isOpen,hgone hd] at hopen
        have hnot := (h.unloaded hdoc hdestroyed).2.2
        rw [hinitializing] at hnot
        cases hnot
    | some doc =>
      obtain ⟨bytes,hbytes⟩ := Option.isSome_iff_exists.mp (hinitial (by rw [hdoc]; rfl) hinitializing)
      obtain ⟨doc',hall,hsub⟩ := applyAll_readable (doc ∪ restored) (bytes :: s.bufferedRemote) (by
          intro b hb
          rcases List.mem_cons.mp hb with rfl | hb
          · exact hreadable b hbytes
          · exact hbuffered b hb)
      have hown : own ∪ restored ⊆ doc' := (Finset.union_subset_union_left (h.doc doc hdoc)).trans hsub
      simp only [hbytes,hall,Option.isSome_some,if_true]
      have hconnecting : s.socket = some .connecting → some bytes = none := hbytes ▸ h.connecting
      refine publish ⟨h.connected,hconnecting,?_,?_,?_,?_⟩ rfl rfl hown
      · intro hnone
        cases hnone
      · intro hnot
        cases hnot
      · intro d hd
        cases hd
        exact hown
      · intro _ _ _
        rfl

omit [DecidableEq Op] in
/-- The session has learnt nothing from its connection yet. -/
theorem waiting (howns : s'.Owns own) (hsequence : s'.clientSequence = s.clientSequence)
    (hinitial : s'.initialState = none) : Turn.Owed yrs s own acked s'.quiet own := by
  refine apart howns hsequence ?_
  rintro ⟨-,-,hsome,-⟩
  rw [hinitial] at hsome
  cases hsome

/-- A frame of the connection; a number leaves the pending ones with its acknowledgement. -/
theorem receive {socket : Socket β} {epoch : ℕ} {frames : List (Frame β)} {frame : Frame β} (h : s.Owns own)
    (hlinked : s.Linked socket) (hopen : s.isOpen = true) (hdestroyed : s.destroyed = false)
    (hgreeted : Greeted epoch frames) (hnext : frames[socket.received.length]? = some frame)
    (hreadable : ∀ bytes, frame.payload? = some bytes → ∃ update, yrs.decodeV1 bytes = .ok update)
    (hacked : ∀ n durableSeq, frame = .control (.durableAck n durableSeq) → acked n) :
    Turn.Owed yrs s own acked (s.receive yrs frame) own := by
  have hsocket : s.socket = some .opened := by
    rwa [CollaborationSession.isOpen,beq_iff_eq] at hopen
  rcases hgreeted.next hnext with ⟨hzero,durableSeq,readWrite,rfl⟩ | ⟨hone,bytes,rfl⟩ | ⟨-,hplain⟩
  · have hfirst : s.initialState = none := by
      rw [← Option.not_isSome_iff_eq_none,hlinked.initial,hzero]
      simp
    simp only [CollaborationSession.receive]
    split
    · exact destroy
    · rw [initializeOrMerge_quiet (by exact hfirst)]
      exact waiting (h.of_same rfl rfl rfl rfl rfl rfl rfl) rfl hfirst
  · have hmeta : s.metadata.isSome = true := by
      apply hlinked.metadata.mpr
      intro hnil
      rw [hnil] at hone
      cases hone
    refine initializeOrMerge ⟨h.connected,?_,h.unloaded,h.loading,h.doc,h.mounted⟩ rfl rfl hdestroyed ?_ hmeta rfl
    · intro hconnecting
      rw [show s.socket = some .connecting from hconnecting] at hsocket
      cases hsocket
    · intro b hb
      cases hb
      exact hreadable bytes rfl
  · cases frame with
    | joinAccepted documentEpoch durableSeq readWrite => cases hplain
    | initialState bytes => cases hplain
    | remoteSourceUpdate bytes =>
      simp only [CollaborationSession.receive]
      split
      · next doc hdoc =>
        obtain ⟨update,hdec⟩ := hreadable bytes rfl
        rw [(applyUpdate_ok yrs).mpr ⟨update,hdec,rfl⟩]
        refine quiet ⟨h.connected,h.connecting,?_,h.loading,?_,?_⟩ rfl id (fun _ n hn => Or.inl hn)
        · intro hnone
          cases hnone
        · intro d hd
          cases hd
          exact (h.doc doc hdoc).trans Finset.subset_union_left
        · intro d _ hnot
          exact h.mounted doc hdoc hnot
      · exact quiet (h.of_same rfl rfl rfl rfl rfl rfl rfl) rfl id (fun _ n hn => Or.inl hn)
    | flushed sequence =>
      refine silent (h.of_same rfl rfl rfl rfl rfl rfl rfl) ?_ rfl id (fun _ n hn => Or.inl hn)
      intro n bytes hmem
      cases hmem
    | remoteDurable sequence => exact quiet h rfl id (fun _ n hn => Or.inl hn)
    | control message =>
      cases message with
      | durableAck clientSeq durableSeq =>
        refine quiet (h.of_same rfl rfl rfl rfl rfl rfl rfl) rfl id (fun _ n hn => ?_)
        by_cases heq : n = clientSeq
        · exact Or.inr (heq ▸ hacked clientSeq durableSeq rfl)
        · exact Or.inl (List.mem_filter.mpr ⟨hn,bne_iff_ne.mpr heq⟩)
      | error code text => exact quiet h rfl id (fun _ n hn => Or.inl hn)
    | reloadRequired reason => exact destroy
    | policyChanged message => exact destroy
    | paperEpochChanged documentEpoch => exact destroy

end Turn.Owed
end LatexCore.Collaboration
