import LatexCore.Collaboration.Reactions

/-! # Turns of a session and its promises

What each turn of a session does to the promises that wait for a flush. Only a
call of flush adds one and only an answer resolves them; they are dropped with
the socket that they wait on.
-/
namespace LatexCore.Collaboration
open Core Foundation
variable {β Op : Type}

structure Turn.Holds (s : CollaborationSession β Op (Finset Op)) (turn : Turn β Op (Finset Op)) : Prop where
  socket : turn.session.isOpen = true → s.isOpen = true
  waiters : ∀ waiter ∈ turn.session.flushWaiters, turn.session.isOpen = s.isOpen ∧
    ∃ old ∈ s.flushWaiters, old.promise = waiter.promise
  resolved : turn.resolved = []

namespace Turn.Holds
variable {s s' : CollaborationSession β Op (Finset Op)} {turn : Turn β Op (Finset Op)}

theorem same {frames : List (ClientFrame β)} (hsocket : s'.socket = s.socket)
    (hwaiters : s'.flushWaiters = s.flushWaiters) : Turn.Holds s ⟨s',frames,[]⟩ := by
  have hopen : s'.isOpen = s.isOpen := by
    simp only [CollaborationSession.isOpen,hsocket]
  refine ⟨fun h => hopen ▸ h,?_,rfl⟩
  intro waiter hmem
  exact ⟨hopen,waiter,hwaiters ▸ hmem,rfl⟩

theorem ended (hsocket : s'.isOpen = false) (hwaiters : s'.flushWaiters = []) :
    Turn.Holds s s'.quiet := by
  refine ⟨?_,?_,rfl⟩
  · intro hopen
    change s'.isOpen = true at hopen
    rw [hsocket] at hopen
    cases hopen
  · intro waiter hmem
    change waiter ∈ s'.flushWaiters at hmem
    rw [hwaiters] at hmem
    cases hmem

theorem of_same (h : Turn.Holds s' turn) (hsocket : s'.socket = s.socket)
    (hwaiters : s'.flushWaiters = s.flushWaiters) : Turn.Holds s turn := by
  have hopen : s'.isOpen = s.isOpen := by
    simp only [CollaborationSession.isOpen,hsocket]
  refine ⟨fun ho => hopen ▸ h.socket ho,?_,h.resolved⟩
  intro waiter hmem
  obtain ⟨ho,old,hold,heq⟩ := h.waiters waiter hmem
  exact ⟨ho.trans hopen,old,hwaiters ▸ hold,heq⟩

theorem sendUpdate (s : CollaborationSession β Op (Finset Op)) (update : β) :
    Turn.Holds s (s.sendUpdate update) := by
  unfold CollaborationSession.sendUpdate
  split <;> exact same rfl rfl

variable (yrs : Yrs β Op)

theorem publish (s : CollaborationSession β Op (Finset Op)) (doc : Finset Op) :
    Turn.Holds s (s.publish yrs doc) := by
  unfold CollaborationSession.publish
  split
  · exact sendUpdate s _
  · exact same rfl rfl

theorem timeOut (s : CollaborationSession β Op (Finset Op)) (index : ℕ) :
    Turn.Holds s (s.timeOut index).quiet := by
  refine ⟨fun h => h,?_,rfl⟩
  intro waiter hmem
  refine ⟨rfl,?_⟩
  obtain ⟨i,hi,hget⟩ := List.mem_iff_getElem.mp hmem
  simp only [CollaborationSession.timeOut,CollaborationSession.quiet,List.length_modify] at hi
  simp only [CollaborationSession.timeOut,CollaborationSession.quiet,List.getElem_modify] at hget
  refine ⟨s.flushWaiters[i],List.getElem_mem hi,?_⟩
  rw [← hget]
  split <;> rfl

variable [DecidableEq Op]

theorem initializeOrMerge (s : CollaborationSession β Op (Finset Op)) :
    Turn.Holds s (s.initializeOrMerge yrs) := by
  unfold CollaborationSession.initializeOrMerge
  split
  · split
    · exact same rfl rfl
    · split
      · exact same rfl rfl
      · split
        · exact same rfl rfl
        · exact (publish yrs _ _).of_same rfl rfl
  · exact same rfl rfl

theorem synced (s : CollaborationSession β Op (Finset Op)) (restored : Finset Op) :
    Turn.Holds s (s.synced yrs restored) := by
  unfold CollaborationSession.synced
  split
  · exact same rfl rfl
  · split
    · split
      · exact same rfl rfl
      · exact (publish yrs _ _).of_same rfl rfl
    · exact same rfl rfl
    · exact same rfl rfl

theorem edit (s : CollaborationSession β Op (Finset Op)) (ops : Finset Op) :
    Turn.Holds s (s.edit yrs ops) := by
  unfold CollaborationSession.edit
  split
  · split
    · dsimp only
      split
      · exact (sendUpdate _ _).of_same rfl rfl
      · exact same rfl rfl
    · exact same rfl rfl
  · exact same rfl rfl

/-- Only the answer to a flush resolves promises. -/
theorem receive (s : CollaborationSession β Op (Finset Op)) {frame : Frame β}
    (hframe : ∀ sequence, frame ≠ .flushed sequence) : Turn.Holds s (s.receive yrs frame) := by
  cases frame with
  | joinAccepted documentEpoch durableSeq readWrite =>
    simp only [CollaborationSession.receive]
    split
    · exact ended rfl rfl
    · exact (initializeOrMerge yrs _).of_same rfl rfl
  | initialState bytes => exact (initializeOrMerge yrs _).of_same rfl rfl
  | remoteSourceUpdate bytes =>
    simp only [CollaborationSession.receive]
    split
    · split <;> exact same rfl rfl
    · exact same rfl rfl
  | remoteDurable sequence => exact same rfl rfl
  | control message => cases message <;> exact same rfl rfl
  | flushed sequence => exact absurd rfl (hframe sequence)
  | reloadRequired reason => exact ended rfl rfl
  | policyChanged message => exact ended rfl rfl
  | paperEpochChanged documentEpoch => exact ended rfl rfl

end Turn.Holds

end LatexCore.Collaboration
