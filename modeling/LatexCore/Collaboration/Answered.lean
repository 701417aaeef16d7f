import LatexCore.Collaboration.Answers
import LatexCore.Collaboration.Tabs

/-! # Steps of a room between flush and answer

Each step of the tasks around a room keeps the order of flushes and updates, the
frame that a connection takes next included.
-/
namespace LatexCore.Collaboration
open Core Foundation
variable {β Op : Type} {yrs : Yrs β Op} {document : DocumentKey} {s : Session β Op}
  {taken : Uuid → List (ClientFrame β)} {received : Uuid → List (Frame β)} {id : Uuid} {c c' : Connection β}

theorem Connection.closes_of_phase {join : RoomJoin β} {stage : Stage} {cursor : ℕ}
    (h : c.phase = .subscribed stage join cursor) : c.closes = false := by
  unfold Connection.closes
  rw [h]

namespace Session.Answered

/-! ## Connections -/

theorem continues (h : s.Answered yrs document taken received) (hget : s.connections.get? id = some c)
    (hopen : c.closes = false) (hphase : ∀ join cursor, c.phase ≠ .subscribed .flushing join cursor)
    (hc : c.Continues c') : (s.proceed id c').Answered yrs document taken received :=
  h.proceed hget (Or.inl (h.idle hget hphase)) ((h.connection id c hget).continues hc (fun _ => hopen))

theorem serving (h : s.Answered yrs document taken received) (hget : s.connections.get? id = some c)
    {join : RoomJoin β} {cursor : ℕ} {stage : Stage} (hphase : c.phase = .subscribed stage join cursor)
    (hstage : stage ≠ .flushing) (hc : c.Continues c') : (s.proceed id c').Answered yrs document taken received := by
  refine h.continues hget (Connection.closes_of_phase hphase) ?_ hc
  intro join' cursor' hflushing
  rw [hphase] at hflushing
  cases hflushing
  exact hstage rfl

theorem whenServing {arm : Connection β → RoomJoin β → ℕ → Session β Op}
    (hidle : s.serves id = false → s.Answered yrs document taken received)
    (harm : ∀ c join cursor, s.serves id = true → s.connections.get? id = some c →
      c.phase = .subscribed .serving join cursor → (arm c join cursor).Answered yrs document taken received) :
    (s.whenServing id arm).Answered yrs document taken received := by
  unfold Session.whenServing
  split
  · next c hget =>
    split
    · next join cursor hphase =>
      exact harm c join cursor (by simp only [Session.serves,hget,hphase]) hget hphase
    · next hother =>
      apply hidle
      simp only [Session.serves,hget]
  · next hnone =>
    apply hidle
    rw [Session.serves,hnone]

theorem enter (h : s.Answered yrs document taken received) (id : Uuid) (readWrite : Bool) :
    (s.enter id readWrite).Answered yrs document taken received := by
  unfold Session.enter
  split
  · exact h
  · next connections hins =>
    have hget := Table.get?_insert? hins
    have hnone := (Table.insert?_eq_some hins).1
    have hentered : Session.Answered yrs document { s with connections := connections } taken received := by
      refine ⟨h.sound,?_,h.queue,?_,?_⟩
      · intro x hx
        rw [hget] at hx
        split at hx
        · cases hx
        · exact h.absent x hx
      · intro x entry hentry hflush
        obtain ⟨d,join,cursor,hd,hphase⟩ := h.flushing x entry hentry hflush
        refine ⟨d,join,cursor,?_,hphase⟩
        rw [hget,if_neg]
        · exact hd
        · rintro rfl
          rw [hnone] at hd
          cases hd
      · intro x d hd
        rw [hget] at hd
        split at hd
        · next hx =>
          cases hd
          subst hx
          have hquiet : s.mailbox.countP (isFlushOf x) = 0 := by
            rw [List.countP_eq_zero]
            intro entry hentry hflush
            obtain ⟨d,_,_,hd,_⟩ := h.flushing x entry hentry hflush
            rw [hnone] at hd
            cases hd
          obtain ⟨htaken,hreceived⟩ := h.absent x hnone
          rw [htaken,hreceived]
          refine ⟨?_,?_,?_,?_,List.nil_prefix⟩
          · rintro - op ⟨sequence,payload,hmem,-⟩
            cases hmem
          · dsimp only
            rw [hquiet]
            exact Nat.zero_le _
          · intro before sequence after hsplit
            have hlength := congrArg List.length hsplit
            simp [Connection.enter] at hlength
          · intro message hmessage
            cases hmessage
        · have hold := h.connection x d hd
          exact ⟨hold.applied,hold.asked,hold.answered,hold.controls,hold.received⟩
    exact hentered.post (fun _ => rfl) (fun x hx => by cases hx)

theorem subscribe (h : s.Answered yrs document taken received) (id : Uuid) :
    (s.subscribe id).Answered yrs document taken received := by
  unfold Session.subscribe
  split
  · next c hget =>
    split
    · next join hphase =>
      refine h.continues hget ?_ ?_ (.phase c _)
      · unfold Connection.closes
        rw [hphase]
      · intro join' cursor' hflushing
        rw [hphase] at hflushing
        cases hflushing
    · exact h
  · exact h

theorem greet (h : s.Answered yrs document taken received) (documentEpoch : ℕ) (id : Uuid)
    (accepted initial : Bool) : (s.greet documentEpoch id accepted initial).Answered yrs document taken received := by
  unfold Session.greet
  split
  · next c hget =>
    split
    · next join cursor hphase =>
      have hfirst := Connection.Continues.send c
        (.joinAccepted documentEpoch join.durableSequence c.readWrite) rfl accepted
      dsimp only
      split
      · exact h.serving hget hphase (by simp) hfirst
      · exact h.serving hget hphase (by simp) ((hfirst.trans (.phase _ _)).trans (.send _ _ rfl initial))
    · exact h
  · exact h

theorem receive (h : s.Answered yrs document taken received) (id : Uuid) (sends : Bool) :
    (s.receive id sends).Answered yrs document taken received := by
  refine whenServing (fun _ => h) ?_
  intro c join cursor _ hget hphase
  exact h.serving hget hphase (by simp) (.receive id c join cursor s.sent sends)

theorem control (h : s.Answered yrs document taken received) (id : Uuid) (sends : Bool) :
    (s.control id sends).Answered yrs document taken received := by
  refine whenServing (fun _ => h) ?_
  intro c join cursor _ hget hphase
  split
  · exact h
  · next message rest hcontrols =>
    have hmem : message ∈ c.controls := by
      rw [hcontrols]
      exact List.mem_cons_self ..
    have hforwarded : c.Continues { c with controls := rest } := by
      refine ⟨⟨[],(List.append_nil _).symm,rfl⟩,?_⟩
      rw [hcontrols]
      exact List.subset_cons_self ..
    exact h.serving hget hphase (by simp)
      (hforwarded.trans (.send _ (.control message) ((h.connection id c hget).controls message hmem) sends))

/-! ## Incoming frames -/

theorem record (h : s.Answered yrs document taken received) (hget : s.connections.get? id = some c)
    (frame : ClientFrame β)
    (happlied : c.closes = false → updateOps yrs [frame] ⊆ ↑s.actor.room.doc ∪ queued yrs s.mailbox id) :
    s.Answered yrs document (Function.update taken id (taken id ++ [frame])) received := by
  refine ⟨h.sound,?_,h.queue,h.flushing,?_⟩
  · intro x hx
    have hne : x ≠ id := by
      rintro rfl
      rw [hget] at hx
      cases hx
    rw [Function.update_of_ne hne]
    exact h.absent x hx
  · intro x d hd
    have hold := h.connection x d hd
    by_cases hx : x = id
    · subst hx
      rw [hget] at hd
      cases hd
      rw [Function.update_self]
      refine ⟨?_,?_,?_,hold.controls,hold.received⟩
      · intro hopen
        rw [updateOps_append]
        exact Set.union_subset (hold.applied hopen) (happlied hopen)
      · rw [flushes_append]
        exact hold.asked.trans (Nat.le_add_right _ _)
      · intro before sequence after hsplit
        rw [beforeFlush_append (hold.lt hsplit)]
        exact hold.answered before sequence after hsplit
    · rw [Function.update_of_ne hx]
      exact hold

theorem proceed_get? (hget : s.connections.get? id = some c) (c' : Connection β) :
    (s.proceed id c').connections.get? id = some c' := by
  change (s.connections.modify id _).get? id = _
  rw [Table.get?_modify,if_pos rfl,hget,Option.map_some]

theorem ended (h : s.Answered yrs document taken received) (hget : s.connections.get? id = some c)
    {join : RoomJoin β} {cursor : ℕ} (hphase : c.phase = .subscribed .serving join cursor)
    (hc : c.Continues c') (hclosed : c'.closes = true) (frame : ClientFrame β) :
    (s.proceed id c').Answered yrs document (Function.update taken id (taken id ++ [frame])) received := by
  refine (h.serving hget hphase (by simp) hc).record (proceed_get? hget c') frame ?_
  intro hopen
  rw [hclosed] at hopen
  cases hopen

theorem ask (h : s.Answered yrs document taken received) (hget : s.connections.get? id = some c)
    {join : RoomJoin β} {cursor : ℕ} (hphase : c.phase = .subscribed .serving join cursor) :
    Session.Answered yrs document
      { s.proceed id { c with phase := .subscribed .flushing join cursor } with
        mailbox := s.mailbox ++ [(id,.flush)] } (Function.update taken id (taken id ++ [.flush])) received := by
  have hidle := h.idle hget (fun join' cursor' hflushing => by
    rw [hphase] at hflushing
    cases hflushing)
  have hquiet : updateOps yrs ([.flush] : List (ClientFrame β)) ⊆
      ↑s.actor.room.doc ∪ queued yrs s.mailbox id := by
    rw [updateOps_singleton]
    exact Set.empty_subset _
  have hmoved := h.modify id (fun _ => { c with phase := .subscribed .flushing join cursor }) (fun d hd =>
    ⟨(h.connection id c hget).continues (.phase c _) (fun _ => Connection.closes_of_phase hphase),
      Or.inl hidle⟩)
  have hwaits := hmoved.record (proceed_get? hget _) .flush (fun _ => hquiet)
  refine ⟨hwaits.sound,hwaits.absent,?_,?_,?_⟩
  · intro x
    refine List.pairwise_append.mpr ⟨h.queue x,List.pairwise_singleton _ _,?_⟩
    intro a ha b hb hflush
    rw [List.mem_singleton.mp hb]
    refine ⟨?_,by simp [RoomCommand.source?]⟩
    by_cases hx : id = x
    · subst hx
      rw [hidle a ha] at hflush
      cases hflush
    · simp [isFlushOf,hx]
  · intro x entry hentry hflush
    rcases List.mem_append.mp hentry with hentry | hentry
    · exact hwaits.flushing x entry hentry hflush
    · rw [List.mem_singleton.mp hentry] at hflush
      obtain rfl : id = x := by simpa [isFlushOf] using hflush
      exact ⟨_,join,cursor,proceed_get? hget _,rfl⟩
  · intro x d hd
    have hold := hwaits.connection x d hd
    refine ⟨?_,?_,hold.answered,hold.controls,hold.received⟩
    · intro hopen
      exact (hold.applied hopen).trans (Set.union_subset_union_right _
        (queued_mono (List.subset_append_left _ _) x))
    · rw [List.countP_append,List.countP_singleton]
      by_cases hx : id = x
      · subst hx
        obtain rfl : _ = d := Option.some.inj ((proceed_get? hget _).symm.trans hd)
        have hasked := (h.connection id c hget).asked
        rw [Function.update_self,flushes_append]
        have hone : flushes ([.flush] : List (ClientFrame β)) = 1 := rfl
        have hcount : (if isFlushOf id ((id,.flush) : Uuid × RoomCommand β) = true then 1 else 0) ≤ 1 := by
          split <;> omega
        dsimp only at hasked ⊢
        omega
      · have hno : isFlushOf x ((id,.flush) : Uuid × RoomCommand β) = false := by simp [isFlushOf,hx]
        rw [hno]
        exact hold.asked

theorem incoming (h : s.Answered yrs document taken received) (hserves : s.serves id = true) (user : UserId)
    (frame : ClientFrame β) (authorized sends : Bool) :
    (s.incoming yrs id user frame authorized sends).Answered yrs document
      (Function.update taken id (taken id ++ [frame])) received := by
  refine whenServing (fun hno => by rw [hserves] at hno; cases hno) ?_
  intro c join cursor _ hget hphase
  have hrefuse : ∀ code message, (Control.error code message).isDurability = false →
      (s.proceed id (c.sendLast (.control (.error code message)) sends)).Answered yrs document
        (Function.update taken id (taken id ++ [frame])) received := by
    intro code message hno
    exact h.ended hget hphase (.sendLast c (.control (.error code message)) hno sends) rfl frame
  have hclose : (s.proceed id { c with phase := .closed }).Answered yrs document
      (Function.update taken id (taken id ++ [frame])) received :=
    h.ended hget hphase (.phase c _) rfl frame
  have hsame : updateOps yrs [frame] = ∅ →
      s.Answered yrs document (Function.update taken id (taken id ++ [frame])) received := by
    intro hnone
    refine h.record hget frame (fun _ => ?_)
    rw [hnone]
    exact Set.empty_subset _
  cases frame with
  | empty => exact hrefuse _ _ rfl
  | truncated => exact hrefuse _ _ rfl
  | unknown => exact hrefuse _ _ rfl
  | flush => exact h.ask hget hphase
  | close => exact hclose
  | text => exact hsame (updateOps_singleton _)
  | ping =>
    cases sends with
    | true => exact hsame (updateOps_singleton _)
    | false => exact hclose
  | sourceUpdate clientSequence payload =>
    dsimp only
    split
    · exact hrefuse _ _ rfl
    split
    · exact hrefuse _ _ rfl
    split
    · exact hrefuse _ _ rfl
    split
    · exact hrefuse _ _ rfl
    have hidle := h.idle hget (fun join' cursor' hflushing => by
      rw [hphase] at hflushing
      cases hflushing)
    have hposted : Session.Answered yrs document
        { s with mailbox := s.mailbox ++ [(id,.apply id user clientSequence payload)] } taken received := by
      refine h.post (fun _ => rfl) ?_
      intro x hx
      cases hx
      exact hidle
    refine hposted.record hget _ ?_
    rintro - op hop
    rw [updateOps_singleton] at hop
    refine Or.inr ⟨_,List.mem_append_right _ (List.mem_singleton_self _),_,_,_,rfl,hop⟩

/-! ## Received frames -/

theorem prefix_next {α : Type} {frames more : List α} {frame : α} (h : frames <+: more)
    (hnext : more[frames.length]? = some frame) : ∃ rest, more = frames ++ frame :: rest := by
  obtain ⟨rest,rfl⟩ := h
  rw [List.getElem?_append_right (le_refl _),Nat.sub_self] at hnext
  cases rest with
  | nil => cases hnext
  | cons first rest =>
    cases hnext
    exact ⟨rest,rfl⟩

theorem receipt (h : s.Answered yrs document taken received) {frame : Frame β}
    (hnext : (s.framesOf id)[(received id).length]? = some frame) :
    s.Answered yrs document taken (Function.update received id (received id ++ [frame])) := by
  refine ⟨h.sound,?_,h.queue,h.flushing,?_⟩
  · intro x hx
    have hne : x ≠ id := by
      rintro rfl
      rw [Session.framesOf,hx] at hnext
      cases hnext
    rw [Function.update_of_ne hne]
    exact h.absent x hx
  · intro x c hget
    have hold := h.connection x c hget
    by_cases hx : x = id
    · subst hx
      rw [Session.framesOf,hget] at hnext
      obtain ⟨rest,hrest⟩ := prefix_next hold.received hnext
      rw [Function.update_self]
      exact ⟨hold.applied,hold.asked,hold.answered,hold.controls,⟨rest,by rw [hrest]; simp⟩⟩
    · rw [Function.update_of_ne hx]
      exact hold

theorem received_flushed (h : s.Answered yrs document taken received) {sequence : ℕ}
    (hnext : (s.framesOf id)[(received id).length]? = some (.flushed sequence)) :
    answerCount (received id) < flushes (taken id) ∧
      updateOps yrs (beforeFlush (answerCount (received id)) (taken id)) ⊆
        stored yrs document s.actor.database := by
  cases hget : s.connections.get? id with
  | none =>
    rw [Session.framesOf,hget] at hnext
    cases hnext
  | some c =>
    have hold := h.connection id c hget
    rw [Session.framesOf,hget] at hnext
    obtain ⟨rest,hrest⟩ := prefix_next hold.received hnext
    exact ⟨hold.lt hrest,hold.answered _ _ _ hrest⟩

end Session.Answered
end LatexCore.Collaboration
