import LatexCore.Collaboration.Session

/-! # What one step does to the connections

Every move that a step allows a connection, stated once. A step that accepts no
update lets each connection make at most one such move, only appends to the
broadcast, and puts updates into the mailbox only for connections that have
served; the invariants of a session are derived from this alone.
-/
namespace LatexCore.Collaboration
open Core Foundation
variable {β Op : Type} (yrs : Yrs β Op)

def RoomCommand.source? : RoomCommand β → Option Uuid
  | .apply source _ _ _ => some source
  | _ => none

/-- The connection has served, so it may have sent updates. -/
def Connection.opened (c : Connection β) : Bool :=
  match c.phase with
  | .subscribed .greeting _ _ => false
  | .subscribed _ _ _ => true
  | .closed => true
  | _ => false

def Session.Opened (s : Session β Op) (id : Uuid) : Prop :=
  ∃ c, s.connections.get? id = some c ∧ c.opened = true

inductive Moves (fresh : RoomJoin β → Prop) (doc : Finset Op) (sent : List (RoomEvent β)) (id : Uuid) (c c' : Connection β) : Prop
  | stays (phase : c'.phase = c.phase) (frames : c'.frames = c.frames)
  | closes (phase : c'.phase = .closed)
  | joins (join : RoomJoin β) (phase : c.phase = .joining) (next : c'.phase = .joined join)
      (frames : c'.frames = c.frames) (state : yrs.decodeV1 join.initialState = .ok doc)
  | subscribes (join : RoomJoin β) (phase : c.phase = .joined join)
      (next : c'.phase = .subscribed .greeting join sent.length) (frames : c'.frames = c.frames)
      (fresh : fresh join)
  | greets (join : RoomJoin β) (cursor : ℕ) (phase : c.phase = .subscribed .greeting join cursor)
      (next : c'.phase = .subscribed .serving join cursor) (frames : c.frames ⊆ c'.frames)
      (initial : .initialState join.initialState ∈ c'.frames)
  | serves (stage stage' : Stage) (join : RoomJoin β) (cursor : ℕ)
      (phase : c.phase = .subscribed stage join cursor)
      (next : c'.phase = .subscribed stage' join cursor) (open_ : stage ≠ .greeting)
      (still : stage' ≠ .greeting) (frames : c.frames ⊆ c'.frames)
  | advances (join : RoomJoin β) (cursor : ℕ) (event : RoomEvent β)
      (phase : c.phase = .subscribed .serving join cursor)
      (next : c'.phase = .subscribed .serving join (cursor + 1)) (frames : c.frames ⊆ c'.frames)
      (received : recv eventCapacity sent cursor = .value event)
      (delivered : ∀ source bytes, event = .update source bytes → source ≠ id →
        .remoteSourceUpdate bytes ∈ c'.frames)

/-- A step that accepts no update. -/
structure Evolves (fresh : RoomJoin β → Prop) (s s' : Session β Op) : Prop where
  doc : s'.actor.room.doc = s.actor.room.doc
  sent : ∃ events, s'.sent = s.sent ++ events
  forward : ∀ id c, s.connections.get? id = some c →
    ∃ c', s'.connections.get? id = some c' ∧ Moves yrs fresh s.actor.room.doc s.sent id c c'
  backward : ∀ id c', s'.connections.get? id = some c' → s.connections.get? id = none →
    c'.phase = .joining ∧ c'.frames = []
  mailbox : ∀ p ∈ s'.mailbox, p ∈ s.mailbox ∨ ∀ source, p.2.source? = some source → s.Opened source

variable {yrs} {s s' : Session β Op} {id : Uuid} {c c' : Connection β} {doc : Finset Op}
  {sent : List (RoomEvent β)} {fresh : RoomJoin β → Prop}

theorem Moves.opened (h : Moves yrs fresh doc sent id c c') (ho : c.opened = true) : c'.opened = true := by
  unfold Connection.opened at *
  cases h with
  | stays phase => rwa [phase]
  | closes phase => rw [phase]
  | joins join phase => simp [phase] at ho
  | subscribes join phase => simp [phase] at ho
  | greets join cursor phase => simp [phase] at ho
  | serves stage stage' join cursor phase next open_ still =>
    rw [next]
    cases stage' <;> first | rfl | exact absurd rfl still
  | advances join cursor event phase next => rw [next]

theorem Evolves.opened (h : Evolves yrs fresh s s') (ho : s.Opened id) : s'.Opened id := by
  obtain ⟨c,hc,hopen⟩ := ho
  obtain ⟨c',hc',hmoves⟩ := h.forward id c hc
  exact ⟨c',hc',hmoves.opened hopen⟩

theorem evolves_apart (hactor : s'.actor.room.doc = s.actor.room.doc)
    (hsent : ∃ events, s'.sent = s.sent ++ events) (hconn : s'.connections = s.connections)
    (hmail : ∀ p ∈ s'.mailbox, p ∈ s.mailbox ∨ ∀ source, p.2.source? = some source → s.Opened source) :
    Evolves yrs fresh s s' := by
  refine ⟨hactor,hsent,?_,?_,hmail⟩
  · intro x d hd
    exact ⟨d,by rw [hconn,hd],.stays rfl rfl⟩
  · intro x d hd hnone
    simp [hconn,hnone] at hd

theorem Evolves.refl (s : Session β Op) : Evolves yrs fresh s s :=
  evolves_apart rfl ⟨[],by simp⟩ rfl (fun _ h => Or.inl h)

theorem evolves_modify (hget : s.connections.get? id = some c)
    (hmoves : Moves yrs fresh s.actor.room.doc s.sent id c c')
    (hactor : s'.actor.room.doc = s.actor.room.doc) (hsent : s'.sent = s.sent)
    (hconn : s'.connections = s.connections.modify id (fun _ => c'))
    (hmail : ∀ p ∈ s'.mailbox, p ∈ s.mailbox ∨ p.2.source? = none) : Evolves yrs fresh s s' := by
  refine ⟨hactor,⟨[],by simp [hsent]⟩,?_,?_,?_⟩
  · intro x d hd
    rw [hconn,Table.get?_modify]
    by_cases hx : x = id
    · subst hx
      rw [hget] at hd
      cases hd
      exact ⟨c',by simp [hget],hmoves⟩
    · exact ⟨d,by simp [hx,hd],.stays rfl rfl⟩
  · intro x d hd hnone
    rw [hconn,Table.get?_modify] at hd
    simp [hnone] at hd
  · intro p hp
    refine (hmail p hp).imp (fun h => h) ?_
    intro hsource source hsome
    simp [hsource] at hsome

theorem evolves_proceed (hget : s.connections.get? id = some c)
    (hmoves : Moves yrs fresh s.actor.room.doc s.sent id c c') : Evolves yrs fresh s (s.proceed id c') := by
  refine evolves_modify hget hmoves rfl rfl rfl ?_
  intro p hp
  simp only [Session.proceed] at hp
  split at hp
  · rcases List.mem_append.mp hp with hp | hp
    · exact Or.inl hp
    · simp only [List.mem_singleton] at hp
      subst hp
      exact Or.inr rfl
  · exact Or.inl hp

theorem evolves_whenServing {arm : Connection β → RoomJoin β → ℕ → Session β Op}
    (h : ∀ c join cursor, s.connections.get? id = some c →
      c.phase = .subscribed .serving join cursor → Evolves yrs fresh s (arm c join cursor)) :
    Evolves yrs fresh s (s.whenServing id arm) := by
  unfold Session.whenServing
  split
  · next c hget =>
    split
    · next join cursor hphase => exact h c join cursor hget hphase
    · exact .refl s
  · exact .refl s

/-! ## Moves of one connection -/

theorem moves_sendLast (frame : Frame β) (sends : Bool) :
    Moves yrs fresh doc sent id c (c.sendLast frame sends) := .closes rfl

theorem moves_serve {stage stage' : Stage} {join : RoomJoin β} {cursor : ℕ}
    (hphase : c.phase = .subscribed stage join cursor) (hopen : stage ≠ .greeting)
    (hstill : stage' ≠ .greeting) (frame : Frame β) (sends : Bool) :
    Moves yrs fresh doc sent id c
      (Connection.send { c with phase := .subscribed stage' join cursor } frame sends) := by
  cases sends with
  | true => exact .serves stage stage' join cursor hphase rfl hopen hstill (List.subset_append_left _ _)
  | false => exact .closes rfl

theorem moves_receive {join : RoomJoin β} {cursor : ℕ}
    (hphase : c.phase = .subscribed .serving join cursor) (sends : Bool) :
    Moves yrs fresh doc sent id c (c.receive id join cursor sent sends) := by
  unfold Connection.receive
  cases hrecv : recv eventCapacity sent cursor with
  | empty => exact .stays rfl rfl
  | lagged => exact moves_sendLast _ _
  | value event =>
    have hquiet : ∀ d : Connection β, d.phase = .subscribed .serving join (cursor + 1) →
        c.frames ⊆ d.frames → (∀ source bytes, event = .update source bytes → source ≠ id →
          .remoteSourceUpdate bytes ∈ d.frames) → Moves yrs fresh doc sent id c d :=
      fun d hd hframes hdel => .advances join cursor event hphase hd hframes hrecv hdel
    have hsend : ∀ frame : Frame β, (∀ source bytes, event = .update source bytes → source ≠ id →
          .remoteSourceUpdate bytes = frame) → Moves yrs fresh doc sent id c
        (Connection.send { c with phase := .subscribed .serving join (cursor + 1) } frame sends) := by
      intro frame hframe
      cases sends with
      | true =>
        refine hquiet _ rfl (List.subset_append_left _ _) ?_
        intro source bytes he hne
        rw [hframe source bytes he hne]
        exact List.mem_append_right _ (List.mem_singleton_self _)
      | false => exact .closes rfl
    cases event with
    | update source bytes =>
      simp only [Connection.handleEvent]
      split
      · next hown =>
        refine hquiet _ rfl (List.Subset.refl _) ?_
        intro source' bytes' he hne
        cases he
        exact absurd hown hne
      · refine hsend _ ?_
        intro source' bytes' he _
        cases he
        rfl
    | durable sequence => exact hsend _ (by simp)
    | reloadRequired => exact .closes rfl
    | policyChanged => exact .closes rfl
    | epochChanged documentEpoch => exact .closes rfl

/-! ## Steps of the connections -/

theorem evolves_enter (id : Uuid) (readWrite : Bool) : Evolves yrs fresh s (s.enter id readWrite) := by
  unfold Session.enter
  cases hins : s.connections.insert? id (.enter readWrite) with
  | none => exact .refl s
  | some connections =>
    have hget := Table.get?_insert? hins
    refine ⟨rfl,⟨[],by simp⟩,?_,?_,?_⟩
    · intro x d hd
      refine ⟨d,?_,.stays rfl rfl⟩
      have hnone := (Table.insert?_eq_some hins).1
      rw [hget,if_neg,hd]
      rintro rfl
      simp [hnone] at hd
    · intro x d hd hnone
      rw [hget] at hd
      split at hd
      · cases hd
        exact ⟨rfl,rfl⟩
      · simp [hnone] at hd
    · intro p hp
      rcases List.mem_append.mp hp with hp | hp
      · exact Or.inl hp
      · simp only [List.mem_singleton] at hp
        subst hp
        exact Or.inr (by simp [RoomCommand.source?])

theorem evolves_subscribe (id : Uuid) (hfresh : ∀ c join, s.connections.get? id = some c →
    c.phase = .joined join → fresh join) : Evolves yrs fresh s (s.subscribe id) := by
  unfold Session.subscribe
  split
  · next c hget =>
    split
    · next join hphase => exact evolves_proceed hget (.subscribes join hphase rfl rfl (hfresh c join hget hphase))
    · exact .refl s
  · exact .refl s

theorem evolves_greet (documentEpoch : ℕ) (id : Uuid) (accepted initial : Bool) :
    Evolves yrs fresh s (s.greet documentEpoch id accepted initial) := by
  unfold Session.greet
  split
  · next c hget =>
    split
    · next join cursor hphase =>
      cases accepted with
      | false => exact evolves_proceed hget (.closes rfl)
      | true =>
        simp only [Connection.send,if_true,Connection.closes,hphase]
        cases initial with
        | false => exact evolves_proceed hget (.closes rfl)
        | true =>
          refine evolves_proceed hget (.greets join cursor hphase rfl ?_ ?_)
          · intro f hf
            simp [hf]
          · simp
    · exact .refl s
  · exact .refl s

theorem evolves_receive (id : Uuid) (sends : Bool) : Evolves yrs fresh s (s.receive id sends) :=
  evolves_whenServing (fun _ _ _ hget hphase => evolves_proceed hget (moves_receive hphase sends))

theorem evolves_control (id : Uuid) (sends : Bool) : Evolves yrs fresh s (s.control id sends) := by
  refine evolves_whenServing ?_
  intro c join cursor hget hphase
  cases hc : c.controls with
  | nil => exact .refl s
  | cons message rest =>
    refine evolves_proceed hget ?_
    cases sends with
    | true =>
      exact .serves .serving .serving join cursor hphase hphase (by simp) (by simp)
        (List.subset_append_left _ _)
    | false => exact .closes rfl

theorem evolves_incoming (id : Uuid) (user : UserId) (frame : ClientFrame β)
    (authorized sends : Bool) : Evolves yrs fresh s (s.incoming yrs id user frame authorized sends) := by
  refine evolves_whenServing ?_
  intro c join cursor hget hphase
  have hrefuse : ∀ code message, Evolves yrs fresh s
      (s.proceed id (c.sendLast (.control (.error code message)) sends)) :=
    fun _ _ => evolves_proceed hget (moves_sendLast _ _)
  have hopen : s.Opened id := ⟨c,hget,by simp [Connection.opened,hphase]⟩
  cases frame with
  | empty => exact hrefuse _ _
  | truncated => exact hrefuse _ _
  | unknown => exact hrefuse _ _
  | text => exact .refl s
  | close => exact evolves_proceed hget (.closes rfl)
  | ping =>
    dsimp only
    split
    · exact .refl s
    · exact evolves_proceed hget (.closes rfl)
  | flush =>
    have hmoves : Moves yrs fresh s.actor.room.doc s.sent id c
        { c with phase := .subscribed .flushing join cursor } :=
      .serves .serving .flushing join cursor hphase rfl (by simp) (by simp) (List.Subset.refl _)
    refine evolves_modify hget hmoves rfl rfl rfl ?_
    intro p hp
    rcases List.mem_append.mp hp with hp | hp
    · exact Or.inl hp
    · simp only [List.mem_singleton] at hp
      subst hp
      exact Or.inr rfl
  | sourceUpdate clientSequence payload =>
    dsimp only
    split
    · exact hrefuse _ _
    · split
      · exact hrefuse _ _
      · split
        · exact hrefuse _ _
        · split
          · exact hrefuse _ _
          · refine evolves_apart rfl ⟨[],by simp⟩ rfl ?_
            intro p hp
            rcases List.mem_append.mp hp with hp | hp
            · exact Or.inl hp
            · simp only [List.mem_singleton] at hp
              subst hp
              refine Or.inr ?_
              intro source hsource
              cases hsource
              exact hopen

theorem evolves_reply (id : Uuid) (sends : Bool) {e : Effect β}
    (hjoin : ∀ b n, e = .joined b n → yrs.decodeV1 b = .ok s.actor.room.doc) :
    Evolves yrs fresh s (s.reply id sends e) := by
  cases e with
  | joined initialState durableSequence =>
    simp only [Session.reply]
    split
    · next c hget =>
      split
      · next hphase =>
        exact evolves_proceed hget
          (.joins ⟨initialState,durableSequence⟩ hphase rfl rfl (hjoin _ _ rfl))
      · exact .refl s
    · exact .refl s
  | flushed result =>
    simp only [Session.reply]
    split
    · next c hget =>
      split
      · next join cursor hphase =>
        cases result with
        | ok sequence =>
          exact evolves_proceed hget (moves_serve hphase (by simp) (by simp) _ _)
        | error message =>
          refine evolves_proceed hget ?_
          split
          · exact moves_serve hphase (by simp) (by simp) _ _
          · exact .serves .flushing .serving join cursor hphase rfl (by simp) (by simp)
              (List.Subset.refl _)
      · exact .refl s
    · exact .refl s
  | control acknowledgements update message database =>
    refine ⟨rfl,⟨[],by simp [Session.reply]⟩,?_,?_,fun p hp => Or.inl hp⟩
    · intro x d hd
      simp only [Session.reply]
      rw [Table.get?_modify]
      by_cases hx : x = acknowledgements
      · subst hx
        exact ⟨{ d with controls := d.controls ++ [message] },by simp [hd],
          .stays rfl rfl⟩
      · exact ⟨d,by simp [hx,hd],.stays rfl rfl⟩
    · intro x d hd hnone
      simp only [Session.reply] at hd
      rw [Table.get?_modify] at hd
      simp [hnone] at hd
  | event event =>
    exact evolves_apart rfl ⟨[event],rfl⟩ rfl (fun p hp => Or.inl hp)

end LatexCore.Collaboration
