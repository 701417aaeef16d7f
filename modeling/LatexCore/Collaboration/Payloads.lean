import LatexCore.Collaboration.Reactions

/-! # What the frames of a room carry

The bytes that go through a room come from its document and from the updates
that its connections have taken. If the operations of both lie in a set, then so
do those of every frame that leaves the room, whatever its tasks do. The first
two frames of a connection are `JOIN_ACCEPTED` and `INITIAL_STATE`.
-/
namespace LatexCore.Collaboration
open Core Foundation
variable {β Op : Type}

def Yrs.Within (yrs : Yrs β Op) (H : Set Op) (bytes : β) : Prop :=
  ∃ update, yrs.decodeV1 bytes = .ok update ∧ ↑update ⊆ H

def Frame.payload? : Frame β → Option β
  | .initialState bytes | .remoteSourceUpdate bytes => some bytes
  | _ => none

def RoomCommand.payload? : RoomCommand β → Option β
  | .apply _ _ _ bytes => some bytes
  | _ => none

def Effect.payload? : Effect β → Option β
  | .joined bytes _ | .event (.update _ bytes) => some bytes
  | _ => none

def Frame.isGreeting : Frame β → Bool
  | .joinAccepted .. | .initialState _ => true
  | _ => false

/-- The frames of a connection from its first one on. -/
inductive Greeted (epoch : ℕ) : List (Frame β) → Prop
  | silent : Greeted epoch []
  | accepted (durableSeq : ℕ) (readWrite : Bool) : Greeted epoch [.joinAccepted epoch durableSeq readWrite]
  | initial (durableSeq : ℕ) (readWrite : Bool) (bytes : β) (rest : List (Frame β))
    (later : ∀ frame ∈ rest, frame.isGreeting = false) :
    Greeted epoch (.joinAccepted epoch durableSeq readWrite :: .initialState bytes :: rest)

structure Connection.Carries (yrs : Yrs β Op) (H : Set Op) (epoch : ℕ) (c : Connection β) : Prop where
  join : ∀ join, c.phase.join? = some join → yrs.Within H join.initialState
  frames : ∀ frame ∈ c.frames, ∀ bytes, frame.payload? = some bytes → yrs.Within H bytes
  greeted : Greeted epoch c.frames
  silent : c.opened = false → c.frames = []
  served : ∀ stage join cursor, c.phase = .subscribed stage join cursor → stage ≠ .greeting →
    2 ≤ c.frames.length

structure Session.Carries (yrs : Yrs β Op) (document : DocumentKey) (H : Set Op) (s : Session β Op) :
    Prop where
  sound : s.actor.Sound yrs document
  doc : ↑s.actor.room.doc ⊆ H
  mailbox : ∀ entry ∈ s.mailbox, ∀ bytes, entry.2.payload? = some bytes → yrs.Within H bytes
  sent : ∀ source bytes, .update source bytes ∈ s.sent → yrs.Within H bytes
  connection : ∀ id c, s.connections.get? id = some c → c.Carries yrs H document.documentEpoch

variable {yrs : Yrs β Op} {document : DocumentKey} {H : Set Op} {epoch : ℕ} {s : Session β Op} {id : Uuid}
  {c c' : Connection β}

theorem Yrs.Within.ops {bytes : β} (h : yrs.Within H bytes) : yrs.ops bytes ⊆ H := by
  obtain ⟨update,hdec,hsub⟩ := h
  rw [mem_ops hdec]
  exact hsub

theorem Yrs.within_encode {doc : Finset Op} (h : ↑doc ⊆ H) : yrs.Within H (yrs.encodeStateAsUpdateV1 doc) :=
  ⟨doc,yrs.decode_encode doc,h⟩

theorem Greeted.append {frames : List (Frame β)} (h : Greeted epoch frames) (hlength : 2 ≤ frames.length)
    {frame : Frame β} (hframe : frame.isGreeting = false) : Greeted epoch (frames ++ [frame]) := by
  cases h with
  | silent => simp at hlength
  | accepted durableSeq readWrite => simp at hlength
  | initial durableSeq readWrite bytes rest later =>
    refine .initial durableSeq readWrite bytes (rest ++ [frame]) ?_
    intro f hf
    rcases List.mem_append.mp hf with hf | hf
    · exact later f hf
    · rw [List.mem_singleton.mp hf]
      exact hframe

theorem Greeted.next {frames : List (Frame β)} (h : Greeted epoch frames) {n : ℕ} {frame : Frame β}
    (hnext : frames[n]? = some frame) :
    (n = 0 ∧ ∃ durableSeq readWrite, frame = .joinAccepted epoch durableSeq readWrite) ∨
      (n = 1 ∧ ∃ bytes, frame = .initialState bytes) ∨ (2 ≤ n ∧ frame.isGreeting = false) := by
  cases h with
  | silent => cases hnext
  | accepted durableSeq readWrite =>
    cases n with
    | zero =>
      rw [List.getElem?_cons_zero,Option.some.injEq] at hnext
      exact Or.inl ⟨rfl,durableSeq,readWrite,hnext.symm⟩
    | succ n => cases hnext
  | initial durableSeq readWrite bytes rest later =>
    cases n with
    | zero =>
      rw [List.getElem?_cons_zero,Option.some.injEq] at hnext
      exact Or.inl ⟨rfl,durableSeq,readWrite,hnext.symm⟩
    | succ n =>
      rw [List.getElem?_cons_succ] at hnext
      cases n with
      | zero =>
        rw [List.getElem?_cons_zero,Option.some.injEq] at hnext
        exact Or.inr (Or.inl ⟨rfl,bytes,hnext.symm⟩)
      | succ n =>
        rw [List.getElem?_cons_succ] at hnext
        exact Or.inr (Or.inr ⟨by omega,later frame (List.mem_of_getElem? hnext)⟩)

/-! ## Connections -/

namespace Connection.Carries

theorem enter (readWrite : Bool) : (Connection.enter readWrite : Connection β).Carries yrs H epoch := by
  refine ⟨?_,?_,.silent,fun _ => rfl,?_⟩
  · intro join hjoin
    cases hjoin
  · intro frame hframe
    cases hframe
  · intro stage join cursor hphase
    cases hphase

theorem close (h : c.Carries yrs H epoch) : Connection.Carries yrs H epoch { c with phase := .closed } := by
  refine ⟨?_,h.frames,h.greeted,?_,?_⟩
  · intro join hjoin
    cases hjoin
  · intro hopen
    cases hopen
  · intro stage join cursor hphase
    cases hphase

theorem stay (h : c.Carries yrs H epoch) {stage : Stage} {join : RoomJoin β} {cursor : ℕ}
    (hphase : c.phase = .subscribed stage join cursor) (hstage : stage ≠ .greeting) (stage' : Stage)
    (hstage' : stage' ≠ .greeting) (cursor' : ℕ) :
    Connection.Carries yrs H epoch { c with phase := .subscribed stage' join cursor' } := by
  refine ⟨?_,h.frames,h.greeted,?_,?_⟩
  · intro join' hjoin
    cases hjoin
    exact h.join join (by rw [hphase]; rfl)
  · intro hopen
    cases stage' with
    | greeting => exact absurd rfl hstage'
    | serving => cases hopen
    | flushing => cases hopen
  · intro _ _ _ _ _
    exact h.served stage join cursor hphase hstage

theorem send (h : c.Carries yrs H epoch) {stage : Stage} {join : RoomJoin β} {cursor : ℕ}
    (hphase : c.phase = .subscribed stage join cursor) (hstage : stage ≠ .greeting) {frame : Frame β}
    (hlater : frame.isGreeting = false) (hframe : ∀ bytes, frame.payload? = some bytes → yrs.Within H bytes)
    (sends : Bool) : (c.send frame sends).Carries yrs H epoch := by
  have hlength := h.served stage join cursor hphase hstage
  cases sends with
  | false => exact h.close
  | true =>
    refine ⟨h.join,?_,h.greeted.append hlength hlater,?_,?_⟩
    · intro f hf
      rcases List.mem_append.mp hf with hf | hf
      · exact h.frames f hf
      · rw [List.mem_singleton.mp hf]
        exact hframe
    · intro hopen
      have hnil := h.silent hopen
      rw [hnil] at hlength
      simp at hlength
    · intro _ _ _ _ _
      have hmore : (c.frames ++ [frame]).length = c.frames.length + 1 := by simp
      change 2 ≤ (c.frames ++ [frame]).length
      omega

theorem sendLast (h : c.Carries yrs H epoch) {stage : Stage} {join : RoomJoin β} {cursor : ℕ}
    (hphase : c.phase = .subscribed stage join cursor) (hstage : stage ≠ .greeting) {frame : Frame β}
    (hlater : frame.isGreeting = false) (hframe : frame.payload? = none) (sends : Bool) :
    (c.sendLast frame sends).Carries yrs H epoch := by
  refine (h.send hphase hstage hlater ?_ sends).close
  intro bytes hbytes
  rw [hframe] at hbytes
  cases hbytes

theorem receive (h : c.Carries yrs H epoch) {join : RoomJoin β} {cursor : ℕ}
    (hphase : c.phase = .subscribed .serving join cursor) {sent : List (RoomEvent β)}
    (hsent : ∀ source bytes, .update source bytes ∈ sent → yrs.Within H bytes) (id : Uuid) (sends : Bool) :
    (c.receive id join cursor sent sends).Carries yrs H epoch := by
  unfold Connection.receive
  cases hrecv : recv eventCapacity sent cursor with
  | empty => exact h
  | lagged => exact h.sendLast hphase (by simp) rfl rfl sends
  | value event =>
    have hmem : event ∈ sent := by
      have hunread := (recv_value hrecv).1
      have hhead : event ∈ unread sent cursor := by
        rw [hunread]
        exact List.mem_cons_self ..
      exact List.mem_of_mem_drop hhead
    have hstay := h.stay hphase (by simp) .serving (by simp) (cursor + 1)
    cases event with
    | update source bytes =>
      simp only [Connection.handleEvent]
      split
      · exact hstay
      · refine hstay.send rfl (by simp) rfl ?_ sends
        intro bytes' hbytes
        cases hbytes
        exact hsent source bytes hmem
    | durable sequence => exact hstay.send rfl (by simp) rfl (fun _ hbytes => by cases hbytes) sends
    | reloadRequired => exact hstay.sendLast rfl (by simp) rfl rfl sends
    | policyChanged => exact hstay.sendLast rfl (by simp) rfl rfl sends
    | epochChanged documentEpoch => exact hstay.sendLast rfl (by simp) rfl rfl sends

end Connection.Carries

/-! ## Steps of the connections -/

namespace Session.Carries

theorem start {a : Actor β Op} (hsound : a.Sound yrs document) (hdoc : ↑a.room.doc ⊆ H) :
    (Session.start a).Carries yrs document H := by
  refine ⟨hsound,hdoc,?_,?_,?_⟩
  · intro entry hentry
    cases hentry
  · intro _ _ hmem
    cases hmem
  · intro id c hget
    cases hget

theorem proceed (h : s.Carries yrs document H) (id : Uuid) (hc : c.Carries yrs H document.documentEpoch) :
    (s.proceed id c).Carries yrs document H := by
  refine ⟨h.sound,h.doc,?_,h.sent,?_⟩
  · intro entry hentry bytes hbytes
    simp only [Session.proceed] at hentry
    split at hentry
    · rcases List.mem_append.mp hentry with hentry | hentry
      · exact h.mailbox entry hentry bytes hbytes
      · rw [List.mem_singleton.mp hentry] at hbytes
        cases hbytes
    · exact h.mailbox entry hentry bytes hbytes
  · intro x d hd
    simp only [Session.proceed] at hd
    rw [Table.get?_modify] at hd
    split at hd
    · obtain ⟨_,_,rfl⟩ := Option.map_eq_some_iff.mp hd
      exact hc
    · exact h.connection x d hd

theorem post (h : s.Carries yrs document H) {entry : Uuid × RoomCommand β}
    (hentry : ∀ bytes, entry.2.payload? = some bytes → yrs.Within H bytes) :
    Session.Carries yrs document H { s with mailbox := s.mailbox ++ [entry] } := by
  refine ⟨h.sound,h.doc,?_,h.sent,h.connection⟩
  intro e he
  rcases List.mem_append.mp he with he | he
  · exact h.mailbox e he
  · rw [List.mem_singleton.mp he]
    exact hentry

theorem whenServing (h : s.Carries yrs document H) {arm : Connection β → RoomJoin β → ℕ → Session β Op}
    (harm : ∀ c join cursor, s.connections.get? id = some c → c.phase = .subscribed .serving join cursor →
      c.Carries yrs H document.documentEpoch → (arm c join cursor).Carries yrs document H) :
    (s.whenServing id arm).Carries yrs document H := by
  unfold Session.whenServing
  split
  · next c hget =>
    split
    · next join cursor hphase => exact harm c join cursor hget hphase (h.connection id c hget)
    · exact h
  · exact h

theorem enter (h : s.Carries yrs document H) (id : Uuid) (readWrite : Bool) :
    (s.enter id readWrite).Carries yrs document H := by
  unfold Session.enter
  split
  · exact h
  · next connections hins =>
    have hentered : Session.Carries yrs document H { s with connections := connections } := by
      refine ⟨h.sound,h.doc,h.mailbox,h.sent,?_⟩
      intro x d hd
      rw [Table.get?_insert? hins] at hd
      split at hd
      · cases hd
        exact .enter readWrite
      · exact h.connection x d hd
    exact hentered.post (fun bytes hbytes => by cases hbytes)

theorem subscribe (h : s.Carries yrs document H) (id : Uuid) : (s.subscribe id).Carries yrs document H := by
  unfold Session.subscribe
  split
  · next c hget =>
    split
    · next join hphase =>
      have hc := h.connection id c hget
      refine h.proceed id ⟨?_,hc.frames,hc.greeted,?_,?_⟩
      · intro join' hjoin
        cases hjoin
        exact hc.join join (by rw [hphase]; rfl)
      · intro _
        exact hc.silent (by unfold Connection.opened; rw [hphase])
      · intro stage join' cursor hphase' hstage
        cases hphase'
        exact absurd rfl hstage
    · exact h
  · exact h

theorem greet (h : s.Carries yrs document H) (id : Uuid) (accepted initial : Bool) :
    (s.greet document.documentEpoch id accepted initial).Carries yrs document H := by
  unfold Session.greet
  split
  · next c hget =>
    split
    · next join cursor hphase =>
      have hc := h.connection id c hget
      have hnil : c.frames = [] := hc.silent (by unfold Connection.opened; rw [hphase])
      have hjoin : yrs.Within H join.initialState := hc.join join (by rw [hphase]; rfl)
      cases accepted with
      | false => exact h.proceed id hc.close
      | true =>
        simp only [Connection.send,if_true,Connection.closes,hphase,hnil,List.nil_append]
        have hframes : ∀ frame : Frame β, frame ∈ [Frame.joinAccepted document.documentEpoch
            join.durableSequence c.readWrite,.initialState join.initialState] → ∀ bytes,
            frame.payload? = some bytes → yrs.Within H bytes := by
          intro frame hframe bytes hbytes
          rcases List.mem_cons.mp hframe with rfl | hframe
          · cases hbytes
          · rw [List.mem_singleton.mp hframe] at hbytes
            cases hbytes
            exact hjoin
        cases initial with
        | false =>
          refine h.proceed id ⟨?_,?_,.accepted _ _,?_,?_⟩
          · intro join' hjoin'
            cases hjoin'
          · exact fun frame hframe => hframes frame (List.mem_cons.mpr (Or.inl (List.mem_singleton.mp hframe)))
          · intro hopen
            cases hopen
          · intro _ _ _ hphase'
            cases hphase'
        | true =>
          refine h.proceed id ⟨?_,hframes,.initial _ _ _ [] (by simp),?_,?_⟩
          · intro join' hjoin'
            cases hjoin'
            exact hjoin
          · intro hopen
            cases hopen
          · intro _ _ _ _ _
            exact le_rfl
    · exact h
  · exact h

theorem receive (h : s.Carries yrs document H) (id : Uuid) (sends : Bool) :
    (s.receive id sends).Carries yrs document H :=
  h.whenServing (fun _ _ _ _ hphase hc => h.proceed id (hc.receive hphase h.sent id sends))

theorem control (h : s.Carries yrs document H) (id : Uuid) (sends : Bool) :
    (s.control id sends).Carries yrs document H := by
  refine h.whenServing (fun c join cursor _ hphase hc => ?_)
  split
  · exact h
  · next message rest _ =>
    have hrest : Connection.Carries yrs H document.documentEpoch { c with controls := rest } :=
      ⟨hc.join,hc.frames,hc.greeted,hc.silent,hc.served⟩
    exact h.proceed id (hrest.send hphase (by simp) rfl (fun _ hbytes => by cases hbytes) sends)

theorem incoming (h : s.Carries yrs document H) (id : Uuid) (user : UserId) {frame : ClientFrame β}
    {authorized : Bool} (hframe : ∀ sequence payload, frame = .sourceUpdate sequence payload →
      authorized = true → yrs.ops payload ⊆ H) (sends : Bool) :
    (s.incoming yrs id user frame authorized sends).Carries yrs document H := by
  refine h.whenServing (fun c join cursor hget hphase hc => ?_)
  have hrefuse : ∀ code message,
      (s.proceed id (c.sendLast (.control (.error code message)) sends)).Carries yrs document H :=
    fun _ _ => h.proceed id (hc.sendLast hphase (by simp) rfl rfl sends)
  cases frame with
  | empty => exact hrefuse _ _
  | truncated => exact hrefuse _ _
  | unknown => exact hrefuse _ _
  | text => exact h
  | close => exact h.proceed id hc.close
  | ping =>
    dsimp only
    split
    · exact h
    · exact h.proceed id hc.close
  | flush =>
    have hwaits := h.proceed id (hc.stay hphase (by simp) .flushing (by simp) cursor)
    have hposted : Session.Carries yrs document H { s with mailbox := s.mailbox ++ [(id,.flush)] } :=
      h.post (fun _ hbytes => by cases hbytes)
    exact ⟨hwaits.sound,hwaits.doc,hposted.mailbox,hwaits.sent,hwaits.connection⟩
  | sourceUpdate sequence payload =>
    dsimp only
    split
    · exact hrefuse _ _
    split
    · exact hrefuse _ _
    split
    · exact hrefuse _ _
    next update hdec =>
      cases authorized with
      | false => exact hrefuse _ _
      | true =>
        refine h.post (fun bytes hbytes => ?_)
        cases hbytes
        refine ⟨update,hdec,?_⟩
        rw [← mem_ops hdec]
        exact hframe sequence payload rfl rfl

/-! ## Reactions of the actor -/

theorem reply (h : s.Carries yrs document H) (id : Uuid) (sends : Bool) {e : Effect β}
    (he : ∀ bytes, e.payload? = some bytes → yrs.Within H bytes) :
    (s.reply id sends e).Carries yrs document H := by
  cases e with
  | joined initialState durableSequence =>
    simp only [Session.reply]
    split
    · next c hget =>
      split
      · next hphase =>
        have hc := h.connection id c hget
        refine h.proceed id ⟨?_,hc.frames,hc.greeted,?_,?_⟩
        · intro join hjoin
          cases hjoin
          exact he initialState rfl
        · intro _
          exact hc.silent (by unfold Connection.opened; rw [hphase])
        · intro stage join cursor hphase'
          cases hphase'
      · exact h
    · exact h
  | flushed result =>
    simp only [Session.reply]
    split
    · next c hget =>
      split
      · next join cursor hphase =>
        have hstay := (h.connection id c hget).stay hphase (by simp) .serving (by simp) cursor
        cases result with
        | ok sequence =>
          exact h.proceed id (hstay.send rfl (by simp) rfl (fun _ hbytes => by cases hbytes) sends)
        | error message =>
          cases sends with
          | true => exact h.proceed id (hstay.send rfl (by simp) rfl (fun _ hbytes => by cases hbytes) true)
          | false => exact h.proceed id hstay
      · exact h
    · exact h
  | control acknowledgements update message database =>
    refine ⟨h.sound,h.doc,h.mailbox,h.sent,?_⟩
    intro x d hd
    simp only [Session.reply] at hd
    rw [Table.get?_modify] at hd
    split at hd
    · next hx =>
      obtain ⟨c,hget,rfl⟩ := Option.map_eq_some_iff.mp hd
      have hc := h.connection x c (hx ▸ hget)
      exact ⟨hc.join,hc.frames,hc.greeted,hc.silent,hc.served⟩
    · exact h.connection x d hd
  | event event =>
    refine ⟨h.sound,h.doc,h.mailbox,?_,h.connection⟩
    intro source bytes hmem
    rcases List.mem_append.mp hmem with hmem | hmem
    · exact h.sent source bytes hmem
    · rw [← List.mem_singleton.mp hmem] at he
      exact he bytes rfl

theorem replies (h : s.Carries yrs document H) (id : Uuid) (sends : Bool) {effects : List (Effect β)}
    (he : ∀ e ∈ effects, ∀ bytes, e.payload? = some bytes → yrs.Within H bytes) :
    (s.replies id sends effects).Carries yrs document H := by
  unfold Session.replies
  induction effects generalizing s with
  | nil => exact h
  | cons e rest ih =>
    exact ih (h.reply id sends (he e (List.mem_cons_self ..)))
      (fun e' he' => he e' (List.mem_cons_of_mem _ he'))

end Session.Carries

theorem flushPending_payload (a : Actor β Op) (o : Outcomes) :
    ∀ e ∈ (a.flushPending document o).1.2, e.payload? = none := by
  unfold Actor.flushPending
  split
  · intro e he
    rcases List.mem_append.mp he with he | he
    · obtain ⟨u,-,rfl⟩ := List.mem_map.mp he
      rfl
    · rw [List.mem_singleton.mp he]
      rfl
  · intro e he
    cases he

theorem flushIfPending_payload (a : Actor β Op) (o : Outcomes) :
    ∀ e ∈ (a.flushIfPending document o).2, e.payload? = none := by
  unfold Actor.flushIfPending
  split
  · intro e he
    cases he
  · exact flushPending_payload a o

variable [DecidableEq β] [DecidableEq Op]

theorem command_payload (a : Actor β Op) (o : Outcomes) (command : RoomCommand β) :
    ∀ e ∈ (a.command yrs document o command).2, ∀ bytes, e.payload? = some bytes →
      bytes = yrs.encodeStateAsUpdateV1 a.room.doc ∨ command.payload? = some bytes := by
  have hnone : ∀ {effects : List (Effect β)} {bytes : β}, (∀ e ∈ effects, e.payload? = none) → ∀ e ∈ effects,
      e.payload? = some bytes → bytes = yrs.encodeStateAsUpdateV1 a.room.doc ∨
        command.payload? = some bytes := by
    intro effects bytes heffects e he hbytes
    rw [heffects e he] at hbytes
    cases hbytes
  cases command with
  | join writer =>
    intro e he bytes hbytes
    simp only [Actor.command,Actor.due,Actor.join,List.mem_singleton] at he
    subst he
    cases hbytes
    exact Or.inl rfl
  | flush =>
    intro e he bytes
    refine hnone ?_ e he
    simp only [Actor.command,Actor.due,Actor.flush]
    split
    · simp [Effect.payload?]
    · intro e' he'
      rcases List.mem_append.mp he' with he' | he'
      · exact flushPending_payload a o e' he'
      · rw [List.mem_singleton.mp he']
        rfl
  | leave writer =>
    intro e he bytes
    refine hnone ?_ e he
    simp only [Actor.command,Actor.due,Actor.leave]
    split
    · exact flushIfPending_payload _ o
    · simp
  | apply source actor clientSequence update =>
    intro e he bytes hbytes
    simp only [Actor.command] at he
    split at he
    · simp only [Actor.due,Actor.accepted] at he
      rcases List.mem_cons.mp he with rfl | he
      · exact Or.inr hbytes
      · split at he
        · exact hnone (flushPending_payload _ o) e he hbytes
        · cases he
    · rw [List.mem_singleton.mp he] at hbytes
      cases hbytes
    · rw [List.mem_singleton.mp he] at hbytes
      cases hbytes

namespace Session.Carries

theorem act (h : s.Carries yrs document H) (o : Outcomes) (sends : Bool) :
    (s.step yrs document (.act o sends)).Carries yrs document H := by
  simp only [Session.step]
  split
  · exact h
  · next id command rest hmail =>
    have hmem : (id,command) ∈ s.mailbox := by
      rw [hmail]
      exact List.mem_cons_self ..
    have hpayload := h.mailbox (id,command) hmem
    have hdoc : ↑(s.actor.command yrs document o command).1.room.doc ⊆ H := by
      rcases command_spec yrs document s.actor o command with
        ⟨source,bytes,update,_,_,haccepts,hdec,hdoc,-⟩ | ⟨-,hdoc,-⟩
      · have hbytes : command.payload? = some bytes := by
          cases command with
          | apply source' actor clientSequence bytes' =>
            simp only [Actor.accepts] at haccepts
            split at haccepts
            · cases haccepts
              rfl
            · cases haccepts
          | join writer => cases haccepts
          | flush => cases haccepts
          | leave writer => cases haccepts
        have hops := (hpayload bytes hbytes).ops
        rw [mem_ops hdec] at hops
        rw [hdoc,Finset.coe_union]
        exact Set.union_subset h.doc hops
      · rw [hdoc]
        exact h.doc
    have htaken : Session.Carries yrs document H { s with
        actor := (s.actor.command yrs document o command).1
        mailbox := rest } := by
      refine ⟨(h.sound.command o command).1,hdoc,?_,h.sent,h.connection⟩
      intro entry hentry
      exact h.mailbox entry (by rw [hmail]; exact List.mem_cons_of_mem _ hentry)
    refine htaken.replies id sends ?_
    intro e he bytes hbytes
    rcases command_payload s.actor o command e he bytes hbytes with rfl | hcommand
    · exact Yrs.within_encode h.doc
    · exact hpayload bytes hcommand

omit [DecidableEq β] in
theorem flushed_pending (h : s.Carries yrs document H) (o : Outcomes) : Session.Carries yrs document H
    { s with actor := (s.actor.flushIfPending document o).1 } := by
  refine ⟨(h.sound.flushIfPending o).1,?_,h.mailbox,h.sent,h.connection⟩
  rw [flushIfPending_doc]
  exact h.doc

theorem tick (h : s.Carries yrs document H) (o : Outcomes) :
    (s.step yrs document (.tick o)).Carries yrs document H := by
  refine (h.flushed_pending o).replies 0 true (fun e he bytes hbytes => ?_)
  rw [flushIfPending_payload s.actor o e he] at hbytes
  cases hbytes

theorem administer (h : s.Carries yrs document H) {database : Database β}
    (hu : Undisturbed document s.actor.database database) :
    (s.step yrs document (.administer database)).Carries yrs document H :=
  ⟨h.sound.undisturbed hu,h.doc,h.mailbox,h.sent,h.connection⟩

theorem hub (h : s.Carries yrs document H) (event : RoomEvent β) :
    (s.step yrs document (.hub event)).Carries yrs document H := by
  have happend : (∀ source bytes, event ≠ .update source bytes) →
      Session.Carries yrs document H { s with sent := s.sent ++ [event] } := by
    intro hevent
    refine ⟨h.sound,h.doc,h.mailbox,?_,h.connection⟩
    intro source bytes hmem
    rcases List.mem_append.mp hmem with hmem | hmem
    · exact h.sent source bytes hmem
    · exact absurd (List.mem_singleton.mp hmem).symm (hevent source bytes)
  cases event with
  | update source bytes => exact h
  | durable sequence => exact h
  | reloadRequired => exact happend (fun _ _ heq => by cases heq)
  | policyChanged => exact happend (fun _ _ heq => by cases heq)
  | epochChanged documentEpoch => exact happend (fun _ _ heq => by cases heq)

omit [DecidableEq β] in
/-- A room that is loaded again has what is stored, which its document had before. -/
theorem restart (h : s.Carries yrs document H) (source : Except String (Finset Op)) (save : Outcome) :
    (Tabs.restart yrs document s source save).Carries yrs document H := by
  have hattached := h.sound.attached
  obtain ⟨doc,sequence,hload,hloaded⟩ :=
    h.sound.stored.load hattached.epoch hattached.based source save
  unfold Tabs.restart
  rw [hload]
  refine ⟨⟨h.sound.stored,hloaded.attached hattached.epoch hattached.based⟩,?_,?_,?_,?_⟩
  · change (↑doc : Set Op) ⊆ H
    rw [hloaded.contents]
    exact hattached.ahead.trans h.doc
  · intro entry hentry
    cases hentry
  · intro _ _ hmem
    cases hmem
  · intro x c hx
    simp only [Table.get?_updateWhere] at hx
    obtain ⟨d,hd,rfl⟩ := Option.map_eq_some_iff.mp hx
    exact (h.connection x d hd).close

theorem roomStep (h : s.Carries yrs document H) (label : RoomLabel β Op) :
    (Tabs.roomStep yrs document s label).Carries yrs document H := by
  cases label with
  | act o sends => exact h.act o sends
  | tick o => exact h.tick o
  | subscribe id => exact h.subscribe id
  | greet id accepted initial => exact h.greet id accepted initial
  | receive id sends => exact h.receive id sends
  | control id sends => exact h.control id sends
  | hub event => exact h.hub event
  | drop id =>
    have hnone : ∀ sequence payload, (ClientFrame.close : ClientFrame β) = .sourceUpdate sequence payload →
        false = true → yrs.ops payload ⊆ H := fun _ _ hframe => by cases hframe
    exact h.incoming id 0 hnone false
  | restart source save => exact h.restart source save
  | administer files documentEpochs =>
    exact h.administer ⟨le_refl _,rfl,fun _ => rfl,fun _ _ => Iff.rfl⟩
  | batchElsewhere other inputs batch =>
    simp only [Tabs.roomStep]
    split
    · exact h
    · next hne => exact h.administer (undisturbed_perform_batch hne inputs batch h.sound.stored.positive)
  | snapshotElsewhere other through bytes =>
    simp only [Tabs.roomStep]
    split
    · exact h
    · next hne => exact h.administer (undisturbed_perform_snapshot hne .commits through bytes)

end Session.Carries
end LatexCore.Collaboration
