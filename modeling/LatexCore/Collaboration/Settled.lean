import LatexCore.Collaboration.Traced

/-! # What a room settles

A step of a room keeps every acknowledgement traced to an update that was sent,
and what it newly acknowledges is stored. The exception is an update in which the
room finds nothing new: it is acknowledged at once, whether the batch that holds
its operations has been written or not.
-/
namespace LatexCore.Collaboration
open Core Foundation
variable {β Op : Type} {yrs : Yrs β Op} {document : DocumentKey} {s s' : Session β Op} {id x : Uuid} {n : ℕ}
  {c c' : Connection β} {sent : Uuid → List (ClientFrame β)}

/-- An update that the document has already repeats no own operation of its sender that is not stored. -/
def Session.Repeats (yrs : Yrs β Op) (document : DocumentKey) (own : Uuid → Set Op) (s : Session β Op) : Prop :=
  ∃ entry rest source user sequence bytes update, s.mailbox = entry :: rest ∧
    entry.2 = .apply source user sequence bytes ∧ yrs.decodeV1 bytes = .ok update ∧
    update ⊆ s.actor.room.doc ∧ ∃ op ∈ update, op ∈ own source ∧ op ∉ stored yrs document s.actor.database

/-- What is acknowledged now was so before, or its own operations are stored. -/
def Session.Settles (yrs : Yrs β Op) (document : DocumentKey) (sent : Uuid → List (ClientFrame β))
    (own : Uuid → Set Op) (s s' : Session β Op) : Prop :=
  ∀ id n, s'.Acked id n → s.Acked id n ∨ ∀ bytes, .sourceUpdate n bytes ∈ sent id → ∀ op ∈ yrs.ops bytes,
    op ∈ own id → op ∈ stored yrs document s'.actor.database

namespace Session.Traced
variable {own : Uuid → Set Op}

/-- A step that acknowledges nothing. -/
theorem quiet (h : s.Traced sent) (hmailbox : ∀ entry ∈ s'.mailbox, entry ∈ s.mailbox ∨
      ∀ source user sequence bytes, entry.2 = .apply source user sequence bytes →
        .sourceUpdate sequence bytes ∈ sent source)
    (hpending : s'.actor.room.pending = s.actor.room.pending)
    (hacked : ∀ id n, s'.Acked id n → s.Acked id n) :
    s'.Traced sent ∧ s.Settles yrs document sent own s' := by
  refine ⟨⟨?_,?_,?_⟩,fun id n hack => Or.inl (hacked id n hack)⟩
  · intro entry hentry
    rcases hmailbox entry hentry with hold | hnew
    · exact h.mailbox entry hold
    · exact hnew
  · rw [hpending]
    exact h.pending
  · exact fun id n hack => h.acked id n (hacked id n hack)

theorem proceed_mailbox {entry : Uuid × RoomCommand β} (hentry : entry ∈ (s.proceed id c).mailbox) :
    entry ∈ s.mailbox ∨ ∀ source user sequence bytes, entry.2 = .apply source user sequence bytes →
      .sourceUpdate sequence bytes ∈ sent source := by
  simp only [Session.proceed] at hentry
  split at hentry
  · rcases List.mem_append.mp hentry with hentry | hentry
    · exact Or.inl hentry
    · rw [List.mem_singleton.mp hentry]
      exact Or.inr (fun _ _ _ _ happly => by cases happly)
  · exact Or.inl hentry

theorem whenServing_mailbox {arm : Connection β → RoomJoin β → ℕ → Session β Op} {entry : Uuid × RoomCommand β}
    (harm : ∀ c join cursor, entry ∈ (arm c join cursor).mailbox → entry ∈ s.mailbox ∨
      ∀ source user sequence bytes, entry.2 = .apply source user sequence bytes →
        .sourceUpdate sequence bytes ∈ sent source)
    (hentry : entry ∈ (s.whenServing id arm).mailbox) : entry ∈ s.mailbox ∨
      ∀ source user sequence bytes, entry.2 = .apply source user sequence bytes →
        .sourceUpdate sequence bytes ∈ sent source := by
  unfold Session.whenServing at hentry
  split at hentry
  · split at hentry
    · exact harm _ _ _ hentry
    · exact Or.inl hentry
  · exact Or.inl hentry

theorem enter (h : s.Traced sent) (id : Uuid) (readWrite : Bool) :
    (s.enter id readWrite).Traced sent ∧ s.Settles yrs document sent own (s.enter id readWrite) := by
  refine h.quiet ?_ (by rw [Session.enter_actor]) (fun _ _ => acked_enter)
  intro entry hentry
  unfold Session.enter at hentry
  split at hentry
  · exact Or.inl hentry
  · rcases List.mem_append.mp hentry with hentry | hentry
    · exact Or.inl hentry
    · rw [List.mem_singleton.mp hentry]
      exact Or.inr (fun _ _ _ _ happly => by cases happly)

theorem subscribe (h : s.Traced sent) (id : Uuid) :
    (s.subscribe id).Traced sent ∧ s.Settles yrs document sent own (s.subscribe id) := by
  have hsame : (s.subscribe id).actor = s.actor := by
    unfold Session.subscribe
    split
    · split <;> rfl
    · rfl
  refine h.quiet ?_ (by rw [hsame]) (fun _ _ => acked_subscribe)
  intro entry hentry
  unfold Session.subscribe at hentry
  split at hentry
  · split at hentry
    · exact proceed_mailbox hentry
    · exact Or.inl hentry
  · exact Or.inl hentry

theorem greet (h : s.Traced sent) (documentEpoch : ℕ) (id : Uuid) (accepted initial : Bool) :
    (s.greet documentEpoch id accepted initial).Traced sent ∧
      s.Settles yrs document sent own (s.greet documentEpoch id accepted initial) := by
  have hsame : (s.greet documentEpoch id accepted initial).actor = s.actor := by
    unfold Session.greet
    split
    · split
      · dsimp only
        split <;> rfl
      · rfl
    · rfl
  refine h.quiet ?_ (by rw [hsame]) (fun _ _ => acked_greet)
  intro entry hentry
  unfold Session.greet at hentry
  split at hentry
  · split at hentry
    · dsimp only at hentry
      split at hentry
      · exact proceed_mailbox hentry
      · exact proceed_mailbox hentry
    · exact Or.inl hentry
  · exact Or.inl hentry

theorem receive (h : s.Traced sent) (id : Uuid) (sends : Bool) :
    (s.receive id sends).Traced sent ∧ s.Settles yrs document sent own (s.receive id sends) := by
  have hsame : (s.receive id sends).actor = s.actor := Session.whenServing_actor (fun _ _ _ => rfl)
  refine h.quiet (fun entry hentry => whenServing_mailbox (fun _ _ _ hin => proceed_mailbox hin) hentry)
    (by rw [hsame]) (fun x n hack => ?_)
  exact acked_whenServing (fun c join cursor hget hin => acked_proceed hget hin (fun hc => hc.receive)) hack

theorem control (h : s.Traced sent) (id : Uuid) (sends : Bool) :
    (s.control id sends).Traced sent ∧ s.Settles yrs document sent own (s.control id sends) := by
  have hsame : (s.control id sends).actor = s.actor := Session.whenServing_actor (fun c _ _ => by split <;> rfl)
  refine h.quiet (fun entry hentry => whenServing_mailbox (fun c _ _ hin => ?_) hentry) (by rw [hsame])
    (fun _ _ => acked_control)
  split at hin
  · exact Or.inl hin
  · exact proceed_mailbox hin

theorem incoming (h : s.Traced sent) (id : Uuid) (user : UserId) {frame : ClientFrame β} (hframe : frame ∈ sent id)
    (authorized sends : Bool) : (s.incoming yrs id user frame authorized sends).Traced sent ∧
      s.Settles yrs document sent own (s.incoming yrs id user frame authorized sends) := by
  refine h.quiet (fun entry hentry => whenServing_mailbox (fun c join cursor hin => ?_) hentry)
    (by rw [Session.incoming_actor]) (fun _ _ => acked_incoming)
  have hpost : ∀ {entry' : Uuid × RoomCommand β}, entry ∈ s.mailbox ++ [entry'] →
      (∀ source user sequence bytes, entry'.2 = .apply source user sequence bytes →
        .sourceUpdate sequence bytes ∈ sent source) → entry ∈ s.mailbox ∨
      ∀ source user sequence bytes, entry.2 = .apply source user sequence bytes →
        .sourceUpdate sequence bytes ∈ sent source := by
    intro entry' hmem hnew
    rcases List.mem_append.mp hmem with hmem | hmem
    · exact Or.inl hmem
    · rw [List.mem_singleton.mp hmem]
      exact Or.inr hnew
  cases frame with
  | empty => exact proceed_mailbox hin
  | truncated => exact proceed_mailbox hin
  | unknown => exact proceed_mailbox hin
  | text => exact Or.inl hin
  | close => exact proceed_mailbox hin
  | ping =>
    dsimp only at hin
    split at hin
    · exact Or.inl hin
    · exact proceed_mailbox hin
  | flush => exact hpost hin (fun _ _ _ _ happly => by cases happly)
  | sourceUpdate sequence payload =>
    dsimp only at hin
    split at hin
    · exact proceed_mailbox hin
    split at hin
    · exact proceed_mailbox hin
    split at hin
    · exact proceed_mailbox hin
    split at hin
    · exact proceed_mailbox hin
    · refine hpost hin (fun source user' sequence' bytes happly => ?_)
      cases happly
      exact hframe

theorem reply_mailbox {sends : Bool} {e : Effect β} {entry : Uuid × RoomCommand β}
    (hentry : entry ∈ (s.reply id sends e).mailbox) : entry ∈ s.mailbox ∨
      ∀ source user sequence bytes, entry.2 = .apply source user sequence bytes →
        .sourceUpdate sequence bytes ∈ sent source := by
  cases e with
  | joined initialState durableSequence =>
    simp only [Session.reply] at hentry
    split at hentry
    · split at hentry
      · exact proceed_mailbox hentry
      · exact Or.inl hentry
    · exact Or.inl hentry
  | flushed result =>
    simp only [Session.reply] at hentry
    split at hentry
    · split at hentry
      · cases result with
        | ok sequence => exact proceed_mailbox hentry
        | error message => exact proceed_mailbox hentry
      · exact Or.inl hentry
    · exact Or.inl hentry
  | control acknowledgements update message database => exact Or.inl hentry
  | event event => exact Or.inl hentry

theorem replies_mailbox {sends : Bool} {effects : List (Effect β)} {entry : Uuid × RoomCommand β}
    (hentry : entry ∈ (s.replies id sends effects).mailbox) : entry ∈ s.mailbox ∨
      ∀ source user sequence bytes, entry.2 = .apply source user sequence bytes →
        .sourceUpdate sequence bytes ∈ sent source := by
  unfold Session.replies at hentry
  induction effects generalizing s with
  | nil => exact Or.inl hentry
  | cons e rest ih =>
    rcases ih hentry with hold | hnew
    · exact reply_mailbox hold
    · exact Or.inr hnew

theorem replies (h : s.Traced sent) (hunique : ∀ x n bytes bytes', .sourceUpdate n bytes ∈ sent x →
      .sourceUpdate n bytes' ∈ sent x → bytes = bytes') {actor : Actor β Op}
    {mailbox : List (Uuid × RoomCommand β)} (hmailbox : mailbox ⊆ s.mailbox) (id : Uuid) (sends : Bool)
    {effects : List (Effect β)}
    (hpending : ∀ u ∈ actor.room.pending, .sourceUpdate u.clientSequence u.bytes ∈ sent u.acknowledgements)
    (hacks : ∀ e ∈ effects, ∀ x n bytes, e.acks? = some (x,n,bytes) → .sourceUpdate n bytes ∈ sent x ∧
      ∀ op ∈ yrs.ops bytes, op ∈ own x → op ∈ stored yrs document actor.database) :
    Session.Traced sent (Session.replies { s with
        actor := actor
        mailbox := mailbox } id sends effects) ∧
      s.Settles yrs document sent own (Session.replies { s with
        actor := actor
        mailbox := mailbox } id sends effects) := by
  have hnew : ∀ x n, (Session.replies { s with
      actor := actor
      mailbox := mailbox } id sends effects).Acked x n → s.Acked x n ∨
        ∃ bytes, .sourceUpdate n bytes ∈ sent x ∧ ∀ op ∈ yrs.ops bytes, op ∈ own x →
          op ∈ stored yrs document actor.database := by
    intro x n hack
    rcases acked_replies hack with hold | ⟨e,he,bytes,hbytes⟩
    · exact Or.inl hold
    · exact Or.inr ⟨bytes,hacks e he x n bytes hbytes⟩
  refine ⟨⟨?_,?_,?_⟩,?_⟩
  · intro entry hentry
    rcases replies_mailbox hentry with hold | hnew
    · exact h.mailbox entry (hmailbox hold)
    · exact hnew
  · rw [Session.replies_actor]
    exact hpending
  · intro x n hack
    rcases hnew x n hack with hold | ⟨bytes,hbytes,-⟩
    · exact h.acked x n hold
    · exact ⟨bytes,hbytes⟩
  · intro x n hack
    rcases hnew x n hack with hold | ⟨bytes,hbytes,hops⟩
    · exact Or.inl hold
    · refine Or.inr (fun bytes' hbytes' => ?_)
      rw [Session.replies_actor,← hunique x n bytes bytes' hbytes hbytes']
      exact hops

variable [DecidableEq β] [DecidableEq Op]

theorem act (h : s.Traced sent) (hsound : s.actor.Sound yrs document)
    (hunique : ∀ x n bytes bytes', .sourceUpdate n bytes ∈ sent x → .sourceUpdate n bytes' ∈ sent x →
      bytes = bytes') (hrepeats : ¬s.Repeats yrs document own) (o : Outcomes) (sends : Bool) :
    (s.step yrs document (.act o sends)).Traced sent ∧
      s.Settles yrs document sent own (s.step yrs document (.act o sends)) := by
  simp only [Session.step]
  split
  · exact h.quiet (fun _ hentry => Or.inl hentry) rfl (fun _ _ hack => hack)
  · next id command rest hmail =>
    have hmem : (id,command) ∈ s.mailbox := by
      rw [hmail]
      exact List.mem_cons_self ..
    have hrest : rest ⊆ s.mailbox := by
      rw [hmail]
      exact List.subset_cons_self ..
    have hgrows := (hsound.command_effect o command).stored
    refine h.replies hunique hrest id sends ?_ ?_
    · intro u hu
      rcases command_pending s.actor o command u hu with hold | happly
      · exact h.pending u hold
      · exact h.mailbox (id,command) hmem _ _ _ _ happly
    · intro e he x n bytes hbytes
      obtain ⟨hfrom,hops⟩ := hsound.command_acks o command e he bytes hbytes
      constructor
      · rcases hfrom with ⟨u,hu,rfl,rfl,rfl⟩ | ⟨user,happly⟩
        · exact h.pending u hu
        · exact h.mailbox (id,command) hmem x user n bytes happly
      · intro op hop hown
        rcases hops with hstored | ⟨user,update,happly,hdec,hsub⟩
        · exact hstored hop
        · by_contra hno
          rw [mem_ops hdec] at hop
          exact hrepeats ⟨(id,command),rest,x,user,n,bytes,update,hmail,happly,hdec,hsub,op,hop,hown,
            fun hin => hno (hgrows hin)⟩

theorem tick (h : s.Traced sent) (hsound : s.actor.Sound yrs document)
    (hunique : ∀ x n bytes bytes', .sourceUpdate n bytes ∈ sent x → .sourceUpdate n bytes' ∈ sent x →
      bytes = bytes') (o : Outcomes) : (s.step yrs document (.tick o)).Traced sent ∧
      s.Settles yrs document sent own (s.step yrs document (.tick o)) := by
  refine h.replies hunique (List.Subset.refl _) 0 true ?_ ?_
  · exact fun u hu => h.pending u (flushIfPending_pending s.actor o u hu)
  · intro e he x n bytes hbytes
    obtain ⟨⟨u,hu,rfl,rfl,rfl⟩,hstored⟩ := hsound.flushIfPending_acks o e he bytes hbytes
    exact ⟨h.pending u hu,fun op hop _ => hstored hop⟩

omit [DecidableEq β] in
theorem restart (h : s.Traced sent) (hsound : s.actor.Sound yrs document) (source : Except String (Finset Op))
    (save : Outcome) : (Tabs.restart yrs document s source save).Traced sent ∧
      s.Settles yrs document sent own (Tabs.restart yrs document s source save) := by
  obtain ⟨doc,sequence,hload,-⟩ :=
    hsound.stored.load hsound.attached.epoch hsound.attached.based source save
  unfold Tabs.restart
  rw [hload]
  have hacked : ∀ id n, Session.Acked (⟨⟨s.actor.database,.spawn doc sequence⟩,[],[],
      s.connections.updateWhere (fun _ _ => true) (fun c => { c with phase := .closed })⟩ : Session β Op) id n →
        s.Acked id n := by
    rintro id n ⟨d,hd,hack⟩
    simp only [Table.get?_updateWhere] at hd
    obtain ⟨c,hget,rfl⟩ := Option.map_eq_some_iff.mp hd
    exact ⟨c,hget,hack.of_same rfl rfl⟩
  refine ⟨⟨?_,?_,fun id n hack => h.acked id n (hacked id n hack)⟩,fun id n hack => Or.inl (hacked id n hack)⟩
  · intro entry hentry
    cases hentry
  · intro u hu
    cases hu

theorem roomStep (h : s.Traced sent) (hsound : s.actor.Sound yrs document)
    (hunique : ∀ x n bytes bytes', .sourceUpdate n bytes ∈ sent x → .sourceUpdate n bytes' ∈ sent x →
      bytes = bytes') (label : RoomLabel β Op)
    (hrepeats : ∀ o sends, label = .act o sends → ¬s.Repeats yrs document own) :
    (Tabs.roomStep yrs document s label).Traced sent ∧
      s.Settles yrs document sent own (Tabs.roomStep yrs document s label) := by
  have hsame : ∀ {s' : Session β Op}, s'.mailbox = s.mailbox → s'.actor.room = s.actor.room →
      s'.connections = s.connections → s'.Traced sent ∧ s.Settles yrs document sent own s' := by
    intro s' hmailbox hroom hconnections
    refine h.quiet (fun entry hentry => Or.inl (hmailbox ▸ hentry)) (by rw [hroom]) ?_
    rintro id n ⟨d,hd,hack⟩
    exact ⟨d,hconnections ▸ hd,hack⟩
  cases label with
  | act o sends => exact h.act hsound hunique (hrepeats o sends rfl) o sends
  | tick o => exact h.tick hsound hunique o
  | subscribe id => exact h.subscribe id
  | greet id accepted initial => exact h.greet _ id accepted initial
  | receive id sends => exact h.receive id sends
  | control id sends => exact h.control id sends
  | hub event => cases event <;> exact hsame rfl rfl rfl
  | drop id =>
    refine h.quiet (fun entry hentry => ?_) ?_ (fun _ _ => acked_incoming)
    · exact whenServing_mailbox (fun _ _ _ hin => proceed_mailbox hin) hentry
    · simp only [Tabs.roomStep,Session.step,Session.incoming_actor]
  | restart source save => exact h.restart hsound source save
  | administer files documentEpochs => exact hsame rfl rfl rfl
  | batchElsewhere other inputs batch =>
    simp only [Tabs.roomStep]
    split <;> exact hsame rfl rfl rfl
  | snapshotElsewhere other through bytes =>
    simp only [Tabs.roomStep]
    split <;> exact hsame rfl rfl rfl

end Session.Traced
end LatexCore.Collaboration
