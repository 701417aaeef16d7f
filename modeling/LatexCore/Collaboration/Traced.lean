import LatexCore.Collaboration.Reactions

/-! # Acknowledgements traced to their updates

An acknowledgement carries the sequence number of the client, through the mailbox,
the pending batch and the control channel of the connection. Every number in them
is one of an update that the socket has sent, and a number that is new in a step
answers an update whose operations are stored by then, unless the room has only
found nothing new in it.
-/
namespace LatexCore.Collaboration
open Core Foundation
variable {β Op : Type}

/-- The acknowledgements on the way to a client, or there. -/
def Connection.Acks (c : Connection β) (sequence : ℕ) : Prop :=
  ∃ durableSeq, .durableAck sequence durableSeq ∈ c.controls ∨
    .control (.durableAck sequence durableSeq) ∈ c.frames

def Session.Acked (s : Session β Op) (id : Uuid) (sequence : ℕ) : Prop :=
  ∃ c, s.connections.get? id = some c ∧ c.Acks sequence

def Effect.acks? : Effect β → Option (Uuid × ℕ × β)
  | .control acknowledgements update (.durableAck sequence _) _ => some (acknowledgements,sequence,update)
  | _ => none

structure Session.Traced (sent : Uuid → List (ClientFrame β)) (s : Session β Op) : Prop where
  mailbox : ∀ entry ∈ s.mailbox, ∀ source user sequence bytes,
    entry.2 = .apply source user sequence bytes → .sourceUpdate sequence bytes ∈ sent source
  pending : ∀ u ∈ s.actor.room.pending, .sourceUpdate u.clientSequence u.bytes ∈ sent u.acknowledgements
  acked : ∀ id sequence, s.Acked id sequence → ∃ bytes, .sourceUpdate sequence bytes ∈ sent id

variable {yrs : Yrs β Op} {document : DocumentKey} {s s' : Session β Op} {id x : Uuid} {n : ℕ} {c c' : Connection β}
  {sent : Uuid → List (ClientFrame β)}

/-! ## Connections -/

namespace Connection.Acks

theorem of_same (h : c'.Acks n) (hcontrols : c'.controls = c.controls) (hframes : c'.frames = c.frames) :
    c.Acks n := by
  unfold Connection.Acks at h
  rwa [hcontrols,hframes] at h

theorem send (frame : Frame β) (hframe : ∀ sequence durableSeq, frame ≠ .control (.durableAck sequence durableSeq))
    {sends : Bool} (h : (c.send frame sends).Acks n) : c.Acks n := by
  obtain ⟨durableSeq,h⟩ := h
  cases sends with
  | false => exact ⟨durableSeq,h⟩
  | true =>
    refine ⟨durableSeq,h.imp_right (fun hmem => ?_)⟩
    rcases List.mem_append.mp hmem with hmem | hmem
    · exact hmem
    · exact absurd (List.mem_singleton.mp hmem).symm (hframe n durableSeq)

theorem sendLast (frame : Frame β)
    (hframe : ∀ sequence durableSeq, frame ≠ .control (.durableAck sequence durableSeq)) {sends : Bool}
    (h : (c.sendLast frame sends).Acks n) : c.Acks n := by
  have hsent : (c.send frame sends).Acks n := h.of_same rfl rfl
  exact send frame hframe hsent

theorem handleEvent {event : RoomEvent β} {sends : Bool} (h : (c.handleEvent id sends event).Acks n) :
    c.Acks n := by
  cases event with
  | update source bytes =>
    simp only [Connection.handleEvent] at h
    split at h
    · exact h
    · exact send (.remoteSourceUpdate bytes) (by simp) h
  | durable sequence => exact send (.remoteDurable sequence) (by simp) h
  | reloadRequired => exact sendLast (.reloadRequired _) (by simp) h
  | policyChanged => exact sendLast (.policyChanged _) (by simp) h
  | epochChanged documentEpoch => exact sendLast (.paperEpochChanged documentEpoch) (by simp) h

theorem receive {join : RoomJoin β} {cursor : ℕ} {events : List (RoomEvent β)} {sends : Bool}
    (h : (c.receive id join cursor events sends).Acks n) : c.Acks n := by
  unfold Connection.receive at h
  split at h
  · exact h
  · exact sendLast (.control (.error "reload_required" _)) (by simp) h
  · exact (handleEvent h).of_same rfl rfl

end Connection.Acks

/-! ## Steps of the connections -/

theorem acked_proceed (hget : s.connections.get? id = some c) (h : (s.proceed id c').Acked x n)
    (hacks : c'.Acks n → c.Acks n) : s.Acked x n := by
  obtain ⟨d,hd,hack⟩ := h
  simp only [Session.proceed] at hd
  rw [Table.get?_modify] at hd
  split at hd
  · next hx =>
    rw [hx,hget] at hd
    cases hd
    exact ⟨c,hx ▸ hget,hacks hack⟩
  · exact ⟨d,hd,hack⟩

theorem acked_whenServing {arm : Connection β → RoomJoin β → ℕ → Session β Op}
    (harm : ∀ c join cursor, s.connections.get? id = some c → (arm c join cursor).Acked x n → s.Acked x n)
    (h : (s.whenServing id arm).Acked x n) : s.Acked x n := by
  unfold Session.whenServing at h
  split at h
  · next c hget =>
    split at h
    · exact harm c _ _ hget h
    · exact h
  · exact h

theorem acked_enter {readWrite : Bool} (h : (s.enter id readWrite).Acked x n) : s.Acked x n := by
  unfold Session.enter at h
  split at h
  · exact h
  · next connections hins =>
    obtain ⟨d,hd,hack⟩ := h
    dsimp only at hd
    rw [Table.get?_insert? hins] at hd
    split at hd
    · cases hd
      obtain ⟨_,hmem | hmem⟩ := hack
      · cases hmem
      · cases hmem
    · exact ⟨d,hd,hack⟩

theorem acked_subscribe (h : (s.subscribe id).Acked x n) : s.Acked x n := by
  unfold Session.subscribe at h
  split at h
  · next c hget =>
    split at h
    · exact acked_proceed hget h (fun hack => hack.of_same rfl rfl)
    · exact h
  · exact h

theorem acked_greet {documentEpoch : ℕ} {accepted initial : Bool}
    (h : (s.greet documentEpoch id accepted initial).Acked x n) : s.Acked x n := by
  unfold Session.greet at h
  split at h
  · next c hget =>
    split at h
    · dsimp only at h
      split at h
      · exact acked_proceed hget h (fun hack => .send (.joinAccepted ..) (by simp) hack)
      · refine acked_proceed hget h (fun hack => ?_)
        have hfirst := (Connection.Acks.send (.initialState _) (by simp) hack)
        exact .send (.joinAccepted ..) (by simp) (hfirst.of_same rfl rfl)
    · exact h
  · exact h

theorem acked_control {sends : Bool} (h : (s.control id sends).Acked x n) : s.Acked x n := by
  refine acked_whenServing (fun c join cursor hget h => ?_) h
  split at h
  · exact h
  · next message rest hcontrols =>
    refine acked_proceed hget h (fun hack => ?_)
    obtain ⟨durableSeq,hmem⟩ := hack
    have hrest : rest ⊆ c.controls := by
      rw [hcontrols]
      exact List.subset_cons_self ..
    have hmessage : message ∈ c.controls := by
      rw [hcontrols]
      exact List.mem_cons_self ..
    cases sends with
    | false => exact ⟨durableSeq,hmem.imp_left (fun hin => hrest hin)⟩
    | true =>
      rcases hmem with hmem | hmem
      · exact ⟨durableSeq,Or.inl (hrest hmem)⟩
      · rcases List.mem_append.mp hmem with hmem | hmem
        · exact ⟨durableSeq,Or.inr hmem⟩
        · cases List.mem_singleton.mp hmem
          exact ⟨durableSeq,Or.inl hmessage⟩

theorem acked_incoming {user : UserId} {frame : ClientFrame β} {authorized sends : Bool}
    (h : (s.incoming yrs id user frame authorized sends).Acked x n) : s.Acked x n := by
  refine acked_whenServing (fun c join cursor hget h => ?_) h
  have hrefuse : ∀ code message,
      (s.proceed id (c.sendLast (.control (.error code message)) sends)).Acked x n → s.Acked x n :=
    fun code message hack => acked_proceed hget hack
      (fun hc => .sendLast (.control (.error code message)) (by simp) hc)
  cases frame with
  | empty => exact hrefuse _ _ h
  | truncated => exact hrefuse _ _ h
  | unknown => exact hrefuse _ _ h
  | text => exact h
  | close => exact acked_proceed hget h (fun hc => hc.of_same rfl rfl)
  | ping =>
    dsimp only at h
    split at h
    · exact h
    · exact acked_proceed hget h (fun hc => hc.of_same rfl rfl)
  | flush =>
    have hsame : (s.proceed id { c with phase := .subscribed .flushing join cursor }).Acked x n := h
    exact acked_proceed hget hsame (fun hc => hc.of_same rfl rfl)
  | sourceUpdate sequence payload =>
    dsimp only at h
    split at h
    · exact hrefuse _ _ h
    split at h
    · exact hrefuse _ _ h
    split at h
    · exact hrefuse _ _ h
    split at h
    · exact hrefuse _ _ h
    · exact h

/-! ## Replies -/

theorem acked_reply {sends : Bool} {e : Effect β} (h : (s.reply id sends e).Acked x n) :
    s.Acked x n ∨ ∃ bytes, e.acks? = some (x,n,bytes) := by
  cases e with
  | joined initialState durableSequence =>
    left
    simp only [Session.reply] at h
    split at h
    · next c hget =>
      split at h
      · exact acked_proceed hget h (fun hc => hc.of_same rfl rfl)
      · exact h
    · exact h
  | flushed result =>
    left
    simp only [Session.reply] at h
    split at h
    · next c hget =>
      split at h
      · cases result with
        | ok sequence =>
          exact acked_proceed hget h (fun hc => (Connection.Acks.send (.flushed sequence) (by simp) hc).of_same rfl rfl)
        | error message =>
          cases sends with
          | true =>
            simp only [if_true] at h
            exact acked_proceed hget h (fun hc =>
              (Connection.Acks.send (.control (.error "durability" message)) (by simp) hc).of_same rfl rfl)
          | false => exact acked_proceed hget h (fun hc => hc.of_same rfl rfl)
      · exact h
    · exact h
  | event event => exact Or.inl h
  | control acknowledgements update message database =>
    obtain ⟨d,hd,hack⟩ := h
    simp only [Session.reply] at hd
    rw [Table.get?_modify] at hd
    split at hd
    · next hx =>
      obtain ⟨c,hget,rfl⟩ := Option.map_eq_some_iff.mp hd
      obtain ⟨durableSeq,hmem | hmem⟩ := hack
      · rcases List.mem_append.mp hmem with hmem | hmem
        · exact Or.inl ⟨c,hx ▸ hget,durableSeq,Or.inl hmem⟩
        · cases List.mem_singleton.mp hmem
          exact Or.inr ⟨update,by rw [hx]; rfl⟩
      · exact Or.inl ⟨c,hx ▸ hget,durableSeq,Or.inr hmem⟩
    · exact Or.inl ⟨d,hd,hack⟩

theorem acked_replies {sends : Bool} {effects : List (Effect β)} (h : (s.replies id sends effects).Acked x n) :
    s.Acked x n ∨ ∃ e ∈ effects, ∃ bytes, e.acks? = some (x,n,bytes) := by
  unfold Session.replies at h
  induction effects generalizing s with
  | nil => exact Or.inl h
  | cons e rest ih =>
    rcases ih h with h | ⟨e',he',hack⟩
    · rcases acked_reply h with h | hack
      · exact Or.inl h
      · exact Or.inr ⟨e,List.mem_cons_self ..,hack⟩
    · exact Or.inr ⟨e',List.mem_cons_of_mem _ he',hack⟩

/-! ## Commands of the actor -/

variable {a : Actor β Op}

def FromBatch (a : Actor β Op) (x : Uuid) (n : ℕ) (bytes : β) : Prop :=
  ∃ u ∈ a.room.pending, u.acknowledgements = x ∧ u.clientSequence = n ∧ u.bytes = bytes

theorem flushPending_pending (a : Actor β Op) (o : Outcomes) :
    ∀ u ∈ (a.flushPending document o).1.1.room.pending, u ∈ a.room.pending := by
  unfold Actor.flushPending
  split
  · intro u hu
    cases hu
  · exact fun u hu => hu

theorem flushIfPending_pending (a : Actor β Op) (o : Outcomes) :
    ∀ u ∈ (a.flushIfPending document o).1.room.pending, u ∈ a.room.pending := by
  unfold Actor.flushIfPending
  split
  · exact fun u hu => hu
  · exact flushPending_pending a o

theorem snapshotIfDue_pending (a : Actor β Op) (o : Outcomes) :
    (a.snapshotIfDue yrs document o).room.pending = a.room.pending := by
  unfold Actor.snapshotIfDue
  split
  · split <;> rfl
  · rfl

theorem snapshotIfEmpty_pending (a : Actor β Op) (o : Outcomes) :
    (a.snapshotIfEmpty yrs document o).room.pending = a.room.pending := by
  unfold Actor.snapshotIfEmpty
  split <;> rfl

section Stored
variable [DecidableEq Op]

theorem Actor.Sound.flushPending_acks (h : a.Sound yrs document) (o : Outcomes) :
    ∀ e ∈ (a.flushPending document o).1.2, ∀ bytes, e.acks? = some (x,n,bytes) → FromBatch a x n bytes ∧
      yrs.ops bytes ⊆ Collaboration.stored yrs document (a.flushPending document o).1.1.database := by
  intro e he bytes hacks
  have hbatch : FromBatch a x n bytes ∧ ∃ sequence, (a.flushPending document o).2 = .ok sequence := by
    unfold Actor.flushPending at he ⊢
    split at he
    · next sequence _ =>
      refine ⟨?_,sequence,rfl⟩
      rcases List.mem_append.mp he with he | he
      · obtain ⟨u,hu,rfl⟩ := List.mem_map.mp he
        cases hacks
        exact ⟨u,hu,rfl,rfl,rfl⟩
      · rw [List.mem_singleton.mp he] at hacks
        cases hacks
    · cases he
  obtain ⟨⟨u,hu,hx,hn,hbytes⟩,sequence,hok⟩ := hbatch
  refine ⟨⟨u,hu,hx,hn,hbytes⟩,?_⟩
  have hall := ((h.flushPending o).1).stored_of_empty ((h.stored_flushPending o).2 sequence hok)
  rw [flushPending_doc] at hall
  refine Set.Subset.trans ?_ hall
  intro op hop
  exact h.attached.held ⟨u,hu,hbytes ▸ hop⟩

theorem Actor.Sound.flushIfPending_acks (h : a.Sound yrs document) (o : Outcomes) :
    ∀ e ∈ (a.flushIfPending document o).2, ∀ bytes, e.acks? = some (x,n,bytes) → FromBatch a x n bytes ∧
      yrs.ops bytes ⊆ Collaboration.stored yrs document (a.flushIfPending document o).1.database := by
  unfold Actor.flushIfPending
  split
  · intro e he
    cases he
  · exact h.flushPending_acks o

end Stored

variable [DecidableEq β] [DecidableEq Op]

theorem command_pending (a : Actor β Op) (o : Outcomes) (command : RoomCommand β) :
    ∀ u ∈ (a.command yrs document o command).1.room.pending, u ∈ a.room.pending ∨
      command = .apply u.acknowledgements u.actor u.clientSequence u.bytes := by
  cases command with
  | join writer =>
    intro u hu
    simp only [Actor.command,Actor.due,snapshotIfDue_pending] at hu
    exact Or.inl hu
  | flush =>
    intro u hu
    simp only [Actor.command,Actor.due,snapshotIfDue_pending,Actor.flush] at hu
    split at hu
    · exact Or.inl hu
    · exact Or.inl (flushPending_pending a o u hu)
  | leave writer =>
    intro u hu
    simp only [Actor.command,Actor.due,snapshotIfDue_pending,Actor.leave,snapshotIfEmpty_pending] at hu
    split at hu
    · have hin := flushIfPending_pending { a with room := a.room.leave writer } o u hu
      exact Or.inl hin
    · exact Or.inl hu
  | apply source actor clientSequence bytes =>
    intro u hu
    simp only [Actor.command] at hu
    split at hu
    · next doc _ =>
      simp only [Actor.due,snapshotIfDue_pending,Actor.accepted] at hu
      have hin : u ∈ (a.room.accept yrs doc source actor clientSequence bytes).pending := by
        split at hu
        · exact flushPending_pending _ o u hu
        · exact hu
      rcases List.mem_append.mp hin with hin | hin
      · exact Or.inl hin
      · rw [List.mem_singleton.mp hin]
        exact Or.inr rfl
    · exact Or.inl hu
    · exact Or.inl hu

theorem Actor.Sound.command_acks (h : a.Sound yrs document) (o : Outcomes) (command : RoomCommand β) :
    ∀ e ∈ (a.command yrs document o command).2, ∀ bytes, e.acks? = some (x,n,bytes) →
      (FromBatch a x n bytes ∨ ∃ user, command = .apply x user n bytes) ∧
        (yrs.ops bytes ⊆ Collaboration.stored yrs document (a.command yrs document o command).1.database ∨
          ∃ user update, command = .apply x user n bytes ∧ yrs.decodeV1 bytes = .ok update ∧
            update ⊆ a.room.doc) := by
  cases command with
  | join writer =>
    intro e he bytes hacks
    simp only [Actor.command,Actor.due,Actor.join,List.mem_singleton] at he
    rw [he] at hacks
    cases hacks
  | flush =>
    intro e he bytes hacks
    have hdue := (h.flush o).1.stored_snapshotIfDue o
    simp only [Actor.command,Actor.due] at he ⊢
    have hflush : FromBatch a x n bytes ∧
        yrs.ops bytes ⊆ Collaboration.stored yrs document (a.flush document o).1.database := by
      unfold Actor.flush at he ⊢
      split at he
      · rw [List.mem_singleton.mp he] at hacks
        cases hacks
      · next hne =>
        rw [if_neg hne]
        rcases List.mem_append.mp he with he | he
        · exact h.flushPending_acks o e he bytes hacks
        · rw [List.mem_singleton.mp he] at hacks
          cases hacks
    exact ⟨Or.inl hflush.1,Or.inl (hflush.2.trans hdue)⟩
  | leave writer =>
    intro e he bytes hacks
    have hleft : Actor.Sound yrs document { a with room := a.room.leave writer } := ⟨h.stored,h.attached⟩
    simp only [Actor.command,Actor.due,Actor.leave] at he ⊢
    split at he
    · next hwriters =>
      rw [if_pos hwriters]
      have hsound := (hleft.flushIfPending o).1
      have hempty := hsound.stored_snapshotIfEmpty o
      have hdue := (hsound.snapshotIfEmpty o).stored_snapshotIfDue o
      obtain ⟨hbatch,hstored⟩ := hleft.flushIfPending_acks o e he bytes hacks
      exact ⟨Or.inl hbatch,Or.inl (hstored.trans (hempty.trans hdue))⟩
    · cases he
  | apply source actor clientSequence update =>
    intro e he bytes hacks
    simp only [Actor.command] at he ⊢
    cases happly : applyUpdateIfChanged yrs a.room.doc update with
    | error message =>
      rw [happly] at he
      rw [List.mem_singleton.mp he] at hacks
      cases hacks
    | ok r =>
      obtain ⟨doc,changed⟩ := r
      obtain ⟨ops,hdec,rfl,hchanged⟩ := (applyUpdateIfChanged_ok yrs).mp happly
      rw [happly] at he
      cases changed with
      | false =>
        rw [List.mem_singleton.mp he] at hacks
        cases hacks
        exact ⟨Or.inr ⟨actor,rfl⟩,Or.inr ⟨actor,ops,rfl,hdec,by simpa using hchanged.symm⟩⟩
      | true =>
        have haccept := h.accept hdec source actor clientSequence
        have hdue := (haccept.accepted o source update).1.stored_snapshotIfDue o
        simp only [Actor.due] at he ⊢
        rcases List.mem_cons.mp he with rfl | he
        · cases hacks
        · simp only [Actor.accepted] at hdue
          split at he
          · next hlarge =>
            rw [if_pos hlarge] at hdue
            obtain ⟨⟨u,hu,hx,hn,hbytes⟩,hstored⟩ := haccept.flushPending_acks o e he bytes hacks
            refine ⟨?_,Or.inl ?_⟩
            · rcases List.mem_append.mp hu with hu | hu
              · exact Or.inl ⟨u,hu,hx,hn,hbytes⟩
              · rw [List.mem_singleton.mp hu] at hx hn hbytes
                cases hx
                cases hn
                cases hbytes
                exact Or.inr ⟨actor,rfl⟩
            · simp only [Actor.accepted,if_pos hlarge]
              exact hstored.trans hdue
          · cases he

end LatexCore.Collaboration
