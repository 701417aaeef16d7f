import LatexCore.Collaboration.Answered

/-! # Reactions between flush and answer

The reaction of the actor to a flush is followed up to its answer: the connection
waits until then, and all that it has sent is stored when the answer is a
success. Every other reaction keeps the order of flushes and updates, and so does
the rest of the system at the database of a room.
-/
namespace LatexCore.Collaboration
open Core Foundation
variable {β Op : Type} {yrs : Yrs β Op} {document : DocumentKey} {s : Session β Op}
  {taken : Uuid → List (ClientFrame β)} {received : Uuid → List (Frame β)} {id : Uuid} {c : Connection β}

def Session.Waiting (yrs : Yrs β Op) (document : DocumentKey) (s : Session β Op)
    (taken : Uuid → List (ClientFrame β)) (id : Uuid) (result : Except String ℕ) : Prop :=
  ∀ c join cursor, s.connections.get? id = some c → c.phase = .subscribed .flushing join cursor →
    (∀ entry ∈ s.mailbox, isFlushOf id entry = false) ∧
    answerCount c.frames + 1 ≤ flushes (taken id) ∧ ∀ sequence, result = .ok sequence →
      updateOps yrs (taken id) ⊆ stored yrs document s.actor.database

namespace Session.Answered

/-! ## Replies -/

theorem reply_plain (h : s.Answered yrs document taken received) (id : Uuid) (sends : Bool) {e : Effect β}
    (he : e.plain = true) :
    (s.reply id sends e).Answered yrs document taken received := by
  cases e with
  | flushed result => cases he
  | event event => exact h.congr h.sound rfl subset_rfl rfl rfl
  | joined initialState durableSequence =>
    simp only [Session.reply]
    split
    · next c hget =>
      split
      · next hphase =>
        refine h.continues hget ?_ ?_ (.phase c _)
        · unfold Connection.closes
          rw [hphase]
        · intro join cursor hflushing
          rw [hphase] at hflushing
          cases hflushing
      · exact h
    · exact h
  | control acknowledgements update message database =>
    have hmessage : message.isDurability = false := by simpa [Effect.plain] using he
    refine h.modify acknowledgements (fun c => { c with controls := c.controls ++ [message] }) ?_
    intro c hget
    have hold := h.connection acknowledgements c hget
    refine ⟨⟨hold.applied,hold.asked,hold.answered,?_,hold.received⟩,Or.inr rfl⟩
    intro message' hmem
    rcases List.mem_append.mp hmem with hmem | hmem
    · exact hold.controls message' hmem
    · rw [List.mem_singleton.mp hmem]
      exact hmessage

theorem waiting_plain {result : Except String ℕ} (h : s.Waiting yrs document taken id result) (sends : Bool)
    {e : Effect β} (he : e.plain = true) : (s.reply id sends e).Waiting yrs document taken id result := by
  cases e with
  | flushed result => cases he
  | event event => exact h
  | joined initialState durableSequence =>
    simp only [Session.reply]
    split
    · next c hget =>
      split
      · next hphase =>
        intro d join cursor hd hflushing
        rw [proceed_get? hget] at hd
        cases hd
        cases hflushing
      · exact h
    · exact h
  | control acknowledgements update message database =>
    intro d join cursor hd hphase
    change (s.connections.modify acknowledgements _).get? id = some d at hd
    rw [Table.get?_modify] at hd
    split at hd
    · obtain ⟨c,hget,rfl⟩ := Option.map_eq_some_iff.mp hd
      exact h c join cursor hget hphase
    · exact h d join cursor hd hphase

theorem replies_plain (h : s.Answered yrs document taken received) (id : Uuid) (sends : Bool)
    (effects : List (Effect β)) (he : ∀ e ∈ effects, e.plain = true) :
    (s.replies id sends effects).Answered yrs document taken received ∧
      ∀ result, s.Waiting yrs document taken id result →
        (s.replies id sends effects).Waiting yrs document taken id result := by
  unfold Session.replies
  induction effects generalizing s with
  | nil => exact ⟨h,fun _ hw => hw⟩
  | cons e rest ih =>
    have hplain := he e (List.mem_cons_self ..)
    have hrest := ih (h.reply_plain id sends hplain) (fun e' he' => he e' (List.mem_cons_of_mem _ he'))
    exact ⟨hrest.1,fun result hw => hrest.2 result (waiting_plain hw sends hplain)⟩

theorem answer (h : s.Answered yrs document taken received) (hget : s.connections.get? id = some c)
    {join : RoomJoin β} {cursor : ℕ} (hphase : c.phase = .subscribed .flushing join cursor)
    {result : Except String ℕ} (hw : s.Waiting yrs document taken id result) (frame : Frame β)
    (hframe : ∀ sequence, frame = .flushed sequence → result = .ok sequence) :
    (s.proceed id { c with
      phase := .subscribed .serving join cursor
      frames := c.frames ++ [frame] }).Answered yrs document taken received := by
  obtain ⟨hnone,hcount,hstored⟩ := hw c join cursor hget hphase
  have hold := h.connection id c hget
  refine h.proceed hget (Or.inl hnone) ⟨fun _ => hold.applied (Connection.closes_of_phase hphase),?_,?_,
    hold.controls,hold.received.trans (List.prefix_append _ _)⟩
  · have hquiet : s.mailbox.countP (isFlushOf id) = 0 := by
      rw [List.countP_eq_zero]
      intro entry hentry
      rw [hnone entry hentry]
      exact Bool.false_ne_true
    have hone : answerCount [frame] ≤ 1 := List.countP_le_length
    dsimp only
    rw [answerCount_append,hquiet]
    omega
  · intro before sequence after hsplit
    rcases List.eq_nil_or_concat after with rfl | ⟨rest,last,rfl⟩
    · obtain ⟨-,hlast⟩ := List.append_inj' hsplit rfl
      have hok := hframe sequence (List.singleton_inj.mp hlast)
      exact (updateOps_mono (beforeFlush_subset _ _)).trans (hstored sequence hok)
    · rw [List.concat_eq_append,← List.cons_append,← List.append_assoc] at hsplit
      exact hold.answered before sequence rest (List.append_inj_left' hsplit rfl)

theorem reply_flushed (h : s.Answered yrs document taken received) {result : Except String ℕ}
    (hw : s.Waiting yrs document taken id result) (sends : Bool) :
    (s.reply id sends (.flushed result)).Answered yrs document taken received := by
  simp only [Session.reply]
  split
  · next c hget =>
    split
    · next join cursor hphase =>
      have hopen := Connection.closes_of_phase hphase
      have hidle := (hw c join cursor hget hphase).1
      have hmoves (phase : Phase β) : (s.proceed id { c with phase := phase }).Answered yrs document taken received :=
        h.proceed hget (Or.inl hidle) ((h.connection id c hget).continues (.phase c _) (fun _ => hopen))
      cases result with
      | ok sequence =>
        cases sends with
        | true => exact h.answer hget hphase hw (.flushed sequence) (fun n hn => by cases hn; rfl)
        | false => exact hmoves .closed
      | error e =>
        cases sends with
        | true => exact h.answer hget hphase hw (.control (.error "durability" e)) (fun n hn => by cases hn)
        | false => exact hmoves _
    · exact h
  · exact h

/-! ## Reactions -/

theorem command (h : s.Answered yrs document taken received) {command : RoomCommand β}
    {rest : List (Uuid × RoomCommand β)} (hmail : s.mailbox = (id,command) :: rest) {r : Reaction β Op}
    (hr : CommandEffect yrs document s.actor command r) :
    Session.Answered yrs document { s with
      actor := r.1
      mailbox := rest } taken received := by
  refine ⟨hr.sound,h.absent,?_,?_,?_⟩
  · intro x
    have hqueue := h.queue x
    rw [hmail] at hqueue
    exact hqueue.of_cons
  · intro x entry hentry hflush
    exact h.flushing x entry (hmail ▸ List.mem_cons_of_mem _ hentry) hflush
  · intro x c hget
    have hold := h.connection x c hget
    refine ⟨?_,?_,?_,hold.controls,hold.received⟩
    · intro hopen op hop
      rcases hold.applied hopen hop with hdoc | ⟨entry,hentry,actor,sequence,payload,happly,hpayload⟩
      · exact Or.inl (hr.doc hdoc)
      · rw [hmail] at hentry
        rcases List.mem_cons.mp hentry with rfl | hentry
        · exact Or.inl (hr.applied x actor sequence payload happly hpayload)
        · exact Or.inr ⟨entry,hentry,actor,sequence,payload,happly,hpayload⟩
    · have hasked := hold.asked
      rw [hmail,List.countP_cons] at hasked
      dsimp only
      omega
    · exact fun before sequence after hsplit => (hold.answered before sequence after hsplit).trans hr.stored

theorem waiting (h : s.Answered yrs document taken received) {rest : List (Uuid × RoomCommand β)}
    (hmail : s.mailbox = (id,.flush) :: rest) {r : Reaction β Op} {result : Except String ℕ}
    (hstored : ∀ sequence, result = .ok sequence →
      ↑s.actor.room.doc ⊆ stored yrs document r.1.database) :
    Session.Waiting yrs document { s with
      actor := r.1
      mailbox := rest } taken id result := by
  have hflush : isFlushOf id ((id,.flush) : Uuid × RoomCommand β) = true := by simp [isFlushOf]
  have hqueue := h.queue id
  rw [hmail,List.pairwise_cons] at hqueue
  intro c join cursor hget hphase
  have hold := h.connection id c hget
  refine ⟨fun entry hentry => (hqueue.1 entry hentry hflush).1,?_,?_⟩
  · have hasked := hold.asked
    rw [hmail,List.countP_cons_of_pos hflush] at hasked
    omega
  · intro sequence hok op hop
    rcases hold.applied (Connection.closes_of_phase hphase) hop with
      hdoc | ⟨entry,hentry,actor,clientSequence,payload,happly,-⟩
    · exact hstored sequence hok hdoc
    · rw [hmail] at hentry
      rcases List.mem_cons.mp hentry with rfl | hentry
      · cases happly
      · have hother := (hqueue.1 entry hentry hflush).2
        rw [happly] at hother
        exact absurd rfl hother

variable [DecidableEq β] [DecidableEq Op]

theorem act (h : s.Answered yrs document taken received) (o : Outcomes) (sends : Bool) :
    (s.step yrs document (.act o sends)).Answered yrs document taken received := by
  simp only [Session.step]
  split
  · exact h
  · next id command rest hmail =>
    have hr := h.sound.command_effect o command
    have htaken := h.command hmail hr
    rcases hr.plain with hplain | ⟨rfl,effects,result,heffects,hplain,hstored⟩
    · exact (htaken.replies_plain id sends _ hplain).1
    · have hwaits := h.waiting hmail hstored
      have hreplied := htaken.replies_plain id sends effects hplain
      rw [heffects,Session.replies,List.foldl_append]
      exact hreplied.1.reply_flushed (hreplied.2 result hwaits) sends

omit [DecidableEq β] in
theorem flushed_pending (h : s.Answered yrs document taken received) (o : Outcomes) : Session.Answered yrs document
    { s with actor := (s.actor.flushIfPending document o).1 } taken received :=
  h.congr (h.sound.flushIfPending o).1 (flushIfPending_doc document s.actor o)
    (h.sound.stored_flushIfPending o) rfl rfl

theorem tick (h : s.Answered yrs document taken received) (o : Outcomes) :
    (s.step yrs document (.tick o)).Answered yrs document taken received :=
  ((h.flushed_pending o).replies_plain 0 true _ (flushIfPending_plain s.actor o)).1

/-! ## The rest of the system -/

theorem administer (h : s.Answered yrs document taken received) {database : Database β}
    (hu : Undisturbed document s.actor.database database) :
    (s.step yrs document (.administer database)).Answered yrs document taken received :=
  h.congr (h.sound.undisturbed hu) rfl hu.stored_le rfl rfl

theorem hub (h : s.Answered yrs document taken received) (event : RoomEvent β) :
    (s.step yrs document (.hub event)).Answered yrs document taken received := by
  cases event <;> exact h.congr h.sound rfl subset_rfl rfl rfl

theorem drop (h : s.Answered yrs document taken received) (id : Uuid) :
    (s.step yrs document (.incoming id 0 .close false false)).Answered yrs document taken received := by
  refine whenServing (fun _ => h) ?_
  intro c join cursor _ hget hphase
  exact h.serving hget hphase (by simp) (.phase c _)

omit [DecidableEq β] in
theorem restart (h : s.Answered yrs document taken received) (source : Except String (Finset Op)) (save : Outcome) :
    (Tabs.restart yrs document s source save).Answered yrs document taken received := by
  have hattached := h.sound.attached
  obtain ⟨doc,sequence,hload,hloaded⟩ :=
    h.sound.stored.load hattached.epoch hattached.based source save
  unfold Tabs.restart
  rw [hload]
  have hget (x : Uuid) : (s.connections.updateWhere (fun _ _ => true)
      (fun c => { c with phase := .closed })).get? x =
        (s.connections.get? x).map (fun c => { c with phase := .closed }) := by
    rw [Table.get?_updateWhere]
    cases s.connections.get? x <;> rfl
  refine ⟨⟨h.sound.stored,hloaded.attached hattached.epoch hattached.based⟩,?_,fun _ => .nil,
    fun _ _ hentry => absurd hentry List.not_mem_nil,?_⟩
  · intro x hx
    rw [hget,Option.map_eq_none_iff] at hx
    exact h.absent x hx
  · intro x c hx
    rw [hget] at hx
    obtain ⟨d,hd,rfl⟩ := Option.map_eq_some_iff.mp hx
    have hold := h.connection x d hd
    refine ⟨?_,?_,hold.answered,hold.controls,hold.received⟩
    · intro hopen
      cases hopen
    · exact (Nat.le_add_right _ _).trans hold.asked

theorem roomStep (h : s.Answered yrs document taken received) (label : RoomLabel β Op) :
    (Tabs.roomStep yrs document s label).Answered yrs document taken received := by
  cases label with
  | act o sends => exact h.act o sends
  | tick o => exact h.tick o
  | subscribe id => exact h.subscribe id
  | greet id accepted initial => exact h.greet _ id accepted initial
  | receive id sends => exact h.receive id sends
  | control id sends => exact h.control id sends
  | hub event => exact h.hub event
  | drop id => exact h.drop id
  | restart source save => exact h.restart source save
  | administer files documentEpochs =>
    exact h.administer ⟨le_refl _,rfl,fun _ => rfl,fun _ _ => Iff.rfl⟩
  | batchElsewhere other inputs batch =>
    simp only [Tabs.roomStep]
    split
    · exact h
    · next hne => exact h.administer (undisturbed_perform_batch hne inputs batch h.sound.stored.positive)
  | snapshotElsewhere other through bytes =>
    simp only [Tabs.roomStep]
    split
    · exact h
    · next hne => exact h.administer (undisturbed_perform_snapshot hne .commits through bytes)

end Session.Answered

/-! ## What stays stored -/

namespace Session

theorem whenServing_actor {arm : Connection β → RoomJoin β → ℕ → Session β Op}
    (h : ∀ c join cursor, (arm c join cursor).actor = s.actor) : (s.whenServing id arm).actor = s.actor := by
  unfold Session.whenServing
  split
  · split
    · exact h _ _ _
    · rfl
  · rfl

theorem enter_actor (s : Session β Op) (id : Uuid) (readWrite : Bool) :
    (s.enter id readWrite).actor = s.actor := by
  unfold Session.enter
  split <;> rfl

theorem incoming_actor (yrs : Yrs β Op) (s : Session β Op) (id : Uuid) (user : UserId) (frame : ClientFrame β)
    (authorized sends : Bool) : (s.incoming yrs id user frame authorized sends).actor = s.actor := by
  refine whenServing_actor (fun c join cursor => ?_)
  cases frame with
  | sourceUpdate clientSequence payload =>
    dsimp only
    split
    · rfl
    split
    · rfl
    split
    · rfl
    split <;> rfl
  | ping => cases sends <;> rfl
  | _ => rfl

theorem reply_actor (s : Session β Op) (id : Uuid) (sends : Bool) (e : Effect β) :
    (s.reply id sends e).actor = s.actor := by
  cases e with
  | joined initialState durableSequence =>
    simp only [Session.reply]
    split
    · split <;> rfl
    · rfl
  | flushed result =>
    simp only [Session.reply]
    split
    · split
      · cases result <;> rfl
      · rfl
    · rfl
  | control acknowledgements update message database => rfl
  | event event => rfl

theorem replies_actor (s : Session β Op) (id : Uuid) (sends : Bool) (effects : List (Effect β)) :
    (s.replies id sends effects).actor = s.actor := by
  unfold Session.replies
  induction effects generalizing s with
  | nil => rfl
  | cons e rest ih =>
    rw [List.foldl_cons,ih]
    exact s.reply_actor id sends e

variable [DecidableEq β] [DecidableEq Op]

theorem roomStep_stored (h : s.actor.Sound yrs document) (label : RoomLabel β Op) :
    stored yrs document s.actor.database ⊆
      stored yrs document (Tabs.roomStep yrs document s label).actor.database := by
  have hsame : ∀ {s' : Session β Op}, s'.actor = s.actor →
      stored yrs document s.actor.database ⊆ stored yrs document s'.actor.database := by
    intro s' hs'
    rw [hs']
  cases label with
  | act o sends =>
    simp only [Tabs.roomStep,Session.step]
    split
    · exact subset_rfl
    · rw [replies_actor]
      exact (h.command_effect o _).stored
  | tick o =>
    simp only [Tabs.roomStep,Session.step]
    rw [replies_actor]
    exact h.stored_flushIfPending o
  | subscribe id =>
    refine hsame ?_
    simp only [Tabs.roomStep,Session.step,Session.subscribe]
    split
    · split <;> rfl
    · rfl
  | greet id accepted initial =>
    refine hsame ?_
    simp only [Tabs.roomStep,Session.step,Session.greet]
    split
    · split
      · split <;> rfl
      · rfl
    · rfl
  | receive id sends => exact hsame (whenServing_actor (fun _ _ _ => rfl))
  | control id sends =>
    refine hsame (whenServing_actor (fun c _ _ => ?_))
    split <;> rfl
  | hub event => cases event <;> exact subset_rfl
  | drop id => exact hsame (s.incoming_actor yrs id 0 .close false false)
  | restart source save =>
    obtain ⟨doc,sequence,hload,-⟩ := h.stored.load h.attached.epoch h.attached.based source save
    simp only [Tabs.roomStep,Tabs.restart,hload]
    exact subset_rfl
  | administer files documentEpochs =>
    exact Undisturbed.stored_le ⟨le_refl _,rfl,fun _ => rfl,fun _ _ => Iff.rfl⟩
  | batchElsewhere other inputs batch =>
    simp only [Tabs.roomStep]
    split
    · exact subset_rfl
    · next hne => exact (undisturbed_perform_batch hne inputs batch h.stored.positive).stored_le
  | snapshotElsewhere other through bytes =>
    simp only [Tabs.roomStep]
    split
    · exact subset_rfl
    · next hne => exact (undisturbed_perform_snapshot hne .commits through bytes).stored_le

end Session
end LatexCore.Collaboration
