import LatexCore.Collaboration.Broadcast

/-! # Complete sessions

The actor's part of a session: what a command does to the document and which of
its effects a connection takes its state from. With the moves of the connections
this gives the step lemma of completeness, and over runs the exact condition.
-/
namespace LatexCore.Collaboration
open Core Foundation
variable {β Op : Type} (yrs : Yrs β Op) (document : DocumentKey)

/-! ## Commands of the actor -/

theorem flushPending_doc (a : Actor β Op) (o : Outcomes) :
    (a.flushPending document o).1.1.room.doc = a.room.doc := by
  unfold Actor.flushPending
  split <;> rfl

theorem flushPending_quiet (a : Actor β Op) (o : Outcomes) :
    ∀ e ∈ (a.flushPending document o).1.2, ∀ b n, e ≠ .joined b n := by
  unfold Actor.flushPending
  split
  · intro e he b n heq
    subst heq
    simp [acknowledge] at he
  · simp

theorem flushIfPending_doc (a : Actor β Op) (o : Outcomes) :
    (a.flushIfPending document o).1.room.doc = a.room.doc := by
  unfold Actor.flushIfPending
  split
  · rfl
  · exact flushPending_doc document a o

theorem flushIfPending_quiet (a : Actor β Op) (o : Outcomes) :
    ∀ e ∈ (a.flushIfPending document o).2, ∀ b n, e ≠ .joined b n := by
  unfold Actor.flushIfPending
  split
  · simp
  · exact flushPending_quiet document a o

theorem snapshotIfDue_doc (a : Actor β Op) (o : Outcomes) :
    (a.snapshotIfDue yrs document o).room.doc = a.room.doc := by
  unfold Actor.snapshotIfDue
  split
  · split <;> rfl
  · rfl

theorem snapshotIfEmpty_doc (a : Actor β Op) (o : Outcomes) :
    (a.snapshotIfEmpty yrs document o).room.doc = a.room.doc := by
  unfold Actor.snapshotIfEmpty
  split <;> rfl

theorem flush_spec (a : Actor β Op) (o : Outcomes) :
    (a.flush document o).1.room.doc = a.room.doc ∧
      ∀ e ∈ (a.flush document o).2, ∀ b n, e ≠ .joined b n := by
  unfold Actor.flush
  split
  · exact ⟨rfl,by simp⟩
  · refine ⟨flushPending_doc document a o,?_⟩
    intro e he
    rcases List.mem_append.mp he with he | he
    · exact flushPending_quiet document a o e he
    · simp only [List.mem_singleton] at he
      subst he
      simp

theorem leave_spec (a : Actor β Op) (o : Outcomes) (writer : Bool) :
    (a.leave yrs document o writer).1.room.doc = a.room.doc ∧
      ∀ e ∈ (a.leave yrs document o writer).2, ∀ b n, e ≠ .joined b n := by
  simp only [Actor.leave,snapshotIfEmpty_doc]
  split
  · exact ⟨flushIfPending_doc document _ o,flushIfPending_quiet document _ o⟩
  · exact ⟨rfl,by simp⟩

theorem accepted_spec (a : Actor β Op) (o : Outcomes) (source : Uuid) (bytes : β) :
    (a.accepted document o source bytes).1.room.doc = a.room.doc ∧
      ∃ tail, (a.accepted document o source bytes).2 = .event (.update source bytes) :: tail ∧
        ∀ e ∈ tail, ∀ b n, e ≠ .joined b n := by
  simp only [Actor.accepted]
  split
  · exact ⟨flushPending_doc document a o,_,rfl,flushPending_quiet document a o⟩
  · exact ⟨rfl,[],rfl,by simp⟩

variable [DecidableEq β] [DecidableEq Op]

theorem command_spec (a : Actor β Op) (o : Outcomes) (c : RoomCommand β) :
    (∃ source bytes update tail, c.source? = some source ∧ a.accepts yrs c = [(source,bytes)] ∧
        yrs.decodeV1 bytes = .ok update ∧
        (a.command yrs document o c).1.room.doc = a.room.doc ∪ update ∧
        (a.command yrs document o c).2 = .event (.update source bytes) :: tail ∧
        ∀ e ∈ tail, ∀ b n, e ≠ .joined b n) ∨
      a.accepts yrs c = [] ∧ (a.command yrs document o c).1.room.doc = a.room.doc ∧
        ∀ e ∈ (a.command yrs document o c).2, ∀ b n, e = .joined b n →
          yrs.decodeV1 b = .ok a.room.doc := by
  cases c with
  | join writer =>
    refine Or.inr ⟨rfl,snapshotIfDue_doc yrs document _ o,?_⟩
    intro e he b n heq
    simp only [Actor.command,Actor.due,Actor.join,List.mem_singleton] at he
    subst he
    cases heq
    exact yrs.decode_encode _
  | flush =>
    have hf := flush_spec document a o
    refine Or.inr ⟨rfl,(snapshotIfDue_doc yrs document _ o).trans hf.1,?_⟩
    intro e he b n heq
    exact absurd heq (hf.2 e he b n)
  | leave writer =>
    have hl := leave_spec yrs document a o writer
    refine Or.inr ⟨rfl,(snapshotIfDue_doc yrs document _ o).trans hl.1,?_⟩
    intro e he b n heq
    exact absurd heq (hl.2 e he b n)
  | apply source actor clientSequence bytes =>
    simp only [Actor.command,Actor.accepts]
    cases happly : applyUpdateIfChanged yrs a.room.doc bytes with
    | error e => exact Or.inr ⟨rfl,rfl,by simp⟩
    | ok r =>
      obtain ⟨doc,changed⟩ := r
      obtain ⟨update,hdec,hdoc,hchanged⟩ := (applyUpdateIfChanged_ok yrs).mp happly
      cases changed with
      | false =>
        have hsub : update ⊆ a.room.doc := by simpa using hchanged.symm
        refine Or.inr ⟨rfl,?_,by simp⟩
        simp only [hdoc]
        exact Finset.union_eq_left.mpr hsub
      | true =>
        obtain ⟨hkeep,tail,htail,hquiet⟩ := accepted_spec document
          { a with room := a.room.accept yrs doc source actor clientSequence bytes } o source bytes
        refine Or.inl ⟨source,bytes,update,tail,rfl,rfl,hdec,?_,htail,hquiet⟩
        simp only [Actor.due,snapshotIfDue_doc,hkeep]
        exact hdoc

/-! ## Steps of a session -/

variable {yrs document} {s : Session β Op} {base : Finset Op} {accepted : List (Uuid × β)}

omit [DecidableEq β] [DecidableEq Op] in
theorem replies_keep {P : Session β Op → Prop} (hP : ∀ s s', P s →
    Evolves yrs (fun _ => False) s s' → P s') {effects : List (Effect β)} (hs : P s) (id : Uuid)
    (sends : Bool) (hjoin : ∀ e ∈ effects, ∀ b n, e = .joined b n →
      yrs.decodeV1 b = .ok s.actor.room.doc) : P (s.replies id sends effects) := by
  induction effects generalizing s with
  | nil => exact hs
  | cons e rest ih =>
    have hstep : Evolves yrs (fun _ => False) s (s.reply id sends e) :=
      evolves_reply id sends (hjoin e (List.mem_cons_self ..))
    refine ih (hP _ _ hs hstep) ?_
    rw [hstep.doc]
    exact fun e' he' => hjoin e' (List.mem_cons_of_mem _ he')

theorem session_step (h : s.Inv yrs base accepted) (l : SessionLabel β) :
    (s.step yrs document l).Inv yrs base (accepted ++ s.accepts yrs l) ∧
      (Complete yrs accepted s → SubscribesCurrent yrs s l →
        Complete yrs (accepted ++ s.accepts yrs l) (s.step yrs document l)) := by
  -- The property of a session on the way through the replies of one step.
  have hkeep : ∀ (q : Prop) (accepted : List (Uuid × β)) (s s' : Session β Op),
      s.Inv yrs base accepted ∧ (q → Complete yrs accepted s) →
      Evolves yrs (fun _ => False) s s' → s'.Inv yrs base accepted ∧ (q → Complete yrs accepted s') := by
    rintro q accepted s s' ⟨hi,hc⟩ he
    exact ⟨hi.evolves he,fun hq => (hc hq).evolves hi he (by simp)⟩
  have hplain : ∀ s', Evolves yrs (fun _ => False) s s' → s'.Inv yrs base (accepted ++ []) ∧
      (Complete yrs accepted s → SubscribesCurrent yrs s l → Complete yrs (accepted ++ []) s') := by
    intro s' he
    rw [List.append_nil]
    exact ⟨h.evolves he,fun hc _ => hc.evolves h he (by simp)⟩
  cases l with
  | enter id readWrite => exact hplain _ (evolves_enter id readWrite)
  | greet id accepted initial => exact hplain _ (evolves_greet _ id accepted initial)
  | receive id sends => exact hplain _ (evolves_receive id sends)
  | control id sends => exact hplain _ (evolves_control id sends)
  | incoming id user frame authorized sends =>
    exact hplain _ (evolves_incoming id user frame authorized sends)
  | hub event =>
    refine hplain _ ?_
    cases event with
    | update source bytes => exact .refl s
    | durable sequence => exact .refl s
    | reloadRequired => exact evolves_apart rfl ⟨_,rfl⟩ rfl (fun _ hp => Or.inl hp)
    | policyChanged => exact evolves_apart rfl ⟨_,rfl⟩ rfl (fun _ hp => Or.inl hp)
    | epochChanged documentEpoch => exact evolves_apart rfl ⟨_,rfl⟩ rfl (fun _ hp => Or.inl hp)
  | administer database =>
    refine hplain _ ?_
    exact evolves_apart rfl ⟨[],(List.append_nil _).symm⟩ rfl (fun _ hp => Or.inl hp)
  | subscribe id =>
    simp only [Session.accepts,List.append_nil]
    constructor
    · have hany : Evolves yrs (fun _ => True) s (s.subscribe id) :=
        evolves_subscribe id (fun _ _ _ _ => trivial)
      exact h.evolves hany
    · intro hc hcurrent
      have hnow : Evolves yrs (fun join => yrs.decodeV1 join.initialState = .ok s.actor.room.doc) s
          (s.subscribe id) := evolves_subscribe id hcurrent
      exact hc.evolves h hnow (fun _ hf => hf)
  | tick o =>
    simp only [Session.accepts,List.append_nil,Session.step]
    have hdoc := flushIfPending_doc document s.actor o
    have hflush : Evolves yrs (fun _ => False) s
        { s with actor := (s.actor.flushIfPending document o).1 } :=
      evolves_apart hdoc ⟨[],(List.append_nil _).symm⟩ rfl (fun _ hp => Or.inl hp)
    have hfirst := hkeep (Complete yrs accepted s) accepted s _ ⟨h,fun hc => hc⟩ hflush
    have hall := replies_keep (hkeep (Complete yrs accepted s) accepted) hfirst 0 true
      (fun e he b n heq => absurd heq (flushIfPending_quiet document s.actor o e he b n))
    exact ⟨hall.1,fun hc _ => hall.2 hc⟩
  | act o sends =>
    simp only [Session.step,Session.accepts]
    cases hmail : s.mailbox with
    | nil => exact hplain s (.refl s)
    | cons head rest =>
      obtain ⟨id,command⟩ := head
      have hrest : rest ⊆ s.mailbox := by
        rw [hmail]
        exact List.subset_cons_self _ _
      rcases command_spec yrs document s.actor o command with
        ⟨source,bytes,update,tail,hsource,hacc,hdec,hdoc,heff,hquiet⟩ | ⟨hacc,hdoc,hjoin⟩
      · have hopen : s.Opened source :=
          h.mailbox (id,command) (by rw [hmail]; exact List.mem_cons_self ..) source hsource
        have hinv := h.accept hdec hdoc hopen hrest
        dsimp only
        rw [hacc,heff]
        have hall := replies_keep (hkeep (Complete yrs accepted s) (accepted ++ [(source,bytes)]))
          ⟨hinv,fun hc => hc.accept h _ rest source bytes⟩ id sends
          (fun e he b n heq => absurd heq (hquiet e he b n))
        exact ⟨hall.1,fun hc _ => hall.2 hc⟩
      · dsimp only
        rw [hacc,List.append_nil]
        have hcmd : Evolves yrs (fun _ => False) s
            { s with actor := (s.actor.command yrs document o command).1, mailbox := rest } :=
          evolves_apart hdoc ⟨[],(List.append_nil _).symm⟩ rfl (fun _ hp => Or.inl (hrest hp))
        have hfirst := hkeep (Complete yrs accepted s) accepted s _ ⟨h,fun hc => hc⟩ hcmd
        have hall := replies_keep (hkeep (Complete yrs accepted s) accepted) hfirst id sends
          (fun e he b n heq => (hjoin e he b n heq).trans (by rw [← hdoc]))
        exact ⟨hall.1,fun hc _ => hall.2 hc⟩

omit [DecidableEq β] [DecidableEq Op] in
theorem Session.Inv.start (a : Actor β Op) : (Session.start a).Inv yrs a.room.doc [] := by
  refine ⟨by simp [Session.start],?_,by simp [Session.start],by simp⟩
  intro id c hc
  cases hc

omit [DecidableEq β] [DecidableEq Op] in
theorem Complete.start (a : Actor β Op) : Complete yrs [] (Session.start a) := by
  intro id c stage join cursor hc
  cases hc

theorem late_subscription (h : s.Inv yrs base accepted) {l : SessionLabel β}
    (hlate : ¬SubscribesCurrent yrs s l) :
    ¬Complete yrs (accepted ++ s.accepts yrs l) (s.step yrs document l) := by
  cases l with
  | subscribe id =>
    simp only [SubscribesCurrent,not_forall] at hlate
    obtain ⟨c,join,hget,hphase,hne⟩ := hlate
    obtain ⟨state,hdec,hbase,hsub⟩ := (h.seated id c hget).join join (by simp [hphase,Phase.join?])
    obtain ⟨p,hp,hmiss⟩ : ∃ p ∈ accepted, ¬yrs.ops p.2 ⊆ ↑state := by
      by_contra hall
      simp only [not_exists,not_and,not_not] at hall
      apply hne
      have hback : s.actor.room.doc ⊆ state := by
        rw [← Finset.coe_subset,h.document]
        refine Set.union_subset (Finset.coe_subset.mpr hbase) ?_
        rintro op ⟨p,hp,hop⟩
        exact hall p hp hop
      rw [hdec,Finset.Subset.antisymm hsub hback]
    have hother : p.1 ≠ id := by
      rintro rfl
      obtain ⟨d,hd,hopen⟩ := h.sources p hp
      rw [hget] at hd
      cases hd
      simp [Connection.opened,hphase] at hopen
    intro hcomplete
    have hstep : (s.step yrs document (.subscribe id)) =
        s.proceed id { c with phase := .subscribed .greeting join s.sent.length } := by
      simp [Session.step,Session.subscribe,hget,hphase]
    rw [hstep] at hcomplete
    have hreach := (hcomplete id { c with phase := .subscribed .greeting join s.sent.length } .greeting
      join s.sent.length (by simp [Session.proceed,hget]) rfl).2 p (List.mem_append_left _ hp) hother
    have hframes := (h.seated id c hget).silent (Or.inr ⟨join,hphase⟩)
    rcases hreach with hin | ⟨b,hb,_⟩ | ⟨source,b,hb,_⟩
    · rw [mem_ops hdec] at hin
      exact hmiss hin
    · simp [hframes] at hb
    · simp [Session.proceed] at hb
  | _ => exact absurd trivial hlate

/-- The subscribed connections are complete in every state of a run exactly when none of them
subscribes after the document has changed from the state that it joined. -/
theorem broadcast_complete_iff (yrs : Yrs β Op) (document : DocumentKey) (a : Actor β Op)
    (labels : List (SessionLabel β)) :
    (∀ pre post, labels = pre ++ post →
        Complete yrs (emitted (Session.step yrs document) (Session.accepts yrs) (.start a) pre)
          (run (Session.step yrs document) (.start a) pre)) ↔
      Along (Session.step yrs document) (SubscribesCurrent yrs) (.start a) labels := by
  have hinv : ∀ pre, (run (Session.step yrs document) (.start a) pre).Inv yrs a.room.doc
      (emitted (Session.step yrs document) (Session.accepts yrs) (.start a) pre) :=
    run_invariant_emitted (fun (s : Session β Op) accepted => s.Inv yrs a.room.doc accepted)
      (fun s accepted l h => (session_step h l).1) (.start a)
  constructor
  · intro h
    refine along_iff.mpr ?_
    rintro pre l post rfl
    by_contra hlate
    have hcomplete := h (pre ++ [l]) post (by simp)
    rw [run_concat,emitted_concat] at hcomplete
    exact late_subscription (hinv pre) hlate hcomplete
  · intro h pre post hpre
    subst hpre
    have hguard := (along_append.mp h).1
    clear h
    induction pre using List.reverseRecOn with
    | nil => exact .start a
    | append_singleton pre l ih =>
      obtain ⟨hbefore,hlast⟩ := along_concat.mp hguard
      rw [run_concat,emitted_concat]
      exact (session_step (hinv pre) l).2 (ih hbefore) hlast

/-- A connection has joined; a writer enters and its update is accepted before it subscribes. -/
def subscribesLate : List (SessionLabel (Finset ℕ)) :=
  [.enter 1 false,.act .fine true,.enter 2 true,.act .fine true,.subscribe 2,.greet 2 true true,
    .incoming 2 9 (.sourceUpdate 1 {7}) true true,.act .fine true,.subscribe 1,.greet 1 true true]

/-- The connection is open and has nothing unread, and the update is in none of its frames. -/
theorem late_subscriber_misses_update :
    ¬∀ pre post, subscribesLate = pre ++ post →
      Complete plainYrs
        (emitted (Session.step plainYrs sampleDocument) (Session.accepts plainYrs)
          (.start sampleActor) pre)
        (run (Session.step plainYrs sampleDocument) (.start sampleActor) pre) := by
  intro h
  have hend := h subscribesLate [] rfl 1
    ⟨false,.subscribed .serving ⟨∅,0⟩ 1,[],[.joinAccepted 1 0 false,.initialState ∅]⟩ .serving
    ⟨∅,0⟩ 1 rfl rfl
  have hreach := hend.2 (2,{7}) (by decide) (by decide)
  have hmem : (7 : ℕ) ∈ plainYrs.ops {7} := ⟨{7},rfl,by decide⟩
  rcases hreach with hin | ⟨b,hb,_⟩ | ⟨source,b,hb,_⟩
  · obtain ⟨update,hdec,hop⟩ := hin hmem
    cases hdec
    simp at hop
  · simp at hb
  · cases hb

end LatexCore.Collaboration
