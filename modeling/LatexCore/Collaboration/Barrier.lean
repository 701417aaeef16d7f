import LatexCore.Collaboration.Promises

/-! # Flush as a barrier

When every call of flush finds all that its session has sent in front of the
flush that it waits for, a resolved promise means stored text in every reachable
state. One answer resolves all promises, so a call with another flush on its way
and an update between them is resolved too early.
-/
namespace LatexCore.Collaboration
open Core Foundation
variable {β Op : Type} {yrs : Yrs β Op} {key : RoomKey} {w : Tabs β Op}

namespace Tabs

theorem Ordered.start {actors : ℕ → Actor β Op} {documentEpoch : ℕ} (persisted : ℕ → ℕ → Finset Op)
    (hbigint : documentEpoch ≤ i64Max)
    (hactors : ∀ epoch, epoch ≤ i64Max → (actors epoch).Sound yrs (document key epoch)) :
    (Tabs.start actors documentEpoch persisted).Ordered yrs key := by
  refine ⟨hbigint,?_,by simp [Tabs.start],by simp [Tabs.start],by simp [Tabs.start],by simp [Tabs.start],
    by simp [Barrier,Tabs.start]⟩
  intro epoch he
  refine ⟨hactors epoch he,fun id _ => ⟨rfl,rfl⟩,fun _ => .nil,?_,?_⟩
  · intro id entry hentry
    cases hentry
  · intro id c hget
    cases hget

theorem Ordered.idle (h : w.Ordered yrs key) {tab : ℕ} {t : Tab β Op} (ht : w.tabs tab = some t)
    (hopen : t.session.isOpen = false) : t.session.flushWaiters = [] := by
  cases hwaiters : t.session.flushWaiters with
  | nil => rfl
  | cons waiter rest =>
    have hwaits := (h.waiters tab t ht waiter (hwaiters ▸ List.mem_cons_self ..)).1
    rw [hopen] at hwaits
    cases hwaits

theorem Ordered.quietTab (h : w.Ordered yrs key) (tab : ℕ) (t : Tab β Op) (hopen : t.session.isOpen = false)
    (hwaiters : t.session.flushWaiters = []) : (w.setTab tab t).Ordered yrs key := by
  have hnext := h.setTab tab t [] (fun ho => by rw [hopen] at ho; cases ho)
    (by rw [hwaiters]; intro waiter hwaiter; cases hwaiter) (by intro r hr; cases hr)
  rw [List.append_nil] at hnext
  exact hnext

theorem Ordered.connect (h : w.Ordered yrs key) {tab : ℕ} {t : Tab β Op} (ht : w.tabs tab = some t)
    {id : Uuid} (hopen : t.session.isOpen = false) (hfree : w.sockets id = none) :
    ((w.setSocket id {}).setTab tab { t with
      session := t.session.connect
      socket := some id }).Ordered yrs key := by
  have hempty (epoch : ℕ) : w.taken epoch id = [] ∧ w.received epoch id = [] := by
    rw [Tabs.taken,Tabs.received,hfree]
    exact ⟨rfl,rfl⟩
  have hsocket : (w.setSocket id {}).Ordered yrs key := by
    refine h.setSocket (Nat.zero_le _) (by intro epoch he; cases he) (fun _ => ⟨rfl,rfl⟩)
      (fun epoch => (hempty epoch).1.symm) (fun epoch => (hempty epoch).2.symm) ?_
    refine Grown.setSocket (fun socket hget => ?_)
    rw [hfree] at hget
    cases hget
  have hidle := h.idle ht hopen
  exact hsocket.quietTab tab _ rfl hidle

theorem Ordered.access (h : w.Ordered yrs key) {id : Uuid} {socket : Socket β}
    (hget : w.sockets id = some socket) (hnone : socket.epoch = none) :
    (w.setSocket id { socket with epoch := some w.documentEpoch }).Ordered yrs key := by
  obtain ⟨hlength,-,hunused⟩ := h.sockets id socket hget
  obtain ⟨htaken,hreceived⟩ := hunused hnone
  refine h.setSocket hlength ?_ ?_ ?_ ?_ ?_
  · intro epoch he
    cases he
    exact h.bigint
  · intro he
    cases he
  · intro epoch
    rw [taken_eq hget,Socket.takenIn,Socket.takenIn,htaken,List.take_zero,ite_self,ite_self]
  · intro epoch
    rw [received_eq hget,Socket.receivedIn,Socket.receivedIn,hreceived,ite_self,ite_self]
  · refine Grown.setSocket (fun socket' hget' => ?_)
    rw [hget] at hget'
    cases hget'
    refine ⟨?_,List.prefix_rfl,List.prefix_rfl⟩
    intro epoch he
    rw [hnone] at he
    cases he

theorem Ordered.opened [DecidableEq Op] (h : w.Ordered yrs key) {tab : ℕ} {t : Tab β Op}
    (ht : w.tabs tab = some t) (hclosed : t.session.isOpen = false)
    (haccess : ((w.socketOf t).bind (fun s => s.2.epoch)).isSome = true) :
    (w.update yrs tab t t.session.handleOpen).Ordered yrs key := by
  refine h.turn tab ?_ ?_ ?_
  · intro _
    obtain ⟨epoch,hepoch⟩ := Option.isSome_iff_exists.mp haccess
    obtain ⟨s,hs,he⟩ := Option.bind_eq_some_iff.mp hepoch
    exact ⟨s.1,s.2,epoch,hs,he,by simp⟩
  · intro waiter hwaiter
    change waiter ∈ t.session.flushWaiters at hwaiter
    rw [h.idle ht hclosed] at hwaiter
    cases hwaiter
  · intro before hbefore
    cases hbefore

theorem Ordered.flush [DecidableEq Op] (h : w.Ordered yrs key) {tab : ℕ} {t : Tab β Op}
    (ht : w.tabs tab = some t) (hsafe : if t.session.access then
      t.session.isOpen = true → w.Barred yrs t t.sentOps else t.sentOps = ∅) :
    (w.take yrs tab t (t.session.flush t.sentOps)).Ordered yrs key := by
  cases haccess : t.session.access with
  | false =>
    rw [haccess] at hsafe
    simp only [Bool.false_eq_true,if_false] at hsafe
    have hturn : t.session.flush t.sentOps = ⟨t.session,[],[t.sentOps]⟩ := by
      simp [CollaborationSession.flush,haccess]
    rw [hturn]
    refine h.turn tab (h.connected tab t ht) ?_ ?_
    · intro waiter hwaiter
      obtain ⟨hopen,hbarred⟩ := h.waiters tab t ht waiter hwaiter
      exact ⟨hopen,hbarred.grown (h.transmit t []).2⟩
    · intro before hbefore
      rw [List.mem_singleton.mp hbefore,hsafe,Finset.coe_empty]
      exact Set.empty_subset _
  | true =>
    rw [haccess] at hsafe
    simp only [if_true] at hsafe
    cases hopen : t.session.isOpen with
    | false =>
      have hturn : t.session.flush t.sentOps = t.session.quiet := by
        simp [CollaborationSession.flush,haccess,hopen]
      rw [hturn]
      exact h.holds ht (Turn.Holds.same rfl rfl)
    | true =>
      have hturn : t.session.flush t.sentOps = ⟨{ t.session with
          flushWaiters := t.session.flushWaiters ++ [⟨t.sentOps,false⟩] },[.flush],[]⟩ := by
        simp [CollaborationSession.flush,haccess,hopen]
      rw [hturn]
      have hgrown := (h.transmit t [.flush]).2
      refine h.turn tab (h.connected tab t ht) ?_ ?_
      · intro waiter hwaiter
        refine ⟨hopen,?_⟩
        rcases List.mem_append.mp hwaiter with hwaiter | hwaiter
        · exact (h.waiters tab t ht waiter hwaiter).2.grown hgrown
        · rw [List.mem_singleton.mp hwaiter]
          exact (hsafe hopen).grown hgrown
      · intro before hbefore
        cases hbefore

variable [DecidableEq β] [DecidableEq Op]

/-- A step keeps the order when its call of flush waits for all that was sent before it. -/
theorem Ordered.step (h : w.Ordered yrs key) (created : Op → Option ℕ) (label : TabsLabel β Op)
    (hsafe : w.Safe yrs label) : (w.step key yrs created label).Ordered yrs key := by
  have hwith : ∀ (tab : ℕ) (f : Tab β Op → Tabs β Op), (∀ t, w.tabs tab = some t → (f t).Ordered yrs key) →
      (w.withTab tab f).Ordered yrs key := by
    intro tab f hf
    unfold Tabs.withTab
    split
    · next t ht => exact hf t ht
    · exact h
  cases label with
  | create tab browser requestedEditable =>
    simp only [Tabs.step]
    split
    · exact h
    · exact h.quietTab tab _ rfl rfl
  | connect tab id =>
    refine hwith tab _ (fun t ht => ?_)
    split
    · exact h
    · next hstops =>
      simp only [Bool.or_eq_true,not_or,Bool.not_eq_true,Option.isSome_eq_false_iff,Option.isNone_iff_eq_none]
        at hstops
      obtain ⟨⟨-,hsocket⟩,hfree⟩ := hstops
      refine h.connect ht ?_ hfree
      cases hs : t.session.socket with
      | none => simp [CollaborationSession.isOpen,hs]
      | some state =>
        cases state with
        | opened => simp [hs] at hsocket
        | connecting => simp [hs] at hsocket
        | closed => simp [CollaborationSession.isOpen,hs]
  | access id =>
    simp only [Tabs.step]
    split
    · next socket hget =>
      split
      · exact h
      · next hnone => exact h.access hget (Option.not_isSome_iff_eq_none.mp hnone)
    · exact h
  | seat id readWrite =>
    simp only [Tabs.step]
    split
    · next epoch hepoch =>
      refine h.setRoom epoch (fun he => (h.rooms epoch he).enter id readWrite) (fun _ => ?_)
      rw [Session.enter_actor]
    · exact h
  | opened tab =>
    refine hwith tab _ (fun t ht => ?_)
    split
    · next hboth =>
      obtain ⟨hconnecting,haccess⟩ := Bool.and_eq_true_iff.mp hboth
      refine h.opened ht ?_ haccess
      rw [beq_iff_eq] at hconnecting
      simp [CollaborationSession.isOpen,hconnecting]
    · exact h
  | closed tab =>
    refine hwith tab _ (fun t ht => ?_)
    split
    · exact h.holds ht (Turn.Holds.ended rfl rfl)
    · exact h
  | message tab =>
    refine hwith tab _ (fun t ht => ?_)
    split
    · exact h.message ht
    · exact h
  | synced tab restored =>
    refine hwith tab _ (fun t ht => ?_)
    split
    · exact h.holds ht (Turn.Holds.synced yrs _ restored)
    · exact h
  | persist tab =>
    refine hwith tab _ (fun t ht => ?_)
    split
    · exact h.evolves h.bigint h.rooms h.sockets (Grown.refl w) rfl rfl (fun _ _ => subset_rfl)
    · exact h
  | edit tab ops =>
    refine hwith tab _ (fun t ht => ?_)
    split
    · exact h.holds ht (Turn.Holds.edit yrs _ ops)
    · exact h
  | flush tab => exact hwith tab _ (fun t ht => h.flush ht (hsafe t ht))
  | timeOut tab index => exact hwith tab _ (fun t ht => h.holds ht (Turn.Holds.timeOut _ index))
  | leave tab => exact hwith tab _ (fun t ht => h.holds ht (Turn.Holds.ended rfl rfl))
  | deliver id user authorized sends => exact h.deliver id user authorized sends
  | room epoch label =>
    exact h.setRoom epoch (fun he => (h.rooms epoch he).roomStep label)
      (fun he => Session.roomStep_stored (h.rooms epoch he).sound label)
  | restore =>
    simp only [Tabs.step]
    split
    · next hlt => exact h.evolves hlt h.rooms h.sockets (Grown.refl w) rfl rfl (fun _ _ => subset_rfl)
    · exact h

end Tabs

/-! ## Runs -/

section Reached
variable [DecidableEq β] [DecidableEq Op] {document : DocumentKey} {a : Actor β Op}

def Actor.Reached (yrs : Yrs β Op) (document : DocumentKey) (a : Actor β Op) : Prop :=
  ∃ labels : List (Label β Op document), run (World.step yrs) .start labels = ⟨a.database,some a.room⟩

theorem Actor.Reached.sound (h : a.Reached yrs document) : a.Sound yrs document := by
  obtain ⟨labels,hrun⟩ := h
  have hsound := run_invariant (World.Sound yrs document) (fun _ l hw => (hw.step l).1)
    (@World.Sound.start β Op yrs document) labels
  rw [hrun] at hsound
  exact hsound.actor rfl

/-- In every run whose calls of flush wait for all that was sent before them, what was sent before a
call that has resolved is stored. -/
theorem flush_is_barrier (yrs : Yrs β Op) (key : RoomKey) (created : Op → Option ℕ)
    (actors : ℕ → Actor β Op) (documentEpoch : ℕ) (persisted : ℕ → ℕ → Finset Op)
    (hbigint : documentEpoch ≤ i64Max)
    (hactors : ∀ epoch, epoch ≤ i64Max → (actors epoch).Reached yrs (Tabs.document key epoch))
    (labels : List (TabsLabel β Op))
    (hsafe : Along (fun w l => Tabs.step key w yrs created l) (fun w l => w.Safe yrs l)
      (Tabs.start actors documentEpoch persisted) labels) :
    (run (fun w l => Tabs.step key w yrs created l) (Tabs.start actors documentEpoch persisted)
      labels).Barrier yrs key := by
  have hstart := Tabs.Ordered.start persisted hbigint (fun epoch he => (hactors epoch he).sound)
  exact (hsafe.invariant (fun w : Tabs β Op => w.Ordered yrs key) (fun _ l hw hl => hw.step created l hl) hstart).barrier

end Reached

/-! ## Calls that can be checked -/

theorem coe_foldl_frames {f : Finset Op → ClientFrame β → Finset Op}
    (hf : ∀ ops frame, (↑(f ops frame) : Set Op) = ↑ops ∪ updateOps yrs [frame]) (ops : Finset Op)
    (frames : List (ClientFrame β)) : (↑(frames.foldl f ops) : Set Op) = ↑ops ∪ updateOps yrs frames := by
  induction frames generalizing ops with
  | nil =>
    ext op
    simp [updateOps]
  | cons frame rest ih =>
    have hcons : updateOps yrs (frame :: rest) = updateOps yrs [frame] ∪ updateOps yrs rest :=
      updateOps_append [frame] rest
    rw [List.foldl_cons,ih,hf,hcons,Set.union_assoc]

theorem coe_frameOps [DecidableEq Op] (yrs : Yrs β Op) (frames : List (ClientFrame β)) :
    (↑(frameOps yrs frames) : Set Op) = updateOps yrs frames := by
  rw [frameOps,coe_foldl_frames ?_ ∅ frames,Finset.coe_empty,Set.empty_union]
  intro ops frame
  rw [updateOps_singleton]
  cases frame with
  | sourceUpdate sequence payload =>
    ext op
    cases hdec : yrs.decodeV1 payload <;> simp [Yrs.ops,hdec,Except.toOption]
  | _ => simp

theorem Tabs.barred_iff [DecidableEq Op] {t : Tab β Op} {before : Finset Op} :
    w.Barred yrs t before ↔ ∃ s ∈ w.socketOf t, s.2.epoch.isSome ∧
      before ⊆ frameOps yrs (beforeFlush (answerCount s.2.received) s.2.sent) := by
  constructor
  · rintro ⟨id,socket,epoch,hsocket,hepoch,hbefore⟩
    rw [← coe_frameOps,Finset.coe_subset] at hbefore
    exact ⟨(id,socket),hsocket,by rw [hepoch]; rfl,hbefore⟩
  · rintro ⟨⟨id,socket⟩,hsocket,hepoch,hbefore⟩
    obtain ⟨epoch,hepoch⟩ := Option.isSome_iff_exists.mp hepoch
    rw [← Finset.coe_subset,coe_frameOps] at hbefore
    exact ⟨id,socket,epoch,hsocket,hepoch,hbefore⟩

instance [DecidableEq Op] (w : Tabs β Op) (yrs : Yrs β Op) (t : Tab β Op) (before : Finset Op) :
    Decidable (w.Barred yrs t before) := decidable_of_iff _ Tabs.barred_iff.symm

instance [DecidableEq Op] (w : Tabs β Op) (yrs : Yrs β Op) (label : TabsLabel β Op) :
    Decidable (w.Safe yrs label) :=
  match label with
  | .flush tab => inferInstanceAs (Decidable (∀ t ∈ w.tabs tab, if t.session.access then
      t.session.isOpen = true → w.Barred yrs t t.sentOps else t.sentOps = ∅))
  | .create .. | .connect .. | .access .. | .seat .. | .opened .. | .closed .. | .message .. | .synced ..
  | .persist .. | .edit .. | .timeOut .. | .leave .. | .deliver .. | .room .. | .restore => isTrue trivial

/-! ## Two calls and one answer -/

def Actor.fresh (document : DocumentKey) (text : Finset ℕ) : Actor (Finset ℕ) ℕ where
  database := { (.empty : Database (Finset ℕ)) with
    files := ⟨[(document.room.fileId,⟨document.room.workspaceId,false,some .editable⟩)],
      List.nodup_singleton _⟩
    documentEpochs := ⟨[(document.room.workspaceId,document.documentEpoch)],List.nodup_singleton _⟩
    snapshots := ⟨[((document,0),text)],List.nodup_singleton _⟩ }
  room := .spawn text 0

theorem Actor.fresh_reached {document : DocumentKey} (hepoch : document.documentEpoch ≤ i64Max)
    (text : Finset ℕ) : (Actor.fresh document text).Reached plainYrs document := by
  refine ⟨[.administer (Actor.fresh document text).database.files
    (Actor.fresh document text).database.documentEpochs,.load (.ok text) .commits],?_⟩
  have hrec : collaborationRecovery { (.empty : Database (Finset ℕ)) with
      files := (Actor.fresh document text).database.files
      documentEpochs := (Actor.fresh document text).database.documentEpochs } document =
      .ok ⟨document.documentEpoch,none,[]⟩ := by
    rw [collaborationRecovery_ok hepoch (by simp [Database.latestSnapshot,Database.empty,
      Table.best,Table.empty])]
    simp [Database.updatesAfter,Database.latestSnapshot,Database.empty,Table.best,Table.empty]
  have hsave : saveCollaborationSnapshot document 0 text { (.empty : Database (Finset ℕ)) with
      files := (Actor.fresh document text).database.files
      documentEpochs := (Actor.fresh document text).database.documentEpochs } =
      .ok ((Actor.fresh document text).database,()) := by
    have hbigint : toI64 document.documentEpoch "collaboration epoch" = .ok () := toI64_ok.mpr hepoch
    rw [saveCollaborationSnapshot,hbigint]
    rfl
  have hcommit : perform .commits (saveCollaborationSnapshot document 0 text) { (.empty : Database (Finset ℕ)) with
      files := (Actor.fresh document text).database.files
      documentEpochs := (Actor.fresh document text).database.documentEpochs } =
      ((Actor.fresh document text).database,.ok ()) := by
    rw [perform,commit,hsave]
    rfl
  have hid : plainYrs.encodeAll (plainYrs.encodeStateAsUpdateV1 text) = text := rfl
  simp only [run_cons,run_nil,World.step,World.react,World.load,World.start,loadDocument,hrec,hid,hcommit,
    Except.mapError]
  rfl

/-- One Writer opens a file with a text and gets its document. -/
def opening : List (TabsLabel (Finset ℕ) ℕ) :=
  [.create 0 0 true,.connect 0 5,.access 5,.seat 5 true,.room 1 (.act .fine true),.room 1 (.subscribe 5),
    .room 1 (.greet 5 true true),.opened 0,.message 0,.message 0,.synced 0 ∅]

def sampleStep (w : Tabs (Finset ℕ) ℕ) (l : TabsLabel (Finset ℕ) ℕ) : Tabs (Finset ℕ) ℕ :=
  Tabs.step sampleDocument.room w plainYrs (fun op => if op = 1 then none else some 1) l

def sampleTabs : Tabs (Finset ℕ) ℕ :=
  Tabs.start (fun epoch => Actor.fresh (Tabs.document sampleDocument.room epoch) {1}) 1 (fun _ _ => ∅)

/-- A call of flush behind an update, and its answer. -/
def flushedOnce : List (TabsLabel (Finset ℕ) ℕ) :=
  opening ++ [.edit 0 {7},.flush 0,.deliver 5 4 true true,.deliver 5 4 true true,.deliver 5 4 true true,
    .room 1 (.act .fine true),.room 1 (.act .fine true),.room 1 (.act .fine true),.message 0]

/-- A second call follows the first with an update between them, and the first answer arrives. -/
def flushedTwice : List (TabsLabel (Finset ℕ) ℕ) :=
  opening ++ [.edit 0 {7},.flush 0,.edit 0 {8},.flush 0,.deliver 5 4 true true,.deliver 5 4 true true,
    .deliver 5 4 true true,.room 1 (.act .fine true),.room 1 (.act .fine true),.room 1 (.act .fine true),
    .message 0]

/-- The answer comes when the text and the update are stored. -/
theorem flushed_once_barrier : (run sampleStep sampleTabs flushedOnce).Barrier plainYrs sampleDocument.room ∧
    (run sampleStep sampleTabs flushedOnce).resolved.map Resolved.before = [{1,7}] :=
  ⟨flush_is_barrier plainYrs sampleDocument.room (fun op => if op = 1 then none else some 1)
    (fun epoch => Actor.fresh (Tabs.document sampleDocument.room epoch) {1}) 1 (fun _ _ => ∅) (by decide)
    (fun _ he => Actor.fresh_reached he {1}) flushedOnce (by decide +kernel),by decide +kernel⟩

/-- The first answer resolves both calls, and the second update is not stored. -/
theorem flushed_twice_not_barrier :
    ¬(run sampleStep sampleTabs flushedTwice).Barrier plainYrs sampleDocument.room := by
  intro h
  have hresolved : (run sampleStep sampleTabs flushedTwice).resolved.map (fun r => (r.epoch,r.before)) =
      [(1,{1,7}),(1,{1,7,8})] := by decide +kernel
  have hsecond : ((1,{1,7,8}) : ℕ × Finset ℕ) ∈
      (run sampleStep sampleTabs flushedTwice).resolved.map (fun r => (r.epoch,r.before)) := by
    rw [hresolved]
    simp
  obtain ⟨r,hr,heq⟩ := List.mem_map.mp hsecond
  obtain ⟨hepoch,hbefore⟩ := Prod.mk.inj heq
  have hstored := h r hr
  rw [hepoch,hbefore] at hstored
  have hlatest : ((run sampleStep sampleTabs flushedTwice).rooms 1).actor.database.latestSnapshot
      (Tabs.document sampleDocument.room 1) = some (0,{1}) := by decide +kernel
  have hrows : ∀ r ∈ ((run sampleStep sampleTabs flushedTwice).rooms 1).actor.database.updates,
      8 ∉ r.updateBytes := by decide +kernel
  have hmem : (8 : ℕ) ∈ (↑({1,7,8} : Finset ℕ) : Set ℕ) := by simp
  rcases hstored hmem with ⟨s,hs,bytes,hbytes,update,hupdate,hop⟩ | ⟨row,hrow,_,_,update,hupdate,hop⟩
  · rw [hlatest] at hs
    cases hs
    cases hbytes
    cases hupdate
    simp at hop
  · cases hupdate
    exact hrows row hrow hop

end LatexCore.Collaboration
