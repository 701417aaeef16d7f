import LatexCore.Collaboration.Flushing

/-! # Answered flushes

A connection hands a flush to the room behind the updates that it took before,
and takes nothing until the answer. So the answer with a number, when it is a
success, follows the flush with that number, and the updates before that flush
are stored from then on. Answers that could not be sent are not counted, which
only makes the next answer one of a later flush.
-/
namespace LatexCore.Collaboration
open Core Foundation
variable {β Op : Type}

/-! ## Frames -/

def ClientFrame.isFlush : ClientFrame β → Bool
  | .flush => true
  | _ => false

def flushes (frames : List (ClientFrame β)) : ℕ := frames.countP ClientFrame.isFlush

def beforeFlush : ℕ → List (ClientFrame β) → List (ClientFrame β)
  | _, [] => []
  | n, frame :: rest =>
    if frame.isFlush then
      if n = 0 then [] else frame :: beforeFlush (n - 1) rest
    else frame :: beforeFlush n rest

def updateOps (yrs : Yrs β Op) (frames : List (ClientFrame β)) : Set Op :=
  { op | ∃ sequence payload, .sourceUpdate sequence payload ∈ frames ∧ op ∈ yrs.ops payload }

def Frame.isAnswer : Frame β → Bool
  | .flushed _ => true
  | .control message => message.isDurability
  | _ => false

def answerCount (frames : List (Frame β)) : ℕ := frames.countP Frame.isAnswer

variable {yrs : Yrs β Op} {frames more : List (ClientFrame β)} {n m : ℕ}

theorem updateOps_mono (h : frames ⊆ more) : updateOps yrs frames ⊆ updateOps yrs more := by
  rintro op ⟨sequence,payload,hmem,hop⟩
  exact ⟨sequence,payload,h hmem,hop⟩

theorem updateOps_append (frames more : List (ClientFrame β)) :
    updateOps yrs (frames ++ more) = updateOps yrs frames ∪ updateOps yrs more := by
  ext op
  constructor
  · rintro ⟨sequence,payload,hmem,hop⟩
    rcases List.mem_append.mp hmem with hmem | hmem
    · exact Or.inl ⟨sequence,payload,hmem,hop⟩
    · exact Or.inr ⟨sequence,payload,hmem,hop⟩
  · rintro (⟨sequence,payload,hmem,hop⟩ | ⟨sequence,payload,hmem,hop⟩)
    · exact ⟨sequence,payload,List.mem_append_left _ hmem,hop⟩
    · exact ⟨sequence,payload,List.mem_append_right _ hmem,hop⟩

theorem updateOps_singleton (frame : ClientFrame β) : updateOps yrs [frame] = match frame with
    | .sourceUpdate _ payload => yrs.ops payload
    | _ => ∅ := by
  ext op
  cases frame <;> simp [updateOps]

theorem beforeFlush_subset (n : ℕ) (frames : List (ClientFrame β)) : beforeFlush n frames ⊆ frames := by
  induction frames generalizing n with
  | nil => exact List.Subset.refl _
  | cons frame rest ih =>
    rw [beforeFlush]
    split
    · split
      · exact List.nil_subset _
      · exact List.cons_subset_cons _ (ih _)
    · exact List.cons_subset_cons _ (ih _)

theorem flushes_cons (frame : ClientFrame β) (rest : List (ClientFrame β)) :
    flushes (frame :: rest) = flushes rest + frame.isFlush.toNat := by
  unfold flushes
  rw [List.countP_cons]
  cases frame.isFlush <;> rfl

theorem flushes_append (frames more : List (ClientFrame β)) :
    flushes (frames ++ more) = flushes frames + flushes more := List.countP_append

/-- What lies before a flush that has been sent does not change. -/
theorem beforeFlush_append (h : n < flushes frames) (more : List (ClientFrame β)) :
    beforeFlush n (frames ++ more) = beforeFlush n frames := by
  induction frames generalizing n with
  | nil => exact absurd h (Nat.not_lt_zero _)
  | cons frame rest ih =>
    rw [flushes_cons] at h
    rw [List.cons_append,beforeFlush,beforeFlush]
    cases hflush : frame.isFlush with
    | false =>
      rw [hflush] at h
      simp only [Bool.false_eq_true,if_false]
      rw [ih h]
    | true =>
      rw [hflush,Bool.toNat_true] at h
      simp only [if_true]
      split
      · rfl
      · rw [ih (by omega)]

theorem beforeFlush_mono_right (n : ℕ) (frames more : List (ClientFrame β)) :
    beforeFlush n frames ⊆ beforeFlush n (frames ++ more) := by
  induction frames generalizing n with
  | nil => exact List.nil_subset _
  | cons frame rest ih =>
    rw [List.cons_append,beforeFlush,beforeFlush]
    split
    · split
      · exact List.nil_subset _
      · exact List.cons_subset_cons _ (ih _)
    · exact List.cons_subset_cons _ (ih n)

theorem beforeFlush_mono_left (h : n ≤ m) (frames : List (ClientFrame β)) :
    beforeFlush n frames ⊆ beforeFlush m frames := by
  induction frames generalizing n m with
  | nil => exact List.Subset.refl _
  | cons frame rest ih =>
    rw [beforeFlush,beforeFlush]
    split
    · by_cases hn : n = 0
      · rw [if_pos hn]
        exact List.nil_subset _
      · have hm : m ≠ 0 := by omega
        rw [if_neg hn,if_neg hm]
        exact List.cons_subset_cons _ (ih (by omega))
    · exact List.cons_subset_cons _ (ih h)

theorem answerCount_append (frames more : List (Frame β)) :
    answerCount (frames ++ more) = answerCount frames + answerCount more := List.countP_append

theorem answer_left {before after more sent : List (Frame β)} {sequence : ℕ} (hno : answerCount more = 0)
    (h : sent ++ more = before ++ .flushed sequence :: after) :
    ∃ rest, sent = before ++ .flushed sequence :: rest := by
  rw [answerCount,List.countP_eq_zero] at hno
  rcases List.append_eq_append_iff.mp h with ⟨rest,hbefore,hmore⟩ | ⟨rest,hsent,hafter⟩
  · have hanswer := hno (.flushed sequence) (hmore ▸ List.mem_append_right _ (List.mem_cons_self ..))
    exact absurd rfl hanswer
  · cases rest with
    | nil =>
      have hanswer := hno (.flushed sequence) ((show more = _ from hafter.symm) ▸ List.mem_cons_self ..)
      exact absurd rfl hanswer
    | cons frame rest =>
      obtain ⟨rfl,-⟩ := List.cons.inj hafter
      exact ⟨rest,hsent⟩

/-! ## The mailbox -/

def isFlushOf (id : Uuid) (entry : Uuid × RoomCommand β) : Bool :=
  match entry with
  | (source,.flush) => source == id
  | _ => false

/-- The operations of the updates of a connection in the mailbox. -/
def queued (yrs : Yrs β Op) (mailbox : List (Uuid × RoomCommand β)) (id : Uuid) : Set Op :=
  { op | ∃ entry ∈ mailbox, ∃ actor sequence payload, entry.2 = .apply id actor sequence payload ∧
    op ∈ yrs.ops payload }

theorem queued_mono {mailbox mailbox' : List (Uuid × RoomCommand β)} (h : mailbox ⊆ mailbox') (id : Uuid) :
    queued yrs mailbox id ⊆ queued yrs mailbox' id := by
  rintro op ⟨entry,hentry,hop⟩
  exact ⟨entry,h hentry,hop⟩

structure Connection.Answered (yrs : Yrs β Op) (document : DocumentKey) (s : Session β Op) (id : Uuid)
    (c : Connection β) (taken : List (ClientFrame β)) (received : List (Frame β)) : Prop where
  applied : c.closes = false → updateOps yrs taken ⊆ ↑s.actor.room.doc ∪ queued yrs s.mailbox id
  asked : answerCount c.frames + s.mailbox.countP (isFlushOf id) ≤ flushes taken
  answered : ∀ before sequence after, c.frames = before ++ .flushed sequence :: after →
    updateOps yrs (beforeFlush (answerCount before) taken) ⊆ stored yrs document s.actor.database
  controls : ∀ message ∈ c.controls, message.isDurability = false
  received : received <+: c.frames

structure Session.Answered (yrs : Yrs β Op) (document : DocumentKey) (s : Session β Op)
    (taken : Uuid → List (ClientFrame β)) (received : Uuid → List (Frame β)) : Prop where
  sound : s.actor.Sound yrs document
  absent : ∀ id, s.connections.get? id = none → taken id = [] ∧ received id = []
  queue : ∀ id, s.mailbox.Pairwise (fun a b => isFlushOf id a = true →
    isFlushOf id b = false ∧ b.2.source? ≠ some id)
  flushing : ∀ id, ∀ entry ∈ s.mailbox, isFlushOf id entry = true → ∃ c join cursor,
    s.connections.get? id = some c ∧ c.phase = .subscribed .flushing join cursor
  connection : ∀ id c, s.connections.get? id = some c → c.Answered yrs document s id (taken id) (received id)

variable {document : DocumentKey} {s : Session β Op} {taken : Uuid → List (ClientFrame β)} {received : Uuid → List (Frame β)} {id : Uuid}
  {c c' : Connection β}

theorem Connection.Answered.lt (h : c.Answered yrs document s id (taken id) (received id))
    {before after : List (Frame β)} {sequence : ℕ} (hframes : c.frames = before ++ .flushed sequence :: after) :
    answerCount before < flushes (taken id) := by
  have hasked := h.asked
  rw [hframes,answerCount_append,answerCount,answerCount,List.countP_cons_of_pos rfl] at hasked
  rw [answerCount]
  omega

theorem Session.Answered.congr (h : s.Answered yrs document taken received) {s' : Session β Op}
    (hsound : s'.actor.Sound yrs document) (hdoc : s'.actor.room.doc = s.actor.room.doc)
    (hstored : stored yrs document s.actor.database ⊆ stored yrs document s'.actor.database)
    (hmail : s'.mailbox = s.mailbox) (hconn : s'.connections = s.connections) :
    s'.Answered yrs document taken received := by
  refine ⟨hsound,?_,?_,?_,?_⟩
  · rw [hconn]
    exact h.absent
  · rw [hmail]
    exact h.queue
  · rw [hmail,hconn]
    exact h.flushing
  · rw [hconn]
    intro id c hget
    have hold := h.connection id c hget
    refine ⟨?_,?_,?_,hold.controls,hold.received⟩
    · rw [hdoc,hmail]
      exact hold.applied
    · rw [hmail]
      exact hold.asked
    · exact fun before sequence after hframes => (hold.answered before sequence after hframes).trans hstored

theorem Session.Answered.idle (h : s.Answered yrs document taken received) (hget : s.connections.get? id = some c)
    (hphase : ∀ join cursor, c.phase ≠ .subscribed .flushing join cursor) :
    ∀ entry ∈ s.mailbox, isFlushOf id entry = false := by
  intro entry hentry
  rw [← Bool.not_eq_true]
  intro hflush
  obtain ⟨c',join,cursor,hget',hphase'⟩ := h.flushing id entry hentry hflush
  rw [hget] at hget'
  cases hget'
  exact hphase join cursor hphase'

/-- What a connection that serves sends and forwards without an answer. -/
structure Connection.Continues (c c' : Connection β) : Prop where
  frames : ∃ more, c'.frames = c.frames ++ more ∧ answerCount more = 0
  controls : c'.controls ⊆ c.controls

namespace Connection.Continues
variable {c'' : Connection β}

theorem refl (c : Connection β) : c.Continues c :=
  ⟨⟨[],(List.append_nil _).symm,rfl⟩,List.Subset.refl _⟩

theorem trans (h : c.Continues c') (h' : c'.Continues c'') : c.Continues c'' := by
  obtain ⟨more,hmore,hno⟩ := h.frames
  obtain ⟨rest,hrest,hno'⟩ := h'.frames
  refine ⟨⟨more ++ rest,?_,?_⟩,List.Subset.trans h'.controls h.controls⟩
  · rw [hrest,hmore,List.append_assoc]
  · rw [answerCount_append,hno,hno']

theorem phase (c : Connection β) (phase : Phase β) : c.Continues { c with phase := phase } :=
  ⟨(refl c).frames,List.Subset.refl _⟩

theorem send (c : Connection β) (frame : Frame β) (hno : frame.isAnswer = false) (sends : Bool) :
    c.Continues (c.send frame sends) := by
  cases sends with
  | false => exact phase c .closed
  | true =>
    refine ⟨⟨[frame],rfl,?_⟩,List.Subset.refl _⟩
    rw [answerCount,List.countP_singleton,hno]
    rfl

theorem sendLast (c : Connection β) (frame : Frame β) (hno : frame.isAnswer = false) (sends : Bool) :
    c.Continues (c.sendLast frame sends) :=
  (send c frame hno sends).trans (phase _ .closed)

theorem handleEvent (id : Uuid) (c : Connection β) (sends : Bool) (event : RoomEvent β) :
    c.Continues (c.handleEvent id sends event) := by
  cases event with
  | update source bytes =>
    simp only [Connection.handleEvent]
    split
    · exact refl c
    · exact send c _ rfl sends
  | durable sequence => exact send c _ rfl sends
  | reloadRequired => exact sendLast c _ rfl sends
  | policyChanged => exact sendLast c _ rfl sends
  | epochChanged documentEpoch => exact sendLast c _ rfl sends

theorem receive (id : Uuid) (c : Connection β) (join : RoomJoin β) (cursor : ℕ)
    (sent : List (RoomEvent β)) (sends : Bool) : c.Continues (c.receive id join cursor sent sends) := by
  unfold Connection.receive
  split
  · exact refl c
  · exact sendLast c _ rfl sends
  · next event _ => exact (phase c _).trans (handleEvent id _ sends event)

end Connection.Continues

theorem Connection.Answered.continues (h : c.Answered yrs document s id (taken id) (received id)) (hc : c.Continues c')
    (hclosed : c'.closes = false → c.closes = false) : c'.Answered yrs document s id (taken id) (received id) := by
  obtain ⟨more,hmore,hno⟩ := hc.frames
  refine ⟨fun hopen => h.applied (hclosed hopen),?_,?_,?_,?_⟩
  · rw [hmore,answerCount_append,hno]
    exact h.asked
  · intro before sequence after hsplit
    rw [hmore] at hsplit
    obtain ⟨rest,hrest⟩ := answer_left hno hsplit
    exact h.answered before sequence rest hrest
  · exact fun message hmessage => h.controls message (hc.controls hmessage)
  · exact h.received.trans (hmore ▸ List.prefix_append _ _)

namespace Session.Answered

/-- A connection moves on to one that keeps its order. -/
theorem modify (h : s.Answered yrs document taken received) (id : Uuid) (f : Connection β → Connection β)
    (hnew : ∀ c, s.connections.get? id = some c → (f c).Answered yrs document s id (taken id) (received id) ∧
      ((∀ entry ∈ s.mailbox, isFlushOf id entry = false) ∨ (f c).phase = c.phase)) :
    Session.Answered yrs document { s with connections := s.connections.modify id f } taken received := by
  have hconn (x : Uuid) : (s.connections.modify id f).get? x =
      if x = id then (s.connections.get? id).map f else s.connections.get? x := by
    rw [Table.get?_modify]
    split
    · next hx => rw [hx]
    · rfl
  refine ⟨h.sound,?_,h.queue,?_,?_⟩
  · intro x hx
    rw [hconn] at hx
    split at hx
    · next heq =>
      subst heq
      exact h.absent x (Option.map_eq_none_iff.mp hx)
    · exact h.absent x hx
  · intro x entry hentry hflush
    obtain ⟨d,join,cursor,hd,hphase⟩ := h.flushing x entry hentry hflush
    rw [hconn]
    by_cases hx : x = id
    · subst hx
      rcases (hnew d hd).2 with hnone | hsame
      · rw [hnone entry hentry] at hflush
        cases hflush
      · exact ⟨f d,join,cursor,by rw [if_pos rfl,hd,Option.map_some],hsame.trans hphase⟩
    · exact ⟨d,join,cursor,by rw [if_neg hx]; exact hd,hphase⟩
  · intro x d hd
    rw [hconn] at hd
    split at hd
    · next hx =>
      subst hx
      obtain ⟨c,hget,rfl⟩ := Option.map_eq_some_iff.mp hd
      have hold := (hnew c hget).1
      exact ⟨hold.applied,hold.asked,hold.answered,hold.controls,hold.received⟩
    · have hold := h.connection x d hd
      exact ⟨hold.applied,hold.asked,hold.answered,hold.controls,hold.received⟩

theorem post (h : s.Answered yrs document taken received) {entry : Uuid × RoomCommand β}
    (hflush : ∀ x, isFlushOf x entry = false)
    (hsource : ∀ x, entry.2.source? = some x → ∀ e ∈ s.mailbox, isFlushOf x e = false) :
    Session.Answered yrs document { s with mailbox := s.mailbox ++ [entry] } taken received := by
  refine ⟨h.sound,h.absent,?_,?_,?_⟩
  · intro x
    refine List.pairwise_append.mpr ⟨h.queue x,List.pairwise_singleton _ _,?_⟩
    intro a ha b hb hflusha
    rw [List.mem_singleton.mp hb]
    refine ⟨hflush x,fun hx => ?_⟩
    rw [hsource x hx a ha] at hflusha
    cases hflusha
  · intro x e he hx
    rcases List.mem_append.mp he with he | he
    · exact h.flushing x e he hx
    · rw [List.mem_singleton.mp he,hflush x] at hx
      cases hx
  · intro x d hd
    have hold := h.connection x d hd
    refine ⟨?_,?_,hold.answered,hold.controls,hold.received⟩
    · intro hopen
      exact (hold.applied hopen).trans (Set.union_subset_union_right _
        (queued_mono (List.subset_append_left _ _) x))
    · rw [List.countP_append,List.countP_singleton,hflush x]
      exact hold.asked

theorem proceed (h : s.Answered yrs document taken received) (hget : s.connections.get? id = some c)
    (hflushing : (∀ entry ∈ s.mailbox, isFlushOf id entry = false) ∨ c'.phase = c.phase)
    (hnew : c'.Answered yrs document s id (taken id) (received id)) :
    (s.proceed id c').Answered yrs document taken received := by
  have hmoved := h.modify id (fun _ => c') (fun d hd => by
    rw [hget] at hd
    cases hd
    exact ⟨hnew,hflushing⟩)
  unfold Session.proceed
  split
  · exact hmoved.post (fun _ => rfl) (fun x hx => by cases hx)
  · exact hmoved

end Session.Answered
end LatexCore.Collaboration
