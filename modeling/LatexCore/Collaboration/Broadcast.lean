import LatexCore.Collaboration.Delivery
import LatexCore.Collaboration.Durable
import LatexCore.Foundation.Runs

/-! # Completeness of the broadcast

A subscribed connection is given every update that the room accepts from the
others: it is in the state of its join, in a frame that was sent, or still
unread in its subscription. The one way to lose an update is to accept it
between the reply to a join and the subscription, and a run is complete exactly
when no connection subscribes after such an update.
-/
namespace LatexCore.Collaboration
open Core Foundation
variable {β Op : Type} (yrs : Yrs β Op)

def Reaches (id : Uuid) (join : RoomJoin β) (frames : List (Frame β)) (queue : List (RoomEvent β))
    (bytes : β) : Prop :=
  yrs.ops bytes ⊆ yrs.ops join.initialState ∨
    (∃ sent, .remoteSourceUpdate sent ∈ frames ∧ yrs.ops bytes ⊆ yrs.ops sent) ∨
    ∃ source sent, .update source sent ∈ queue ∧ source ≠ id ∧ yrs.ops bytes ⊆ yrs.ops sent

/-- Every subscribed connection is reached by the accepted updates of the others, and one that
serves has been sent the state of its join. -/
def Complete (accepted : List (Uuid × β)) (s : Session β Op) : Prop :=
  ∀ id c stage join cursor, s.connections.get? id = some c → c.phase = .subscribed stage join cursor →
    (stage ≠ .greeting → .initialState join.initialState ∈ c.frames) ∧
      ∀ p ∈ accepted, p.1 ≠ id → Reaches yrs id join c.frames (unread s.sent cursor) p.2

/-- A connection that subscribes does so before the document changes from the state it joined. -/
def SubscribesCurrent (s : Session β Op) : SessionLabel β → Prop
  | .subscribe id => ∀ c join, s.connections.get? id = some c → c.phase = .joined join →
      yrs.decodeV1 join.initialState = .ok s.actor.room.doc
  | _ => True

def Phase.join? : Phase β → Option (RoomJoin β)
  | .joined join => some join
  | .subscribed _ join _ => some join
  | _ => none

/-- The state of a join lies between the first document and the present one. -/
structure Connection.Seated (base doc : Finset Op) (sent : List (RoomEvent β)) (c : Connection β) :
    Prop where
  join : ∀ join, c.phase.join? = some join →
    ∃ state, yrs.decodeV1 join.initialState = .ok state ∧ base ⊆ state ∧ state ⊆ doc
  cursor : ∀ stage join cursor, c.phase = .subscribed stage join cursor → cursor ≤ sent.length
  silent : c.phase = .joining ∨ (∃ join, c.phase = .joined join) → c.frames = []

structure Session.Inv (base : Finset Op) (accepted : List (Uuid × β)) (s : Session β Op) : Prop where
  document : (↑s.actor.room.doc : Set Op) = ↑base ∪ { op | ∃ p ∈ accepted, op ∈ yrs.ops p.2 }
  seated : ∀ id c, s.connections.get? id = some c → c.Seated yrs base s.actor.room.doc s.sent
  mailbox : ∀ p ∈ s.mailbox, ∀ source, p.2.source? = some source → s.Opened source
  sources : ∀ p ∈ accepted, s.Opened p.1

variable {yrs} {s s' : Session β Op} {base doc doc' : Finset Op} {accepted : List (Uuid × β)}
  {sent : List (RoomEvent β)} {id : Uuid} {c c' : Connection β} {fresh : RoomJoin β → Prop}

theorem Reaches.mono {join : RoomJoin β} {frames frames' : List (Frame β)}
    {queue queue' : List (RoomEvent β)} {bytes : β} (h : Reaches yrs id join frames queue bytes)
    (hf : frames ⊆ frames') (hq : queue ⊆ queue') : Reaches yrs id join frames' queue' bytes := by
  rcases h with h | ⟨b,hb,hsub⟩ | ⟨source,b,hb,hne,hsub⟩
  · exact Or.inl h
  · exact Or.inr (Or.inl ⟨b,hf hb,hsub⟩)
  · exact Or.inr (Or.inr ⟨source,b,hq hb,hne,hsub⟩)

theorem Session.Inv.accepted_sub (h : s.Inv yrs base accepted) {p : Uuid × β} (hp : p ∈ accepted) :
    yrs.ops p.2 ⊆ ↑s.actor.room.doc := by
  rw [h.document]
  exact fun op hop => Or.inr ⟨p,hp,hop⟩

theorem Session.Inv.base_sub (h : s.Inv yrs base accepted) : base ⊆ s.actor.room.doc := by
  rw [← Finset.coe_subset,h.document]
  exact Set.subset_union_left

/-! ## Steps that accept nothing -/

theorem Connection.Seated.moves (h : c.Seated yrs base doc sent) (hbase : base ⊆ doc)
    (hm : Moves yrs fresh doc sent id c c') : c'.Seated yrs base doc sent := by
  have hkeep : ∀ join, c.phase.join? = some join → (∀ j, c'.phase.join? = some j → j = join) →
      ∀ j, c'.phase.join? = some j →
        ∃ state, yrs.decodeV1 j.initialState = .ok state ∧ base ⊆ state ∧ state ⊆ doc := by
    intro join hjoin heq j hj
    exact heq j hj ▸ h.join join hjoin
  cases hm with
  | stays phase frames =>
    exact ⟨by rw [phase]; exact h.join,by rw [phase]; exact h.cursor,
      by rw [phase,frames]; exact h.silent⟩
  | closes phase => exact ⟨by simp [phase,Phase.join?],by simp [phase],by simp [phase]⟩
  | joins join phase next frames state =>
    refine ⟨?_,by simp [next],fun _ => frames.trans (h.silent (Or.inl phase))⟩
    intro j hj
    simp only [next,Phase.join?,Option.some.injEq] at hj
    exact hj ▸ ⟨doc,state,hbase,Finset.Subset.refl _⟩
  | subscribes join phase next =>
    refine ⟨hkeep join (by simp [phase,Phase.join?]) (by simp [next,Phase.join?,eq_comm]),?_,
      by simp [next]⟩
    intro stage j cursor hj
    rw [next] at hj
    cases hj
    exact Nat.le_refl _
  | greets join cursor phase next =>
    refine ⟨hkeep join (by simp [phase,Phase.join?]) (by simp [next,Phase.join?,eq_comm]),?_,
      by simp [next]⟩
    intro stage j k hj
    rw [next] at hj
    cases hj
    exact h.cursor _ _ _ phase
  | serves stage stage' join cursor phase next =>
    refine ⟨hkeep join (by simp [phase,Phase.join?]) (by simp [next,Phase.join?,eq_comm]),?_,
      by simp [next]⟩
    intro stage j k hj
    rw [next] at hj
    cases hj
    exact h.cursor _ _ _ phase
  | advances join cursor event phase next frames received =>
    refine ⟨hkeep join (by simp [phase,Phase.join?]) (by simp [next,Phase.join?,eq_comm]),?_,
      by simp [next]⟩
    intro stage j k hj
    rw [next] at hj
    cases hj
    exact (recv_value received).2

theorem Connection.Seated.grow (h : c.Seated yrs base doc sent) (hdoc : doc ⊆ doc')
    (events : List (RoomEvent β)) : c.Seated yrs base doc' (sent ++ events) := by
  constructor
  · intro join hjoin
    obtain ⟨state,hdec,hb,hd⟩ := h.join join hjoin
    exact ⟨state,hdec,hb,hd.trans hdoc⟩
  · intro stage join cursor hphase
    have hle := h.cursor stage join cursor hphase
    rw [List.length_append]
    omega
  · exact h.silent

theorem Session.Inv.evolves (h : s.Inv yrs base accepted) (he : Evolves yrs fresh s s') :
    s'.Inv yrs base accepted := by
  obtain ⟨events,hsent⟩ := he.sent
  refine ⟨he.doc ▸ h.document,?_,?_,fun p hp => he.opened (h.sources p hp)⟩
  · intro id c' hc'
    cases hc : s.connections.get? id with
    | none =>
      obtain ⟨hphase,hframes⟩ := he.backward id c' hc' hc
      exact ⟨by simp [hphase,Phase.join?],by simp [hphase],fun _ => hframes⟩
    | some c =>
      obtain ⟨c'',hc'',hm⟩ := he.forward id c hc
      rw [hc'] at hc''
      cases hc''
      rw [he.doc,hsent]
      exact ((h.seated id c hc).moves h.base_sub hm).grow (Finset.Subset.refl _) events
  · intro p hp source hsource
    rcases he.mailbox p hp with hold | hnew
    · exact he.opened (h.mailbox p hold source hsource)
    · exact he.opened (hnew source hsource)

theorem Complete.evolves (h : Complete yrs accepted s) (hinv : s.Inv yrs base accepted)
    (he : Evolves yrs fresh s s')
    (hfresh : ∀ join, fresh join → yrs.decodeV1 join.initialState = .ok s.actor.room.doc) :
    Complete yrs accepted s' := by
  intro id c' stage join cursor hc' hphase'
  obtain ⟨events,hsent⟩ := he.sent
  cases hc : s.connections.get? id with
  | none =>
    have hphase := (he.backward id c' hc' hc).1
    rw [hphase'] at hphase
    cases hphase
  | some c =>
    obtain ⟨c'',hc'',hm⟩ := he.forward id c hc
    rw [hc'] at hc''
    cases hc''
    have hle : ∀ k, k ≤ s.sent.length → unread s.sent k ⊆ unread s'.sent k := by
      intro k hk
      rw [hsent,unread_append hk]
      exact List.subset_append_left _ _
    have hseat := hinv.seated id c hc
    cases hm with
    | stays phase frames =>
      rw [phase] at hphase'
      have hold := h id c stage join cursor hc hphase'
      rw [frames]
      refine ⟨hold.1,fun p hp hne => ?_⟩
      exact (hold.2 p hp hne).mono (List.Subset.refl _) (hle _ (hseat.cursor _ _ _ hphase'))
    | closes phase => rw [hphase'] at phase; cases phase
    | joins join' phase next => rw [hphase'] at next; cases next
    | subscribes join' phase next frames hf =>
      rw [hphase'] at next
      cases next
      refine ⟨fun hs => absurd rfl hs,fun p hp _ => Or.inl ?_⟩
      rw [mem_ops (hfresh join hf)]
      exact hinv.accepted_sub hp
    | greets join' cursor' phase next frames initial =>
      rw [hphase'] at next
      cases next
      have hold := h id c _ join cursor hc phase
      refine ⟨fun _ => initial,fun p hp hne => ?_⟩
      exact (hold.2 p hp hne).mono frames (hle _ (hseat.cursor _ _ _ phase))
    | serves stage₀ stage' join' cursor' phase next open_ still frames =>
      rw [hphase'] at next
      cases next
      have hold := h id c _ join cursor hc phase
      refine ⟨fun _ => frames (hold.1 open_),fun p hp hne => ?_⟩
      exact (hold.2 p hp hne).mono frames (hle _ (hseat.cursor _ _ _ phase))
    | advances join' cursor' event phase next frames received delivered =>
      rw [hphase'] at next
      cases next
      have hold := h id c _ join _ hc phase
      obtain ⟨hhead,hlt⟩ := recv_value received
      refine ⟨fun _ => frames (hold.1 (by simp)),fun p hp hne => ?_⟩
      rcases hold.2 p hp hne with hin | ⟨b,hb,hsub⟩ | ⟨source,b,hb,hsource,hsub⟩
      · exact Or.inl hin
      · exact Or.inr (Or.inl ⟨b,frames hb,hsub⟩)
      · rw [hhead] at hb
        rcases List.mem_cons.mp hb with heq | hb
        · exact Or.inr (Or.inl ⟨b,delivered source b heq.symm hsource,hsub⟩)
        · exact Or.inr (Or.inr ⟨source,b,hle _ hlt hb,hsource,hsub⟩)

/-! ## The step that accepts an update -/

variable [DecidableEq Op]

def Session.accept (s : Session β Op) (a : Actor β Op) (rest : List (Uuid × RoomCommand β))
    (source : Uuid) (bytes : β) : Session β Op :=
  { s with actor := a, mailbox := rest, sent := s.sent ++ [.update source bytes] }

theorem Session.Inv.accept (h : s.Inv yrs base accepted) {a : Actor β Op} {update : Finset Op}
    {rest : List (Uuid × RoomCommand β)} {source : Uuid} {bytes : β}
    (hdec : yrs.decodeV1 bytes = .ok update) (hdoc : a.room.doc = s.actor.room.doc ∪ update)
    (hopen : s.Opened source) (hrest : rest ⊆ s.mailbox) :
    (s.accept a rest source bytes).Inv yrs base (accepted ++ [(source,bytes)]) := by
  refine ⟨?_,?_,?_,?_⟩
  · simp only [Session.accept,hdoc,Finset.coe_union,h.document,Set.union_assoc]
    congr 1
    rw [← mem_ops hdec]
    ext op
    simp only [List.mem_append,List.mem_singleton,Set.mem_union,Set.mem_ofPred_eq]
    constructor
    · rintro (⟨p,hp,hop⟩ | hop)
      · exact ⟨p,Or.inl hp,hop⟩
      · exact ⟨_,Or.inr rfl,hop⟩
    · rintro ⟨p,hp | rfl,hop⟩
      · exact Or.inl ⟨p,hp,hop⟩
      · exact Or.inr hop
  · intro id c hc
    exact (h.seated id c hc).grow (hdoc ▸ Finset.subset_union_left) _
  · intro p hp
    exact h.mailbox p (hrest hp)
  · intro p hp
    rcases List.mem_append.mp hp with hp | hp
    · exact h.sources p hp
    · simp only [List.mem_singleton] at hp
      exact hp ▸ hopen

omit [DecidableEq Op] in
theorem Complete.accept (h : Complete yrs accepted s) (hinv : s.Inv yrs base accepted)
    (a : Actor β Op) (rest : List (Uuid × RoomCommand β)) (source : Uuid) (bytes : β) :
    Complete yrs (accepted ++ [(source,bytes)]) (s.accept a rest source bytes) := by
  intro id c stage join cursor hc hphase
  have hold := h id c stage join cursor hc hphase
  have hle := (hinv.seated id c hc).cursor _ _ _ hphase
  refine ⟨hold.1,?_⟩
  intro p hp hne
  simp only [Session.accept,unread_append hle]
  rcases List.mem_append.mp hp with hp | hp
  · exact (hold.2 p hp hne).mono (List.Subset.refl _) (List.subset_append_left _ _)
  · simp only [List.mem_singleton] at hp
    subst hp
    exact Or.inr (Or.inr ⟨source,bytes,by simp,hne,subset_rfl⟩)

end LatexCore.Collaboration
