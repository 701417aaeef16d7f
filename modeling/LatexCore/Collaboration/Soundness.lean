import LatexCore.Collaboration.Calls

/-! # Sound actors

The document of a loaded room runs ahead of the database by the pending batch.
The invariant is the write-behind relation between the document, the durable
operations and the batch, with the facts about sequences that carry it. Every
reaction of the actor keeps it, and every acknowledgement of a flush is honest.
-/
namespace LatexCore.Collaboration
open Core Foundation
variable {β Op : Type} (yrs : Yrs β Op) (document : DocumentKey)

/-- The operations of the pending batch. -/
def buffered (pending : List (PendingUpdate β)) : Set Op :=
  { op | ∃ u ∈ pending, op ∈ yrs.ops u.bytes }

structure Attached (db : Database β) (doc : Finset Op) (sequence : ℕ)
    (pending : List (PendingUpdate β)) : Prop where
  epoch : document.documentEpoch ≤ i64Max
  based : (db.latestSnapshot document).isSome
  drawn : sequence < db.nextId
  through : ∀ t c, db.snapshots.get? (document,t) = some c → t ≤ sequence
  backed : WriteBehind ↑doc (durable yrs document db sequence) (buffered yrs pending)
  ahead : stored yrs document db ⊆ ↑doc
  readable : ∀ u ∈ pending, ∃ update, yrs.decodeV1 u.bytes = .ok update
  held : buffered yrs pending ⊆ ↑doc

structure Actor.Sound (a : Actor β Op) : Prop where
  stored : Stored yrs document a.database
  attached : Attached yrs document a.database a.room.doc a.room.durableSequence a.room.pending

variable {yrs document}

theorem buffered_inputs (pending : List (PendingUpdate β)) :
    { op | ∃ i ∈ pending.map PendingUpdate.input, op ∈ yrs.ops i.updateBytes } =
      buffered yrs pending := by
  ext op
  simp [buffered,PendingUpdate.input]

theorem Loaded.attached {db : Database β} {doc : Finset Op} {sequence : ℕ}
    (h : Loaded yrs document db doc sequence) (hepoch : document.documentEpoch ≤ i64Max)
    (hbased : (db.latestSnapshot document).isSome) : Attached yrs document db doc sequence [] := by
  have hall : durable yrs document db sequence = stored yrs document db := by
    rw [stored,durable,durable,logged_eq h.log h.drawn.le]
  have hempty : buffered yrs ([] : List (PendingUpdate β)) = ∅ := by
    ext op
    simp [buffered]
  refine ⟨hepoch,hbased,h.drawn,h.through,?_,h.contents.symm.subset,by simp,?_⟩
  · rw [hall,h.contents,hempty]
    exact WriteBehind.recovered _
  · rw [hempty]
    exact Set.empty_subset _

/-! ## Calls of a sound actor -/

namespace Actor.Sound
variable {a : Actor β Op} {db : Database β}

theorem undisturbed (h : a.Sound yrs document) (hu : Undisturbed document a.database db) :
    Actor.Sound yrs document { a with database := db } := by
  have ha := h.attached
  have hstored : Collaboration.stored yrs document db ⊆ ↑a.room.doc := by
    rintro op (⟨s,hs,hop⟩ | ⟨r,hr,hd,_,hop⟩)
    · exact ha.ahead (Or.inl ⟨s,hu.latest ▸ hs,hop⟩)
    · have hold := (hu.updates r hd).mp hr
      exact ha.ahead (Or.inr ⟨r,hold,hd,(h.stored.drawn r hold hd).2.le,hop⟩)
  refine ⟨hu.stored h.stored,ha.epoch,?_,ha.drawn.trans_le hu.drawn,?_,?_,hstored,ha.readable,ha.held⟩
  · exact hu.latest ▸ ha.based
  · intro t c hc
    exact ha.through t c (hu.snapshots t ▸ hc)
  · exact (hu.durable a.room.durableSequence).symm ▸ ha.backed

section Batch
variable {last : ℕ} {rows : List (UpdateRow β)}

theorem readable_inputs (h : a.Sound yrs document) :
    ∀ i ∈ a.room.pending.map PendingUpdate.input, ∃ update, yrs.decodeV1 i.updateBytes = .ok update := by
  intro i hi
  obtain ⟨u,hu,rfl⟩ := List.mem_map.mp hi
  exact h.attached.readable u hu

theorem appended_ahead (h : a.Sound yrs document)
    (ha : Appended document (a.room.pending.map PendingUpdate.input) a.database db last rows)
    (hne : a.room.pending.map PendingUpdate.input ≠ []) {through : ℕ} (ht : last ≤ through) :
    durable yrs document db through =
        Collaboration.stored yrs document a.database ∪ buffered yrs a.room.pending ∧
      durable yrs document db through ⊆ ↑a.room.doc := by
  have heq := ha.durable_new h.stored hne ht
  rw [buffered_inputs] at heq
  exact ⟨heq,heq ▸ Set.union_subset h.attached.ahead h.attached.held⟩

/-- A batch that committed without an answer stays pending. -/
theorem appended_unseen (h : a.Sound yrs document)
    (ha : Appended document (a.room.pending.map PendingUpdate.input) a.database db last rows)
    (hne : a.room.pending.map PendingUpdate.input ≠ []) :
    Actor.Sound yrs document { a with database := db } := by
  have hold := h.attached
  have hbelow := ha.below hne
  refine ⟨ha.stored h.stored hne h.readable_inputs,hold.epoch,?_,?_,?_,?_,?_,hold.readable,hold.held⟩
  · exact ha.latest ▸ hold.based
  · exact hold.drawn.trans_le (by simp only; omega)
  · intro t c hc
    exact hold.through t c (by simpa [ha.database] using hc)
  · exact (ha.durable_old hold.drawn).symm ▸ hold.backed
  · exact (h.appended_ahead ha hne (by simp only; omega)).2

theorem appended (h : a.Sound yrs document)
    (ha : Appended document (a.room.pending.map PendingUpdate.input) a.database db last rows)
    (hne : a.room.pending.map PendingUpdate.input ≠ []) :
    Actor.Sound yrs document ⟨db,a.room.flushed last⟩ := by
  have hold := h.attached
  have hbelow := ha.below hne
  have hnew := h.appended_ahead ha hne (le_refl last)
  have hempty : buffered yrs ([] : List (PendingUpdate β)) = ∅ := by
    ext op
    simp [buffered]
  refine ⟨ha.stored h.stored hne h.readable_inputs,hold.epoch,?_,hbelow.2,?_,?_,?_,by simp [Room.flushed],?_⟩
  · exact ha.latest ▸ hold.based
  · intro t c hc
    have hle := hold.through t c (by simpa [ha.database] using hc)
    have hlt := hold.drawn
    simp only [Room.flushed]
    omega
  · show WriteBehind ↑a.room.doc (durable yrs document db last) (buffered yrs [])
    rw [hempty]
    refine hold.backed.flush ?_ ?_ hnew.2
    · rw [hnew.1]
      exact (durable_mono hold.drawn.le).trans Set.subset_union_left
    · rw [hnew.1]
      exact Set.subset_union_right
  · exact (h.appended_ahead ha hne (by simp only; omega)).2
  · show buffered yrs [] ⊆ ↑a.room.doc
    rw [hempty]
    exact Set.empty_subset _

end Batch

theorem snapshot (h : a.Sound yrs document) {t : Table (DocumentKey × ℕ) β}
    (hbound : a.room.durableSequence ≤ i64Max)
    (hins : a.database.snapshots.insert? (document,a.room.durableSequence)
      (yrs.encodeAll (yrs.encodeStateAsUpdateV1 a.room.doc)) = some t) :
    Actor.Sound yrs document { a with database := { a.database with snapshots := t } } := by
  have hold := h.attached
  have hlatest := latestSnapshot_insert hins hold.through
  have hin : inSnapshot yrs document { a.database with snapshots := t } = ↑a.room.doc := by
    ext op
    simp only [inSnapshot,hlatest,Set.mem_ofPred_eq,Option.some.injEq,exists_eq_left',stateOps_encode]
  have hlogged : ∀ n, logged yrs document { a.database with snapshots := t } n ⊆ ↑a.room.doc := by
    rintro n op ⟨r,hr,hd,_,hop⟩
    exact hold.ahead (Or.inr ⟨r,hr,hd,(h.stored.drawn r hr hd).2.le,hop⟩)
  have hwhole : ∀ n, durable yrs document { a.database with snapshots := t } n = ↑a.room.doc := by
    intro n
    rw [durable,hin]
    exact Set.union_eq_left.mpr (hlogged n)
  have hget := Table.get?_insert? hins
  constructor
  · refine ⟨h.stored.positive,h.stored.drawn,h.stored.readable,?_⟩
    intro s c hc
    rw [hget] at hc
    split at hc
    · next heq =>
      cases heq
      cases hc
      refine ⟨hbound,hold.drawn,⟨_,_,yrs.decompress_compress _,yrs.decode_encode _⟩,?_⟩
      rw [stateOps_encode]
      exact hlogged _
    · have hrow := h.stored.snapshots s c hc
      exact ⟨hrow.bigint,hrow.drawn,hrow.readable,hrow.covers⟩
  · refine ⟨hold.epoch,by rw [hlatest]; rfl,hold.drawn,?_,?_,(hwhole _).subset,hold.readable,hold.held⟩
    · intro s c hc
      rw [hget] at hc
      split at hc
      · next heq =>
        cases heq
        exact le_refl _
      · exact hold.through s c hc
    · rw [hwhole]
      exact hold.backed.harden hold.backed.kept subset_rfl

theorem saveSnapshot (h : a.Sound yrs document) (o : Outcomes) :
    (a.saveSnapshot yrs document o).1.Sound yrs document := by
  rw [Actor.saveSnapshot]
  rcases perform_snapshot document o.snapshot a.room.durableSequence
    (yrs.encodeAll (yrs.encodeStateAsUpdateV1 a.room.doc)) a.database with ⟨⟨n,hn⟩,_⟩ | ⟨hbound,t,hins,ht⟩
  · simp only [hn]
    exact h.undisturbed (.refl _ n)
  · simp only [ht]
    exact h.snapshot hbound hins

theorem snapshotIfDue (h : a.Sound yrs document) (o : Outcomes) :
    (a.snapshotIfDue yrs document o).Sound yrs document := by
  have hsaved := h.saveSnapshot o
  rw [Actor.snapshotIfDue]
  split
  · split
    · exact ⟨hsaved.stored,hsaved.attached⟩
    · exact hsaved
  · exact h

theorem snapshotIfEmpty (h : a.Sound yrs document) (o : Outcomes) :
    (a.snapshotIfEmpty yrs document o).Sound yrs document := by
  have hsaved := h.saveSnapshot o
  rw [Actor.snapshotIfEmpty]
  split
  · exact ⟨hsaved.stored,hsaved.attached⟩
  · exact h

end Actor.Sound

/-! ## Reactions of a sound actor -/

variable (yrs document) [DecidableEq Op]

/-- Whatever the database is asked to recover from gives back the operations. -/
def Recovers (db : Database β) (ops : Set Op) : Prop :=
  ∀ source save, ∃ doc sequence, (loadDocument yrs document source save db).2 = .ok (doc,sequence) ∧
    ops ⊆ ↑doc

/-- A durable acknowledgement covers every operation of the update that it answers. -/
def Effect.Honest : Effect β → Prop
  | .control _ update (.durableAck _ durableSeq) db =>
    yrs.ops update ⊆ durable yrs document db durableSeq ∧ Recovers yrs document db (yrs.ops update)
  | _ => True

variable {yrs document}

/-- A reaction that leaves a sound actor and sends only honest acknowledgements. -/
def Faithful (yrs : Yrs β Op) (document : DocumentKey) (r : Reaction β Op) : Prop :=
  r.1.Sound yrs document ∧ ∀ e ∈ r.2, e.Honest yrs document

namespace Actor.Sound
variable {a : Actor β Op}

theorem recovers (h : a.Sound yrs document) {ops : Set Op}
    (hops : ops ⊆ Collaboration.stored yrs document a.database) : Recovers yrs document a.database ops := by
  intro source save
  obtain ⟨doc,sequence,hload,hloaded⟩ := h.stored.load h.attached.epoch h.attached.based source save
  exact ⟨doc,sequence,by rw [hload],hops.trans hloaded.contents.symm.subset⟩

/-- A flush keeps its batch or acknowledges updates that it has made durable. -/
theorem flushPending (h : a.Sound yrs document) (o : Outcomes) :
    Faithful yrs document (a.flushPending document o).1 := by
  simp only [Actor.flushPending,flushBatch]
  cases o.blob with
  | error e => exact ⟨h,by simp⟩
  | ok u =>
    rcases perform_batch document (a.room.pending.map PendingUpdate.input) o.batch
      h.stored.positive with
      ⟨e,n,hcall⟩ | ⟨result,db,last,rows,hcall,hseq,hne,ha⟩
    · simp only [hcall,Except.mapError]
      exact ⟨h.undisturbed (.refl _ n),by simp⟩
    · cases result with
      | error e =>
        simp only [hcall,Except.mapError]
        exact ⟨h.appended_unseen ha hne,by simp⟩
      | ok sequence =>
        obtain rfl := hseq sequence rfl
        simp only [hcall,Except.mapError]
        have hsound := h.appended ha hne
        refine ⟨hsound,?_⟩
        intro e he
        rcases List.mem_append.mp he with he | he
        · obtain ⟨u,hu,rfl⟩ := List.mem_map.mp he
          have hops : yrs.ops u.bytes ⊆ durable yrs document db sequence := by
            rw [(h.appended_ahead ha hne (le_refl _)).1]
            exact fun op hop => Or.inr ⟨u,hu,hop⟩
          exact ⟨hops,hsound.recovers (hops.trans (durable_mono hsound.attached.drawn.le))⟩
        · simp only [List.mem_singleton] at he
          subst he
          trivial

theorem flushIfPending (h : a.Sound yrs document) (o : Outcomes) :
    Faithful yrs document (a.flushIfPending document o) := by
  rw [Actor.flushIfPending]
  split
  · exact ⟨h,by simp⟩
  · exact h.flushPending o

theorem due {r : Reaction β Op} (h : Faithful yrs document r) (o : Outcomes) :
    Faithful yrs document (Actor.due yrs document o r) :=
  ⟨h.1.snapshotIfDue o,h.2⟩

theorem flush (h : a.Sound yrs document) (o : Outcomes) :
    Faithful yrs document (a.flush document o) := by
  rw [Actor.flush]
  split
  · exact ⟨h,by simp [Effect.Honest]⟩
  · have hf := h.flushPending o
    refine ⟨hf.1,?_⟩
    intro e he
    rcases List.mem_append.mp he with he | he
    · exact hf.2 e he
    · simp only [List.mem_singleton] at he
      subst he
      trivial

theorem leave (h : a.Sound yrs document) (o : Outcomes) (writer : Bool) :
    Faithful yrs document (a.leave yrs document o writer) := by
  have hleft : Actor.Sound yrs document { a with room := a.room.leave writer } :=
    ⟨h.stored,h.attached⟩
  have hflushed : Faithful yrs document
      (if (a.room.leave writer).writers = 0 then
        Actor.flushIfPending document o { a with room := a.room.leave writer }
      else ({ a with room := a.room.leave writer },[])) := by
    split
    · exact hleft.flushIfPending o
    · exact ⟨hleft,by simp⟩
  exact ⟨hflushed.1.snapshotIfEmpty o,hflushed.2⟩

theorem accept (h : a.Sound yrs document) {update : Finset Op} {bytes : β}
    (hdec : yrs.decodeV1 bytes = .ok update) (source : Uuid) (actor : UserId) (clientSequence : ℕ) :
    Actor.Sound yrs document
      { a with room := a.room.accept yrs (a.room.doc ∪ update) source actor clientSequence bytes } := by
  have hold := h.attached
  have hbuf : buffered yrs (a.room.pending ++ [⟨actor,clientSequence,bytes,source⟩]) =
      buffered yrs a.room.pending ∪ ↑update := by
    ext op
    simp only [buffered,List.mem_append,List.mem_singleton,Set.mem_ofPred_eq,Set.mem_union]
    constructor
    · rintro ⟨u,hu | rfl,hop⟩
      · exact Or.inl ⟨u,hu,hop⟩
      · exact Or.inr (mem_ops hdec ▸ hop)
    · rintro (⟨u,hu,hop⟩ | hop)
      · exact ⟨u,Or.inl hu,hop⟩
      · exact ⟨_,Or.inr rfl,(mem_ops hdec).symm ▸ hop⟩
  refine ⟨h.stored,hold.epoch,hold.based,hold.drawn,hold.through,?_,?_,?_,?_⟩
  · simp only [Room.accept,hbuf,Finset.coe_union]
    exact hold.backed.accept ↑update
  · simp only [Room.accept,Finset.coe_union]
    exact hold.ahead.trans Set.subset_union_left
  · intro u hu
    rcases List.mem_append.mp hu with hu | hu
    · exact hold.readable u hu
    · simp only [List.mem_singleton] at hu
      subst hu
      exact ⟨update,hdec⟩
  · simp only [Room.accept,hbuf,Finset.coe_union]
    exact Set.union_subset_union_left _ hold.held

theorem accepted (h : a.Sound yrs document) (o : Outcomes) (source : Uuid) (bytes : β) :
    Faithful yrs document (a.accepted document o source bytes) := by
  have hflushed : Faithful yrs document
      (if batchBytes ≤ a.room.pendingBytes then (a.flushPending document o).1 else (a,[])) := by
    split
    · exact h.flushPending o
    · exact ⟨h,by simp⟩
  exact ⟨hflushed.1,List.forall_mem_cons.mpr ⟨trivial,hflushed.2⟩⟩

end Actor.Sound

end LatexCore.Collaboration
