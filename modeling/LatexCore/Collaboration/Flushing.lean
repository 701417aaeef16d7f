import LatexCore.Collaboration.Acknowledgement
import LatexCore.Collaboration.Completeness

/-! # What a flush makes durable

What is stored of a document grows with every call of its actor. A flush that
succeeds leaves the whole document stored, whether its batch was written by this
flush or before; and it is the only reaction that answers a flush.
-/
namespace LatexCore.Collaboration
open Core Foundation
variable {β Op : Type} {yrs : Yrs β Op} {document : DocumentKey} {db db' : Database β} {a : Actor β Op}

theorem Undisturbed.stored_le (h : Undisturbed document db db') :
    Collaboration.stored yrs document db ⊆ Collaboration.stored yrs document db' := by
  have hsame : Collaboration.durable yrs document db' db.nextId =
      Collaboration.durable yrs document db db.nextId := h.durable db.nextId
  rw [Collaboration.stored,← hsame]
  exact durable_mono h.drawn

theorem Appended.stored_le {inputs : List (CollaborationUpdateInput β)} {last : ℕ}
    {rows : List (UpdateRow β)} (h : Appended document inputs db db' last rows)
    (hs : Stored yrs document db) (hne : inputs ≠ []) :
    Collaboration.stored yrs document db ⊆ Collaboration.stored yrs document db' := by
  have hnew := h.durable_new hs hne (h.below hne).2.le
  rw [Collaboration.stored.eq_def yrs document db',hnew]
  exact Set.subset_union_left

namespace Actor.Sound

theorem stored_snapshot (h : a.Sound yrs document) {t : Table (DocumentKey × ℕ) β}
    (hins : a.database.snapshots.insert? (document,a.room.durableSequence)
      (yrs.encodeAll (yrs.encodeStateAsUpdateV1 a.room.doc)) = some t) :
    Collaboration.stored yrs document a.database ⊆
      Collaboration.stored yrs document { a.database with snapshots := t } := by
  have hlatest := latestSnapshot_insert hins h.attached.through
  intro op hop
  refine Or.inl ⟨_,hlatest,?_⟩
  rw [stateOps_encode]
  exact h.attached.ahead hop

theorem stored_saveSnapshot (h : a.Sound yrs document) (o : Outcomes) :
    Collaboration.stored yrs document a.database ⊆
      Collaboration.stored yrs document (a.saveSnapshot yrs document o).1.database := by
  rw [Actor.saveSnapshot]
  rcases perform_snapshot document o.snapshot a.room.durableSequence
    (yrs.encodeAll (yrs.encodeStateAsUpdateV1 a.room.doc)) a.database with ⟨⟨n,hn⟩,_⟩ | ⟨_,t,hins,ht⟩
  · simp only [hn]
    exact (Undisturbed.refl _ n).stored_le
  · simp only [ht]
    exact h.stored_snapshot hins

theorem stored_snapshotIfDue (h : a.Sound yrs document) (o : Outcomes) :
    Collaboration.stored yrs document a.database ⊆
      Collaboration.stored yrs document (a.snapshotIfDue yrs document o).database := by
  have hsaved := h.stored_saveSnapshot o
  rw [Actor.snapshotIfDue]
  split
  · split
    · exact hsaved
    · exact hsaved
  · exact subset_rfl

theorem stored_snapshotIfEmpty (h : a.Sound yrs document) (o : Outcomes) :
    Collaboration.stored yrs document a.database ⊆
      Collaboration.stored yrs document (a.snapshotIfEmpty yrs document o).database := by
  have hsaved := h.stored_saveSnapshot o
  rw [Actor.snapshotIfEmpty]
  split
  · exact hsaved
  · exact subset_rfl

theorem stored_of_empty (h : a.Sound yrs document) (hempty : a.room.pending = []) :
    ↑a.room.doc ⊆ Collaboration.stored yrs document a.database := by
  intro op hop
  rcases h.attached.backed.covered hop with hdurable | ⟨u,hu,_⟩
  · exact durable_mono h.attached.drawn.le hdurable
  · rw [hempty] at hu
    cases hu

theorem stored_flushPending (h : a.Sound yrs document) (o : Outcomes) :
    Collaboration.stored yrs document a.database ⊆
        Collaboration.stored yrs document (a.flushPending document o).1.1.database ∧
      ∀ sequence, (a.flushPending document o).2 = .ok sequence →
        (a.flushPending document o).1.1.room.pending = [] := by
  simp only [Actor.flushPending,flushBatch]
  cases o.blob with
  | error e => exact ⟨subset_rfl,by simp⟩
  | ok u =>
    rcases perform_batch document (a.room.pending.map PendingUpdate.input) o.batch
      h.stored.positive with
      ⟨e,n,hcall⟩ | ⟨result,db,last,rows,hcall,_,hne,ha⟩
    · simp only [hcall,Except.mapError]
      exact ⟨(Undisturbed.refl _ n).stored_le,by simp⟩
    · have hgrows := ha.stored_le h.stored hne
      cases result with
      | error e =>
        simp only [hcall,Except.mapError]
        exact ⟨hgrows,by simp⟩
      | ok sequence =>
        simp only [hcall,Except.mapError]
        exact ⟨hgrows,fun _ _ => rfl⟩

theorem stored_flushIfPending (h : a.Sound yrs document) (o : Outcomes) :
    Collaboration.stored yrs document a.database ⊆
      Collaboration.stored yrs document (a.flushIfPending document o).1.database := by
  rw [Actor.flushIfPending]
  split
  · exact subset_rfl
  · exact (h.stored_flushPending o).1

end Actor.Sound

/-! ## Effects -/

/-- The message that answers a flush that failed. -/
def Control.isDurability : Control → Bool
  | .error "durability" _ => true
  | _ => false

def Effect.plain : Effect β → Bool
  | .flushed _ => false
  | .control _ _ message _ => !message.isDurability
  | _ => true

theorem flushPending_plain (a : Actor β Op) (o : Outcomes) :
    ∀ e ∈ (a.flushPending document o).1.2, e.plain = true := by
  unfold Actor.flushPending
  split
  · intro e he
    rcases List.mem_append.mp he with he | he
    · obtain ⟨u,-,rfl⟩ := List.mem_map.mp he
      rfl
    · rw [List.mem_singleton.mp he]
      rfl
  · intro e he
    cases he

theorem flushIfPending_plain (a : Actor β Op) (o : Outcomes) :
    ∀ e ∈ (a.flushIfPending document o).2, e.plain = true := by
  unfold Actor.flushIfPending
  split
  · intro e he
    cases he
  · exact flushPending_plain a o

variable [DecidableEq β] [DecidableEq Op]

structure CommandEffect (yrs : Yrs β Op) (document : DocumentKey) (a : Actor β Op) (c : RoomCommand β)
    (r : Reaction β Op) : Prop where
  sound : r.1.Sound yrs document
  doc : a.room.doc ⊆ r.1.room.doc
  stored : Collaboration.stored yrs document a.database ⊆ Collaboration.stored yrs document r.1.database
  applied : ∀ source actor clientSequence bytes, c = .apply source actor clientSequence bytes →
    yrs.ops bytes ⊆ ↑r.1.room.doc
  plain : (∀ e ∈ r.2, e.plain = true) ∨
    c = .flush ∧ ∃ effects result, r.2 = effects ++ [.flushed result] ∧ (∀ e ∈ effects, e.plain = true) ∧
      ∀ sequence, result = .ok sequence → ↑a.room.doc ⊆ Collaboration.stored yrs document r.1.database

omit [DecidableEq β] in
theorem Actor.Sound.flush_effect (h : a.Sound yrs document) (o : Outcomes) :
    Collaboration.stored yrs document a.database ⊆
        Collaboration.stored yrs document (a.flush document o).1.database ∧
      ∃ effects result, (a.flush document o).2 = effects ++ [.flushed result] ∧
        (∀ e ∈ effects, e.plain = true) ∧ ∀ sequence, result = .ok sequence →
          ↑a.room.doc ⊆ Collaboration.stored yrs document (a.flush document o).1.database := by
  rw [Actor.flush]
  split
  · next hempty =>
    refine ⟨subset_rfl,[],_,rfl,by simp,fun _ _ => h.stored_of_empty (List.isEmpty_iff.mp hempty)⟩
  · obtain ⟨hgrows,hcleared⟩ := h.stored_flushPending o
    refine ⟨hgrows,_,_,rfl,flushPending_plain a o,?_⟩
    intro sequence hok
    have hdoc := flushPending_doc document a o
    rw [← hdoc]
    exact (h.flushPending o).1.stored_of_empty (hcleared sequence hok)

theorem Actor.Sound.command_effect (h : a.Sound yrs document) (o : Outcomes) (c : RoomCommand β) :
    CommandEffect yrs document a c (a.command yrs document o c) := by
  have hsound := (h.command o c).1
  have hdoc : a.room.doc ⊆ (a.command yrs document o c).1.room.doc := by
    rcases command_spec yrs document a o c with ⟨_,_,update,_,_,_,_,hdoc,_⟩ | ⟨_,hdoc,_⟩
    · rw [hdoc]
      exact Finset.subset_union_left
    · rw [hdoc]
  cases c with
  | join writer =>
    have hjoined : Actor.Sound yrs document (a.join yrs writer).1 := ⟨h.stored,h.attached⟩
    refine ⟨hsound,hdoc,hjoined.stored_snapshotIfDue o,by simp,Or.inl ?_⟩
    intro e he
    rw [List.mem_singleton.mp he]
    rfl
  | flush =>
    obtain ⟨hgrows,effects,result,heffects,hplain,hstored⟩ := h.flush_effect o
    have hdue := (h.flush o).1.stored_snapshotIfDue o
    refine ⟨hsound,hdoc,hgrows.trans hdue,by simp,Or.inr ⟨rfl,effects,result,heffects,hplain,?_⟩⟩
    exact fun sequence hok => (hstored sequence hok).trans hdue
  | leave writer =>
    have hleft : Actor.Sound yrs document { a with room := a.room.leave writer } :=
      ⟨h.stored,h.attached⟩
    have hflushed : Faithful yrs document
        (if (a.room.leave writer).writers = 0 then
          Actor.flushIfPending document o { a with room := a.room.leave writer }
        else ({ a with room := a.room.leave writer },[])) ∧
        Collaboration.stored yrs document a.database ⊆ Collaboration.stored yrs document
          (if (a.room.leave writer).writers = 0 then
            Actor.flushIfPending document o { a with room := a.room.leave writer }
          else ({ a with room := a.room.leave writer },[])).1.database ∧
        ∀ e ∈ (if (a.room.leave writer).writers = 0 then
            Actor.flushIfPending document o { a with room := a.room.leave writer }
          else ({ a with room := a.room.leave writer },[])).2, e.plain = true := by
      split
      · exact ⟨hleft.flushIfPending o,hleft.stored_flushIfPending o,flushIfPending_plain _ o⟩
      · exact ⟨⟨hleft,by simp⟩,subset_rfl,by simp⟩
    obtain ⟨hfaithful,hgrows,hplain⟩ := hflushed
    have hempty := hfaithful.1.stored_snapshotIfEmpty o
    have hdue := (hfaithful.1.snapshotIfEmpty o).stored_snapshotIfDue o
    exact ⟨hsound,hdoc,hgrows.trans (hempty.trans hdue),by simp,Or.inl hplain⟩
  | apply source actor clientSequence bytes =>
    have happlied : ∀ source' actor' clientSequence' bytes',
        RoomCommand.apply source actor clientSequence bytes =
          .apply source' actor' clientSequence' bytes' →
        yrs.ops bytes' ⊆ ↑(a.command yrs document o
          (.apply source actor clientSequence bytes)).1.room.doc := by
      intro source' actor' clientSequence' bytes' heq
      cases heq
      rintro op ⟨update,hdec,hop⟩
      simp only [Actor.command]
      cases happly : applyUpdateIfChanged yrs a.room.doc bytes with
      | error e => simp [applyUpdateIfChanged,hdec,bind,Except.bind,pure,Except.pure] at happly
      | ok r =>
        obtain ⟨doc,changed⟩ := r
        obtain ⟨update',hdec',rfl,-⟩ := (applyUpdateIfChanged_ok yrs).mp happly
        rw [hdec] at hdec'
        cases hdec'
        cases changed with
        | false => exact Finset.mem_union_right _ hop
        | true =>
          simp only [Actor.due,snapshotIfDue_doc,(accepted_spec document _ o source bytes).1]
          exact Finset.mem_union_right _ hop
    refine ⟨hsound,hdoc,?_,happlied,Or.inl ?_⟩
    · simp only [Actor.command]
      cases happly : applyUpdateIfChanged yrs a.room.doc bytes with
      | error e => exact subset_rfl
      | ok r =>
        obtain ⟨doc,changed⟩ := r
        obtain ⟨update,hdec,rfl,-⟩ := (applyUpdateIfChanged_ok yrs).mp happly
        cases changed with
        | false => exact subset_rfl
        | true =>
          have haccept := h.accept hdec source actor clientSequence
          have hdue := (haccept.accepted o source bytes).1.stored_snapshotIfDue o
          refine Set.Subset.trans ?_ hdue
          simp only [Actor.accepted]
          split
          · exact (haccept.stored_flushPending o).1
          · exact subset_rfl
    · simp only [Actor.command]
      cases happly : applyUpdateIfChanged yrs a.room.doc bytes with
      | error e =>
        intro e' he
        rw [List.mem_singleton.mp he]
        rfl
      | ok r =>
        obtain ⟨doc,changed⟩ := r
        cases changed with
        | false =>
          intro e' he
          rw [List.mem_singleton.mp he]
          rfl
        | true =>
          intro e' he
          simp only [Actor.due,Actor.accepted] at he
          rcases List.mem_cons.mp he with rfl | he
          · rfl
          · split at he
            · exact flushPending_plain _ o e' he
            · cases he

end LatexCore.Collaboration
