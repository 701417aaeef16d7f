import LatexCore.Collaboration.Durable

/-! # What the repository calls do to a document

A call of another document, a rolled back call and a change of the files leave
the document undisturbed. A batch of the document adds its rows behind the log
and a snapshot becomes the latest one. Each effect is stated once, as a relation
between the databases before and after.
-/
namespace LatexCore.Collaboration
open Core Foundation
variable {β Op : Type} {yrs : Yrs β Op} {document : DocumentKey} {db db' : Database β}

/-- The rows of the document are the same. -/
structure Undisturbed (document : DocumentKey) (db db' : Database β) : Prop where
  drawn : db.nextId ≤ db'.nextId
  latest : db'.latestSnapshot document = db.latestSnapshot document
  snapshots : ∀ t, db'.snapshots.get? (document,t) = db.snapshots.get? (document,t)
  updates : ∀ r, r.document = document → (r ∈ db'.updates ↔ r ∈ db.updates)

namespace Undisturbed

theorem logged (h : Undisturbed document db db') (through : ℕ) :
    logged yrs document db' through = logged yrs document db through := by
  ext op
  constructor
  · rintro ⟨r,hr,hd,hid,hop⟩
    exact ⟨r,(h.updates r hd).mp hr,hd,hid,hop⟩
  · rintro ⟨r,hr,hd,hid,hop⟩
    exact ⟨r,(h.updates r hd).mpr hr,hd,hid,hop⟩

theorem durable (h : Undisturbed document db db') (through : ℕ) :
    durable yrs document db' through = durable yrs document db through := by
  simp only [Collaboration.durable,h.logged,inSnapshot,h.latest]

theorem stored (h : Undisturbed document db db') (hs : Stored yrs document db) :
    Stored yrs document db' where
  positive := hs.positive.trans_le h.drawn
  drawn r hr hd := by
    have hold := hs.drawn r ((h.updates r hd).mp hr) hd
    exact ⟨hold.1,hold.2.trans_le h.drawn⟩
  readable r hr hd := hs.readable r ((h.updates r hd).mp hr) hd
  snapshots t c hc := by
    have hold := hs.snapshots t c (h.snapshots t ▸ hc)
    exact ⟨hold.bigint,hold.drawn.trans_le h.drawn,hold.readable,(h.logged t).subset.trans hold.covers⟩

theorem refl (db : Database β) (n : ℕ) :
    Undisturbed document db { db with nextId := db.nextId + n } :=
  ⟨Nat.le_add_right _ _,rfl,fun _ => rfl,fun _ _ => Iff.rfl⟩

end Undisturbed

/-! ## Batches -/

namespace Appended
variable {inputs : List (CollaborationUpdateInput β)} {last : ℕ} {rows : List (UpdateRow β)}

theorem elsewhere {other : DocumentKey} (h : Appended other inputs db db' last rows)
    (hne : other ≠ document) : Undisturbed document db db' := by
  rw [h.database]
  refine ⟨Nat.le_add_right _ _,rfl,fun _ => rfl,?_⟩
  intro r hd
  have hnot : r ∉ rows := fun hr => hne ((h.document r hr).symm.trans hd)
  simp [hnot]

theorem latest (h : Appended document inputs db db' last rows) :
    db'.latestSnapshot document = db.latestSnapshot document := by
  rw [h.database]
  rfl

theorem below (h : Appended document inputs db db' last rows) (hne : inputs ≠ []) :
    db.nextId ≤ last ∧ last < db'.nextId := by
  have hlast := h.last hne
  have hpos := List.length_pos_of_ne_nil hne
  rw [h.database]
  simp only
  omega

theorem stored (h : Appended document inputs db db' last rows) (hs : Stored yrs document db)
    (hne : inputs ≠ []) (hread : ∀ i ∈ inputs, ∃ update, yrs.decodeV1 i.updateBytes = .ok update) :
    Stored yrs document db' := by
  have hbelow := h.below hne
  have hmem : ∀ r, r ∈ db'.updates ↔ r ∈ db.updates ∨ r ∈ rows := by simp [h.database]
  refine ⟨by omega,?_,?_,?_⟩
  · intro r hr hd
    rcases (hmem r).mp hr with hr | hr
    · have hold := hs.drawn r hr hd
      omega
    · have hnew := h.fresh r hr
      have hpos := hs.positive
      omega
  · intro r hr hd
    rcases (hmem r).mp hr with hr | hr
    · exact hs.readable r hr hd
    · have hbytes : r.updateBytes ∈ inputs.map CollaborationUpdateInput.updateBytes :=
        h.bytes ▸ List.mem_map_of_mem hr
      obtain ⟨i,hi,heq⟩ := List.mem_map.mp hbytes
      exact heq ▸ hread i hi
  · intro t c hc
    have hold := hs.snapshots t c (by simpa [h.database] using hc)
    refine ⟨hold.bigint,by have := hold.drawn; omega,hold.readable,?_⟩
    rintro op ⟨r,hr,hd,hid,hop⟩
    rcases (hmem r).mp hr with hr | hr
    · exact hold.covers ⟨r,hr,hd,hid,hop⟩
    · have hnew := (h.fresh r hr).1
      have hold' := hold.drawn
      omega

/-- The rows of a batch lie behind every sequence that was drawn before. -/
theorem durable_old (h : Appended document inputs db db' last rows) {through : ℕ}
    (ht : through < db.nextId) : durable yrs document db' through = durable yrs document db through := by
  have hlogged : logged yrs document db' through = logged yrs document db through := by
    ext op
    constructor
    · rintro ⟨r,hr,hd,hid,hop⟩
      rw [h.database] at hr
      rcases List.mem_append.mp hr with hr | hr
      · exact ⟨r,hr,hd,hid,hop⟩
      · have hnew := (h.fresh r hr).1
        omega
    · rintro ⟨r,hr,hd,hid,hop⟩
      refine ⟨r,?_,hd,hid,hop⟩
      rw [h.database]
      exact List.mem_append_left _ hr
  simp only [durable,hlogged,inSnapshot,h.latest]

theorem durable_new (h : Appended document inputs db db' last rows) (hs : Stored yrs document db)
    (hne : inputs ≠ []) {through : ℕ} (ht : last ≤ through) :
    durable yrs document db' through =
      Collaboration.stored yrs document db ∪ { op | ∃ i ∈ inputs, op ∈ yrs.ops i.updateBytes } := by
  have hbelow := h.below hne
  have hin : inSnapshot yrs document db' = inSnapshot yrs document db := by
    simp only [inSnapshot,h.latest]
  have hbytes : ∀ b, b ∈ rows.map UpdateRow.updateBytes ↔
      b ∈ inputs.map CollaborationUpdateInput.updateBytes := by simp only [h.bytes,implies_true]
  rw [Collaboration.stored,durable,durable,hin,Set.union_assoc]
  congr 1
  ext op
  constructor
  · rintro ⟨r,hr,hd,hid,hop⟩
    rw [h.database] at hr
    rcases List.mem_append.mp hr with hr | hr
    · exact Or.inl ⟨r,hr,hd,(hs.drawn r hr hd).2.le,hop⟩
    · obtain ⟨i,hi,heq⟩ := List.mem_map.mp ((hbytes _).mp (List.mem_map_of_mem hr))
      exact Or.inr ⟨i,hi,heq ▸ hop⟩
  · rintro (⟨r,hr,hd,hid,hop⟩ | ⟨i,hi,hop⟩)
    · refine ⟨r,?_,hd,by omega,hop⟩
      rw [h.database]
      exact List.mem_append_left _ hr
    · obtain ⟨r,hr,heq⟩ := List.mem_map.mp ((hbytes _).mpr (List.mem_map_of_mem hi))
      refine ⟨r,?_,h.document r hr,(h.fresh r hr).2.trans ht,heq ▸ hop⟩
      rw [h.database]
      exact List.mem_append_right _ hr

end Appended

theorem perform_batch (document : DocumentKey) (inputs : List (CollaborationUpdateInput β)) (o : Outcome)
    (hpos : 0 < db.nextId) :
    (∃ e n, perform o (persistCollaborationBatch document inputs) db =
        ({ db with nextId := db.nextId + n },.error e)) ∨
      ∃ result db' last rows, perform o (persistCollaborationBatch document inputs) db = (db',result) ∧
        (∀ sequence, result = .ok sequence → sequence = last) ∧ inputs ≠ [] ∧
        Appended document inputs db db' last rows := by
  cases hcall : persistCollaborationBatch document inputs db with
  | error e =>
    refine Or.inl ?_
    cases o with
    | commits => exact ⟨e,0,by simp [perform,commit_error hcall,hcall,Except.map]⟩
    | fails drawn => exact ⟨_,drawn,rfl⟩
    | commitsUnseen => exact ⟨.database "connection",0,by simp [perform,commit_error hcall]⟩
  | ok r =>
    obtain ⟨db',last⟩ := r
    obtain ⟨hne,rows,ha⟩ := persist_appended hpos hcall
    cases o with
    | commits =>
      refine Or.inr ⟨.ok last,db',last,rows,by simp [perform,commit_ok hcall,hcall,Except.map],?_,hne,ha⟩
      intro sequence hseq
      exact (Except.ok.inj hseq).symm
    | fails drawn => exact Or.inl ⟨_,drawn,rfl⟩
    | commitsUnseen =>
      exact Or.inr ⟨.error (.database "connection"),db',last,rows,by simp [perform,commit_ok hcall],
        by simp,hne,ha⟩

/-! ## Snapshots -/

theorem perform_snapshot (document : DocumentKey) (o : Outcome) (through : ℕ) (compressed : β)
    (db : Database β) :
    (∃ n, (perform o (saveCollaborationSnapshot document through compressed) db).1 =
        { db with nextId := db.nextId + n }) ∧
        (∀ u, (perform o (saveCollaborationSnapshot document through compressed) db).2 = .ok u →
          db.snapshots.insert? (document,through) compressed = none) ∨
      through ≤ i64Max ∧ ∃ t, db.snapshots.insert? (document,through) compressed = some t ∧
        (perform o (saveCollaborationSnapshot document through compressed) db).1 =
          { db with snapshots := t } := by
  cases hcall : saveCollaborationSnapshot document through compressed db with
  | error e =>
    refine Or.inl ?_
    cases o with
    | commits => exact ⟨⟨0,by simp [perform,commit_error hcall]⟩,by simp [perform,hcall,Except.map]⟩
    | fails drawn => exact ⟨⟨drawn,rfl⟩,by simp [perform]⟩
    | commitsUnseen => exact ⟨⟨0,by simp [perform,commit_error hcall]⟩,by simp [perform]⟩
  | ok r =>
    obtain ⟨db',u⟩ := r
    have hcommit := commit_ok hcall
    simp only [saveCollaborationSnapshot,bind_ok,toI64_ok,pure_ok,Prod.mk.injEq] at hcall
    obtain ⟨_,_,_,hbound,rfl,_⟩ := hcall
    cases hins : db.snapshots.insert? (document,through) compressed with
    | none =>
      rw [hins] at hcommit
      refine Or.inl ⟨?_,fun _ _ => rfl⟩
      cases o with
      | fails drawn => exact ⟨drawn,rfl⟩
      | commits => exact ⟨0,by simp [perform,hcommit]⟩
      | commitsUnseen => exact ⟨0,by simp [perform,hcommit]⟩
    | some t =>
      rw [hins] at hcommit
      cases o with
      | fails drawn => exact Or.inl ⟨⟨drawn,rfl⟩,by simp [perform]⟩
      | commits => exact Or.inr ⟨hbound,t,rfl,by simp [perform,hcommit]⟩
      | commitsUnseen => exact Or.inr ⟨hbound,t,rfl,by simp [perform,hcommit]⟩

theorem latestSnapshot_insert {through : ℕ} {compressed : β} {t : Table (DocumentKey × ℕ) β}
    (h : db.snapshots.insert? (document,through) compressed = some t)
    (hmax : ∀ s c, db.snapshots.get? (document,s) = some c → s ≤ through) :
    ({ db with snapshots := t } : Database β).latestSnapshot document = some (through,compressed) := by
  simp only [Database.latestSnapshot,Table.best_insert? h,beq_self_eq_true,if_true]
  cases hb : db.snapshots.best (fun k _ => k.1 == document) (fun a b => b.1.2 < a.1.2) with
  | none => rfl
  | some r =>
    obtain ⟨⟨d,s⟩,c⟩ := r
    obtain ⟨hget,hd⟩ := Table.best_mem hb
    simp only [beq_iff_eq] at hd
    subst hd
    have hne : s ≠ through := by
      rintro rfl
      rw [(Table.insert?_eq_some h).1] at hget
      cases hget
    have hlt : s < through := lt_of_le_of_ne (hmax s c hget) hne
    simp [hlt]

theorem undisturbed_snapshot {other : DocumentKey} (hne : other ≠ document) {through : ℕ}
    {compressed : β} {t : Table (DocumentKey × ℕ) β}
    (h : db.snapshots.insert? (other,through) compressed = some t) :
    Undisturbed document db { db with snapshots := t } := by
  refine ⟨le_refl _,?_,?_,fun _ _ => Iff.rfl⟩
  · simp [Database.latestSnapshot,Table.best_insert? h,hne]
  · intro s
    rw [Table.get?_insert? h,if_neg]
    rintro heq
    exact hne (congrArg Prod.fst heq).symm

theorem undisturbed_perform_batch {other : DocumentKey} (hne : other ≠ document)
    (inputs : List (CollaborationUpdateInput β)) (o : Outcome) (hpos : 0 < db.nextId) :
    Undisturbed document db (perform o (persistCollaborationBatch other inputs) db).1 := by
  rcases perform_batch other inputs o hpos with ⟨e,n,hcall⟩ | ⟨result,db,last,rows,hcall,_,_,ha⟩
  · rw [hcall]
    exact .refl _ n
  · rw [hcall]
    exact ha.elsewhere hne

theorem undisturbed_perform_snapshot {other : DocumentKey} (hne : other ≠ document) (o : Outcome)
    (through : ℕ) (bytes : β) :
    Undisturbed document db (perform o (saveCollaborationSnapshot other through bytes) db).1 := by
  rcases perform_snapshot other o through bytes db with ⟨⟨n,hcall⟩,_⟩ | ⟨_,t,hins,hcall⟩
  · rw [hcall]
    exact .refl _ n
  · rw [hcall]
    exact undisturbed_snapshot hne hins

end LatexCore.Collaboration
