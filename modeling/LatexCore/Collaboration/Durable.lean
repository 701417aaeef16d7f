import LatexCore.Collaboration.Room
import LatexCore.Foundation.Buffers

/-! # What the database holds of a document

The operations of the latest snapshot and of the log of a document, how the
repository calls change them, and the recovery theorem: loading the document
from a well-formed database gives exactly the operations that it holds.
-/
namespace LatexCore.Collaboration
open Core Foundation
variable {β Op : Type} (yrs : Yrs β Op) (document : DocumentKey)

def Yrs.ops (bytes : β) : Set Op := { op | ∃ update, yrs.decodeV1 bytes = .ok update ∧ op ∈ update }

def Yrs.stateOps (compressed : β) : Set Op :=
  { op | ∃ bytes, yrs.decodeAll compressed = .ok bytes ∧ op ∈ yrs.ops bytes }

def inSnapshot (db : Database β) : Set Op :=
  { op | ∃ s, db.latestSnapshot document = some s ∧ op ∈ yrs.stateOps s.2 }

/-- The operations of the log rows up to a sequence. -/
def logged (db : Database β) (through : ℕ) : Set Op :=
  { op | ∃ r ∈ db.updates, r.document = document ∧ r.id ≤ through ∧ op ∈ yrs.ops r.updateBytes }

/-- The durable snapshot and the persisted updates up to a sequence. -/
def durable (db : Database β) (through : ℕ) : Set Op :=
  inSnapshot yrs document db ∪ logged yrs document db through

/-- All that a load reads. -/
def stored (db : Database β) : Set Op := durable yrs document db db.nextId

structure SnapshotRow (db : Database β) (through : ℕ) (compressed : β) : Prop where
  bigint : through ≤ i64Max
  drawn : through < db.nextId
  readable : ∃ bytes update, yrs.decodeAll compressed = .ok bytes ∧ yrs.decodeV1 bytes = .ok update
  covers : logged yrs document db through ⊆ yrs.stateOps compressed

structure Stored (db : Database β) : Prop where
  positive : 0 < db.nextId
  drawn : ∀ r ∈ db.updates, r.document = document → 0 < r.id ∧ r.id < db.nextId
  readable : ∀ r ∈ db.updates, r.document = document → ∃ update, yrs.decodeV1 r.updateBytes = .ok update
  snapshots : ∀ through compressed, db.snapshots.get? (document,through) = some compressed →
    SnapshotRow yrs document db through compressed

variable {yrs document}

theorem mem_ops {bytes : β} {update : Finset Op} (h : yrs.decodeV1 bytes = .ok update) :
    yrs.ops bytes = ↑update := by
  ext op
  simp [Yrs.ops,h]

theorem stateOps_eq {compressed bytes : β} {update : Finset Op}
    (h : yrs.decodeAll compressed = .ok bytes) (hu : yrs.decodeV1 bytes = .ok update) :
    yrs.stateOps compressed = ↑update := by
  ext op
  simp [Yrs.stateOps,h,mem_ops hu]

theorem stateOps_encode (doc : Finset Op) :
    yrs.stateOps (yrs.encodeAll (yrs.encodeStateAsUpdateV1 doc)) = ↑doc :=
  stateOps_eq (yrs.decompress_compress _) (yrs.decode_encode doc)

theorem logged_mono {db : Database β} {a b : ℕ} (h : a ≤ b) :
    logged yrs document db a ⊆ logged yrs document db b := by
  rintro op ⟨r,hr,hd,hid,hop⟩
  exact ⟨r,hr,hd,hid.trans h,hop⟩

theorem durable_mono {db : Database β} {a b : ℕ} (h : a ≤ b) :
    durable yrs document db a ⊆ durable yrs document db b :=
  Set.union_subset_union_right _ (logged_mono h)

/-- The log is read whole once the sequence has passed its last identifier. -/
theorem logged_eq {db : Database β} {a b : ℕ}
    (ha : ∀ r ∈ db.updates, r.document = document → r.id ≤ a) (h : a ≤ b) :
    logged yrs document db a = logged yrs document db b := by
  apply Set.Subset.antisymm (logged_mono h)
  rintro op ⟨r,hr,hd,_,hop⟩
  exact ⟨r,hr,hd,ha r hr hd,hop⟩

theorem Stored.empty : Stored yrs document (.empty : Database β) where
  positive := by simp [Database.empty]
  drawn := by simp [Database.empty]
  readable := by simp [Database.empty]
  snapshots := by simp [Database.empty]

theorem Stored.latest {db : Database β} (h : Stored yrs document db) {s : ℕ × β}
    (hs : db.latestSnapshot document = some s) : SnapshotRow yrs document db s.1 s.2 :=
  h.snapshots _ _ (latestSnapshot_some hs)

/-! ## Reading the document back -/

theorem collaborationRecovery_ok {db : Database β} (hepoch : document.documentEpoch ≤ i64Max)
    (hsnap : ∀ s, db.latestSnapshot document = some s → s.1 ≤ i64Max) :
    collaborationRecovery db document = .ok ⟨document.documentEpoch,db.latestSnapshot document,
      db.updatesAfter document (((db.latestSnapshot document).map Prod.fst).getD 0)⟩ := by
  have hafter : ((db.latestSnapshot document).map Prod.fst).getD 0 ≤ i64Max := by
    cases h : db.latestSnapshot document with
    | none => simp [i64Max]
    | some s => simpa using hsnap s h
  have h₁ : toI64 document.documentEpoch "collaboration epoch" = .ok () := toI64_ok.mpr hepoch
  have h₂ : toI64 (((db.latestSnapshot document).map Prod.fst).getD 0) "collaboration sequence" =
      .ok () := toI64_ok.mpr hafter
  simp only [collaborationRecovery,h₁,h₂]
  rfl

theorem Stored.contents {db : Database β} (h : Stored yrs document db) {through : ℕ} {base : Set Op}
    (hbase : inSnapshot yrs document db ⊆ base) (hcov : logged yrs document db through ⊆ base)
    (hsub : base ⊆ stored yrs document db) :
    base ∪ { op | ∃ p ∈ db.updatesAfter document through, op ∈ yrs.ops p.2 } =
      stored yrs document db := by
  apply Set.Subset.antisymm
  · rintro op (hop | ⟨p,hp,hop⟩)
    · exact hsub hop
    · obtain ⟨r,hr,hd,_,rfl⟩ := mem_updatesAfter.mp hp
      exact Or.inr ⟨r,hr,hd,(h.drawn r hr hd).2.le,hop⟩
  · rintro op (hop | ⟨r,hr,hd,_,hop⟩)
    · exact Or.inl (hbase hop)
    · by_cases hle : r.id ≤ through
      · exact Or.inl (hcov ⟨r,hr,hd,hle,hop⟩)
      · exact Or.inr ⟨(r.id,r.updateBytes),mem_updatesAfter.mpr ⟨r,hr,hd,by omega,rfl⟩,hop⟩

theorem latestSnapshot_max {db : Database β} {s : ℕ × β} (h : db.latestSnapshot document = some s)
    {t : ℕ} {c : β} (hc : db.snapshots.get? (document,t) = some c) : t ≤ s.1 := by
  simp only [Database.latestSnapshot,Option.map_eq_some_iff] at h
  obtain ⟨r,hbest,rfl⟩ := h
  exact Table.best_max (fun a : (DocumentKey × ℕ) × β => a.1.2) hbest hc (by simp)

variable [DecidableEq Op]

theorem replayUpdates_ok (rows : List (ℕ × β)) (doc : Finset Op) (sequence : ℕ)
    (hread : ∀ p ∈ rows, ∃ update, yrs.decodeV1 p.2 = .ok update)
    (hsorted : rows.Pairwise (fun a b => a.1 ≤ b.1)) (hle : ∀ p ∈ rows, sequence ≤ p.1) :
    ∃ doc' last, replayUpdates yrs rows (doc,sequence) = .ok (doc',last) ∧
      (↑doc' : Set Op) = ↑doc ∪ { op | ∃ p ∈ rows, op ∈ yrs.ops p.2 } ∧
      sequence ≤ last ∧ (∀ p ∈ rows, p.1 ≤ last) ∧ (last = sequence ∨ ∃ p ∈ rows, p.1 = last) := by
  induction rows generalizing doc sequence with
  | nil => exact ⟨doc,sequence,rfl,by simp,le_refl _,by simp,Or.inl rfl⟩
  | cons p rest ih =>
    obtain ⟨update,hu⟩ := hread p (List.mem_cons_self ..)
    rw [List.pairwise_cons] at hsorted
    obtain ⟨doc',last,hrun,hdoc,hseq,hbound,hlast⟩ := ih (doc ∪ update) p.1
      (fun q hq => hread q (List.mem_cons_of_mem _ hq)) hsorted.2 hsorted.1
    refine ⟨doc',last,?_,?_,(hle p (List.mem_cons_self ..)).trans hseq,
      List.forall_mem_cons.mpr ⟨hseq,hbound⟩,?_⟩
    · have hstep : applyUpdate yrs doc p.2 = .ok (doc ∪ update) :=
        (applyUpdate_ok yrs).mpr ⟨update,hu,rfl⟩
      simpa [replayUpdates,hstep,bind,Except.bind] using hrun
    · rw [hdoc,Finset.coe_union,← mem_ops hu,Set.union_assoc]
      congr 1
      ext op
      simp
    · rcases hlast with rfl | ⟨q,hq,rfl⟩
      · exact Or.inr ⟨p,List.mem_cons_self ..,rfl⟩
      · exact Or.inr ⟨q,List.mem_cons_of_mem _ hq,rfl⟩

structure Loaded (yrs : Yrs β Op) (document : DocumentKey) (db : Database β) (doc : Finset Op)
    (sequence : ℕ) : Prop where
  contents : (↑doc : Set Op) = stored yrs document db
  drawn : sequence < db.nextId
  through : ∀ t c, db.snapshots.get? (document,t) = some c → t ≤ sequence
  log : ∀ r ∈ db.updates, r.document = document → r.id ≤ sequence

theorem Stored.replay {db : Database β} (h : Stored yrs document db) {through : ℕ} {base : Finset Op}
    (hdrawn : through < db.nextId)
    (hthrough : ∀ t c, db.snapshots.get? (document,t) = some c → t ≤ through)
    (hbase : inSnapshot yrs document db ⊆ ↑base)
    (hcov : logged yrs document db through ⊆ ↑base)
    (hsub : ↑base ⊆ stored yrs document db) :
    ∃ doc last, replayUpdates yrs (db.updatesAfter document through) (base,through) = .ok (doc,last) ∧
      Loaded yrs document db doc last := by
  have hrow : ∀ p ∈ db.updatesAfter document through, ∃ r ∈ db.updates, r.document = document ∧
      through < r.id ∧ (r.id,r.updateBytes) = p := fun p hp => mem_updatesAfter.mp hp
  obtain ⟨doc,last,hrun,hdoc,hseq,hbound,hlast⟩ := replayUpdates_ok
    (db.updatesAfter document through) base through
    (fun p hp => by obtain ⟨r,hr,hd,_,rfl⟩ := hrow p hp; exact h.readable r hr hd)
    (updatesAfter_sorted db document through)
    (fun p hp => by obtain ⟨r,_,_,hlt,rfl⟩ := hrow p hp; exact hlt.le)
  refine ⟨doc,last,hrun,?_,?_,?_,?_⟩
  · rw [hdoc]
    exact h.contents hbase hcov hsub
  · rcases hlast with rfl | ⟨p,hp,rfl⟩
    · exact hdrawn
    · obtain ⟨r,hr,hd,_,rfl⟩ := hrow p hp
      exact (h.drawn r hr hd).2
  · intro t c hc
    exact (hthrough t c hc).trans hseq
  · intro r hr hd
    by_cases hle : r.id ≤ through
    · exact hle.trans hseq
    · exact hbound (r.id,r.updateBytes) (mem_updatesAfter.mpr ⟨r,hr,hd,by omega,rfl⟩)

/-- A document with a snapshot is read back whole, whatever text its file has. -/
theorem Stored.load {db : Database β} (h : Stored yrs document db)
    (hepoch : document.documentEpoch ≤ i64Max) (hbased : (db.latestSnapshot document).isSome)
    (source : Except String (Finset Op)) (save : Outcome) :
    ∃ doc sequence, loadDocument yrs document source save db = (db,.ok (doc,sequence)) ∧
      Loaded yrs document db doc sequence := by
  obtain ⟨s,hs⟩ := Option.isSome_iff_exists.mp hbased
  have hrow := h.latest hs
  obtain ⟨bytes,base,hbytes,hdec⟩ := hrow.readable
  have hops : yrs.stateOps s.2 = ↑base := stateOps_eq hbytes hdec
  have hin : inSnapshot yrs document db = ↑base := by
    ext op
    simp [inSnapshot,hs,hops]
  obtain ⟨doc,last,hrun,hloaded⟩ := h.replay hrow.drawn
    (fun t c hc => latestSnapshot_max hs hc) hin.subset (hops ▸ hrow.covers)
    (hin ▸ Set.subset_union_left)
  refine ⟨doc,last,?_,hloaded⟩
  have hrec : collaborationRecovery db document = _ :=
    collaborationRecovery_ok hepoch (fun s' hs' => (h.latest hs').bigint)
  have hbase : applyUpdate yrs ∅ bytes = .ok base :=
    (applyUpdate_ok yrs).mpr ⟨base,hdec,Finset.empty_union _⟩
  rw [loadDocument,hrec]
  simp only [Except.mapError,hs,Option.map_some,Option.getD_some,hbytes,bind,Except.bind,hbase,hrun]

end LatexCore.Collaboration
