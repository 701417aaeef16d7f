import LatexCore.Collaboration.Soundness
import LatexCore.Foundation.Runs

/-! # Durability acknowledgements

A run of one document from an empty database: actors are loaded and lost, their
commands, ticks and calls end in any way, and the rest of the system writes
beside them. Every acknowledgement of the run is honest exactly when no update
that the document already holds repeats an operation that only the pending
batch holds.
-/
namespace LatexCore.Collaboration
open Core Foundation
variable {β Op : Type} (yrs : Yrs β Op) (document : DocumentKey)

structure World.Sound (w : World β Op) : Prop where
  stored : Stored yrs document w.database
  attached : ∀ room, w.room = some room →
    Attached yrs document w.database room.doc room.durableSequence room.pending

/-- The update changes nothing, and one of its operations is in the pending batch only. -/
def Actor.Repeats (a : Actor β Op) : RoomCommand β → Prop
  | .apply _ _ _ bytes => ∃ update, yrs.decodeV1 bytes = .ok update ∧ update ⊆ a.room.doc ∧
      ∃ op ∈ update, op ∈ buffered yrs a.room.pending ∧
        op ∉ durable yrs document a.database a.room.durableSequence
  | _ => False

variable {document}

/-- The command repeats what only the pending batch of the loaded actor holds. -/
def World.Repeats (w : World β Op) : Label β Op document → Prop
  | .command c _ => ∃ room, w.room = some room ∧ Actor.Repeats yrs document ⟨w.database,room⟩ c
  | _ => False

variable {yrs} {w : World β Op}

theorem World.Sound.start : (World.start : World β Op).Sound yrs document :=
  ⟨.empty,by simp [World.start]⟩

theorem World.Sound.actor {room : Room β Op} (h : w.Sound yrs document) (hr : w.room = some room) :
    Actor.Sound yrs document ⟨w.database,room⟩ :=
  ⟨h.stored,h.attached room hr⟩

theorem World.Sound.undisturbed {db : Database β} (h : w.Sound yrs document)
    (hu : Undisturbed document w.database db) : World.Sound yrs document { w with database := db } := by
  refine ⟨hu.stored h.stored,?_⟩
  intro room hr
  exact ((h.actor hr).undisturbed hu).attached

/-! ## Loading an actor -/

/-- The snapshot of the first load is the only one, and no log row lies before it. -/
theorem Stored.bootstrap {db : Database β} (h : Stored yrs document db) {text : Finset Op}
    {t : Table (DocumentKey × ℕ) β} (hnone : db.latestSnapshot document = none)
    (hins : db.snapshots.insert? (document,0) (yrs.encodeAll (yrs.encodeStateAsUpdateV1 text)) =
      some t) :
    Stored yrs document { db with snapshots := t } ∧
      ({ db with snapshots := t } : Database β).latestSnapshot document =
        some (0,yrs.encodeAll (yrs.encodeStateAsUpdateV1 text)) ∧
      ∀ s c, t.get? (document,s) = some c → s = 0 := by
  have hno : ∀ s c, db.snapshots.get? (document,s) ≠ some c := by
    intro s c hc
    have hsome := latestSnapshot_isSome hc
    simp [hnone] at hsome
  have hget : ∀ s c, t.get? (document,s) = some c →
      s = 0 ∧ c = yrs.encodeAll (yrs.encodeStateAsUpdateV1 text) := by
    intro s c hc
    rw [Table.get?_insert? hins] at hc
    split at hc
    · next heq =>
      cases heq
      cases hc
      exact ⟨rfl,rfl⟩
    · exact absurd hc (hno s c)
  refine ⟨⟨h.positive,h.drawn,h.readable,?_⟩,?_,fun s c hc => (hget s c hc).1⟩
  · intro s c hc
    obtain ⟨rfl,rfl⟩ := hget s c hc
    refine ⟨Nat.zero_le _,h.positive,⟨_,_,yrs.decompress_compress _,yrs.decode_encode _⟩,?_⟩
    rintro op ⟨r,hr,hd,hid,_⟩
    have hpos := (h.drawn r hr hd).1
    omega
  · exact latestSnapshot_insert hins (fun s c hc => absurd hc (hno s c))

section Load
variable [DecidableEq Op]

theorem Stored.loaded {db : Database β} (h : Stored yrs document db)
    (source : Except String (Finset Op)) (save : Outcome) :
    Stored yrs document (loadDocument yrs document source save db).1 ∧
      ∀ s, (loadDocument yrs document source save db).2 = .ok s →
        Attached yrs document (loadDocument yrs document source save db).1 s.1 s.2 [] := by
  by_cases hepoch : document.documentEpoch ≤ i64Max
  · cases hs : db.latestSnapshot document with
    | some s =>
      have hbased : (db.latestSnapshot document).isSome := by rw [hs]; rfl
      obtain ⟨doc,sequence,hload,hloaded⟩ := h.load hepoch hbased source save
      rw [hload]
      refine ⟨h,?_⟩
      intro s hs
      cases hs
      exact hloaded.attached hepoch hbased
    | none =>
      have hrec : collaborationRecovery db document = _ :=
        collaborationRecovery_ok hepoch (fun s' hs' => (h.latest hs').bigint)
      simp only [loadDocument,hrec,Except.mapError,hs,Option.map_none,Option.getD_none]
      cases source with
      | error e => exact ⟨h,by simp⟩
      | ok text =>
        rcases perform_snapshot document save 0
          (yrs.encodeAll (yrs.encodeStateAsUpdateV1 text)) db with
          ⟨⟨n,hdb⟩,hno⟩ | ⟨_,t,hins,hdb⟩
        · simp only [hdb]
          refine ⟨(Undisturbed.refl db n).stored h,?_⟩
          intro s hrun
          simp only [bind_ok] at hrun
          obtain ⟨u,hu,_⟩ := hrun
          have hfresh : db.snapshots.get? (document,0) = none := by
            cases hc : db.snapshots.get? (document,0) with
            | none => rfl
            | some c => simpa [hs] using latestSnapshot_isSome hc
          obtain ⟨t,ht⟩ := Table.insert?_isSome hfresh (yrs.encodeAll (yrs.encodeStateAsUpdateV1 text))
          rw [hno u (mapError_ok.mp hu)] at ht
          cases ht
        · obtain ⟨hstored,hlatest,hzero⟩ := h.bootstrap hs hins
          simp only [hdb]
          refine ⟨hstored,?_⟩
          intro s hrun
          simp only [bind_ok] at hrun
          obtain ⟨_,_,hrun⟩ := hrun
          have hin : inSnapshot yrs document { db with snapshots := t } = ↑text := by
            ext op
            simp only [inSnapshot,hlatest,Set.mem_ofPred_eq,Option.some.injEq,exists_eq_left',
              stateOps_encode]
          obtain ⟨doc,last,hreplay,hloaded⟩ := hstored.replay hstored.positive
            (fun s c hc => (hzero s c hc).le) hin.subset
            ((stateOps_encode text).subset.trans' (hstored.latest hlatest).covers)
            (hin ▸ Set.subset_union_left)
          have heq : s = (doc,last) := Except.ok.inj (hrun.symm.trans hreplay)
          rw [heq]
          exact hloaded.attached hepoch (by rw [hlatest]; rfl)
  · have hfail : toI64 document.documentEpoch "collaboration epoch" = .error
        (.integrity "collaboration epoch exceeds PostgreSQL BIGINT") := by
      simp [toI64,ensure,hepoch]
    have hrec : collaborationRecovery db document = .error
        (.integrity "collaboration epoch exceeds PostgreSQL BIGINT") := by
      simp only [collaborationRecovery,hfail]
      rfl
    simp only [loadDocument,hrec,Except.mapError]
    exact ⟨h,by simp⟩

theorem World.Sound.load (h : w.Sound yrs document) (source : Except String (Finset Op))
    (save : Outcome) : (w.load yrs document source save).Sound yrs document := by
  rw [World.load]
  cases hr : w.room with
  | some room => exact h
  | none =>
    have hloaded := h.stored.loaded source save
    refine ⟨hloaded.1,?_⟩
    intro room hroom
    simp only [Option.map_eq_some_iff] at hroom
    obtain ⟨s,hs,rfl⟩ := hroom
    apply hloaded.2 s
    cases hrun : (loadDocument yrs document source save w.database).2 with
    | error e => simp [hrun,Except.toOption] at hs
    | ok s' =>
      simp only [hrun,Except.toOption,Option.some.injEq] at hs
      rw [hs]

end Load

/-! ## Steps -/

variable [DecidableEq Op]

theorem Actor.Sound.repeat_honest {a : Actor β Op} (h : a.Sound yrs document) {update : Finset Op}
    {bytes : β} (hdec : yrs.decodeV1 bytes = .ok update) (hsub : update ⊆ a.room.doc)
    (source : Uuid) (clientSequence : ℕ) :
    (Effect.control source bytes (.durableAck clientSequence a.room.durableSequence)
        a.database).Honest yrs document ↔
      ∀ op ∈ update, op ∈ buffered yrs a.room.pending →
        op ∈ durable yrs document a.database a.room.durableSequence := by
  have hstable := h.attached.backed.stable_iff (Finset.coe_subset.mpr hsub)
  simp only [Effect.Honest,mem_ops hdec]
  constructor
  · rintro ⟨hcov,_⟩
    exact hstable.mp hcov
  · intro hcov
    have hdur := hstable.mpr hcov
    exact ⟨hdur,h.recovers (hdur.trans (durable_mono h.attached.drawn.le))⟩

variable [DecidableEq β]

theorem Actor.Sound.command {a : Actor β Op} (h : a.Sound yrs document) (o : Outcomes)
    (c : RoomCommand β) :
    (a.command yrs document o c).1.Sound yrs document ∧
      ((∀ e ∈ (a.command yrs document o c).2, e.Honest yrs document) ↔
        ¬a.Repeats yrs document c) := by
  have hplain : ∀ {r : Reaction β Op} {q : Prop}, Faithful yrs document r → ¬q →
      (Actor.due yrs document o r).1.Sound yrs document ∧
        ((∀ e ∈ (Actor.due yrs document o r).2, e.Honest yrs document) ↔ ¬q) := by
    intro r q hr hq
    have hdue := Actor.Sound.due hr o
    exact ⟨hdue.1,iff_of_true hdue.2 hq⟩
  cases c with
  | join writer =>
    refine hplain ⟨⟨h.stored,h.attached⟩,?_⟩ id
    simp [Actor.join,Effect.Honest]
  | flush => exact hplain (h.flush o) id
  | leave writer => exact hplain (h.leave o writer) id
  | apply source actor clientSequence bytes =>
    simp only [Actor.command,Actor.Repeats]
    cases hdec : yrs.decodeV1 bytes with
    | error e =>
      have happly : applyUpdateIfChanged yrs a.room.doc bytes = .error e := by
        simp [applyUpdateIfChanged,hdec,bind,Except.bind]
      rw [happly]
      exact ⟨h,by simp [Effect.Honest]⟩
    | ok update =>
      have happly : applyUpdateIfChanged yrs a.room.doc bytes =
          .ok (a.room.doc ∪ update,decide (¬update ⊆ a.room.doc)) :=
        (applyUpdateIfChanged_ok yrs).mpr ⟨update,hdec,rfl,rfl⟩
      rw [happly]
      by_cases hsub : update ⊆ a.room.doc
      · have hsame : a.room.doc ∪ update = a.room.doc := Finset.union_eq_left.mpr hsub
        simp only [hsub,not_true_eq_false,decide_false,hsame]
        refine ⟨h,?_⟩
        have hhonest := h.repeat_honest hdec hsub source clientSequence
        simp only [List.mem_singleton,forall_eq,hhonest,Except.ok.injEq,exists_eq_left',hsub,
          true_and,not_exists,not_and,not_not]
      · simp only [hsub,not_false_eq_true,decide_true]
        refine hplain ((h.accept hdec source actor clientSequence).accepted o source bytes) ?_
        rintro ⟨update',heq,hsub',_⟩
        cases heq
        exact hsub hsub'

theorem World.Sound.step (h : w.Sound yrs document) (l : Label β Op document) :
    (w.step yrs l).Sound yrs document ∧
      ((∀ e ∈ w.emit yrs l, e.Honest yrs document) ↔ ¬w.Repeats yrs l) := by
  have hquiet : ∀ {w' : World β Op}, w'.Sound yrs document →
      w'.Sound yrs document ∧ ((∀ e ∈ ([] : List (Effect β)), e.Honest yrs document) ↔ ¬False) :=
    fun hw' => ⟨hw',by simp⟩
  cases l with
  | load source save => exact hquiet (h.load source save)
  | crash =>
    have hlost : World.Sound yrs document { w with room := none } := ⟨h.stored,by simp⟩
    exact hquiet hlost
  | administer files documentEpochs =>
    exact hquiet (h.undisturbed ⟨le_refl _,rfl,fun _ => rfl,fun _ _ => Iff.rfl⟩)
  | batchElsewhere other inputs batch =>
    exact hquiet (h.undisturbed (undisturbed_perform_batch other.2 inputs batch h.stored.positive))
  | snapshotElsewhere other through bytes =>
    exact hquiet (h.undisturbed (undisturbed_perform_snapshot other.2 .commits through bytes))
  | tick o =>
    simp only [World.step,World.emit,World.react,World.act,World.Repeats]
    cases hr : w.room with
    | none => exact ⟨h,by simp⟩
    | some room =>
      have hf := (h.actor hr).flushIfPending o
      refine ⟨⟨hf.1.stored,?_⟩,iff_of_true hf.2 id⟩
      rintro room' hr'
      cases hr'
      exact hf.1.attached
  | command c o =>
    simp only [World.step,World.emit,World.react,World.act,World.Repeats]
    cases hr : w.room with
    | none => exact ⟨h,by simp⟩
    | some room =>
      have hc := (h.actor hr).command o c
      refine ⟨⟨hc.1.stored,?_⟩,?_⟩
      · rintro room' hr'
        cases hr'
        exact hc.1.attached
      · simpa only [Option.some.injEq,exists_eq_left'] using hc.2

/-- Every durable acknowledgement of a run covers its update, in the database at that moment and
after a recovery from it, exactly when no command repeats what only the pending batch holds. -/
theorem acknowledgement_iff (yrs : Yrs β Op) (document : DocumentKey)
    (labels : List (Label β Op document)) :
    (∀ e ∈ emitted (World.step yrs) (World.emit yrs) .start labels, e.Honest yrs document) ↔
      Along (World.step yrs) (fun w l => ¬w.Repeats yrs l) .start labels :=
  emitted_forall_iff (World.Sound yrs document) (fun _ l h => (h.step l).1)
    (fun _ l h => (h.step l).2) .start labels

/-! ## An update that is sent twice -/

def sampleLoaded : World (Finset ℕ) ℕ := ⟨sampleActor.database,some sampleActor.room⟩

theorem load_sample :
    World.load plainYrs sampleDocument .start (.ok ∅) .commits = sampleLoaded := by
  have hrec : collaborationRecovery (.empty : Database (Finset ℕ)) sampleDocument =
      .ok ⟨1,none,[]⟩ := by
    rw [collaborationRecovery_ok (by decide) (by simp [Database.latestSnapshot,Database.empty,
      Table.best,Table.empty])]
    simp [Database.updatesAfter,Database.latestSnapshot,Database.empty,Table.best,Table.empty,
      sampleDocument]
  simp only [World.load,World.start,loadDocument,hrec,Except.mapError]
  rfl

/-- A writer joins and sends one update twice before the timer ticks. -/
def sentTwice : List (Label (Finset ℕ) ℕ sampleDocument) :=
  [.command (.join true) .fine,.command (.apply 3 4 1 {7}) .fine,.command (.apply 3 4 1 {7}) .fine]

/-- The repetition is acknowledged with sequence 0 while nothing of the update is stored. -/
theorem sent_twice_not_durable :
    ¬∀ e ∈ emitted (World.step plainYrs) (World.emit plainYrs) .start
      (.load (.ok ∅) .commits :: sentTwice), e.Honest plainYrs sampleDocument := by
  intro h
  have hload : World.step plainYrs .start (.load (.ok ∅) .commits : Label _ _ sampleDocument) =
      sampleLoaded := load_sample
  have hsent : emitted (World.step plainYrs) (World.emit plainYrs) sampleLoaded sentTwice =
      [.joined ∅ 0,.event (.update 3 {7}),
        .control 3 {7} (.durableAck 1 0) sampleLoaded.database] := rfl
  rw [emitted,hload,hsent] at h
  have hack := h (.control 3 {7} (.durableAck 1 0) sampleLoaded.database) (by simp)
  have hmem : (7 : ℕ) ∈ plainYrs.ops {7} := ⟨{7},rfl,by decide⟩
  rcases hack.1 hmem with ⟨s,hs,bytes,hbytes,update,hupdate,hop⟩ | ⟨r,hr,_⟩
  · have hlatest : sampleLoaded.database.latestSnapshot sampleDocument = some (0,∅) := rfl
    rw [hlatest] at hs
    cases hs
    cases hbytes
    cases hupdate
    simp at hop
  · cases hr

end LatexCore.Collaboration
