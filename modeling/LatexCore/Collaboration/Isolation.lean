import LatexCore.Collaboration.Barrier
import LatexCore.Collaboration.Kept

/-! # Isolation of the document epochs

An update names no epoch, so the room that takes it is decided by the epoch of its
socket alone. A reconnected socket is open before `JOIN_ACCEPTED` has told the tab
its epoch, and what is typed until then goes out on it. In the runs without such
an edit every operation stays in the epoch whose document it was created in.
-/
namespace LatexCore.Collaboration
open Core Foundation
variable {β Op : Type}

def nativeOps (created : Op → Option ℕ) (epoch : ℕ) : Set Op :=
  { op | ∀ e, created op = some e → e = epoch }

namespace Tabs

/-- What the connections of an epoch have accepted and what its room has merged is native to the epoch. -/
structure Isolated (yrs : Yrs β Op) (created : Op → Option ℕ) (w : Tabs β Op) : Prop where
  accepted : ∀ epoch, epoch ≤ i64Max → ∀ entry ∈ (w.rooms epoch).mailbox, ∀ bytes,
    entry.2.payload? = some bytes → yrs.ops bytes ⊆ nativeOps created epoch
  merged : ∀ epoch, epoch ≤ i64Max → ↑(w.rooms epoch).actor.room.doc ⊆ nativeOps created epoch

def Prompt (w : Tabs β Op) : TabsLabel β Op → Prop
  | .edit tab _ => ∀ t, w.tabs tab = some t → t.session.isOpen = true → t.session.mounted = true →
    t.session.editable = true → t.session.access = true → t.session.documentEpoch = some (w.epochOf t)
  | _ => True

instance (w : Tabs β Op) (label : TabsLabel β Op) : Decidable (w.Prompt label) :=
  match label with
  | .edit tab _ => inferInstanceAs (Decidable (∀ t ∈ w.tabs tab, t.session.isOpen = true →
      t.session.mounted = true → t.session.editable = true → t.session.access = true →
        t.session.documentEpoch = some (w.epochOf t)))
  | .create .. | .connect .. | .access .. | .seat .. | .opened .. | .closed .. | .message .. | .synced ..
  | .persist .. | .flush .. | .timeOut .. | .leave .. | .deliver .. | .room .. | .restore => isTrue trivial

variable {created : Op → Option ℕ} {w : Tabs β Op} {label : TabsLabel β Op}

theorem Prompt.kept (h : w.Prompt label) : w.Kept (nativeOps created) created label := by
  cases label with
  | edit tab ops =>
    intro t ht hthere hopen hmounted heditable haccess op hop e he
    have hepoch := h t ht hopen hmounted heditable haccess
    rw [hthere op hop,hepoch,Option.some.injEq] at he
    exact he.symm
  | _ => trivial

theorem Inside.isolated {yrs : Yrs β Op} {key : RoomKey} (h : w.Inside yrs (nativeOps created) key) :
    w.Isolated yrs created :=
  ⟨fun epoch he entry hentry bytes hbytes => ((h.rooms epoch he).mailbox entry hentry bytes hbytes).ops,
    fun epoch he => (h.rooms epoch he).doc⟩

end Tabs

section Runs
variable [DecidableEq β] [DecidableEq Op]

/-- In every run whose edits go out in the epoch of their document, no epoch accepts or merges an
operation of another. -/
theorem epochs_isolated (yrs : Yrs β Op) (key : RoomKey) (created : Op → Option ℕ) (actors : ℕ → Actor β Op)
    (documentEpoch : ℕ) (persisted : ℕ → ℕ → Finset Op) (hbigint : documentEpoch ≤ i64Max)
    (hactors : ∀ epoch, epoch ≤ i64Max → (actors epoch).Reached yrs (Tabs.document key epoch) ∧
      ↑(actors epoch).room.doc ⊆ nativeOps created epoch)
    (hpersisted : ∀ browser epoch, ↑(persisted browser epoch) ⊆ nativeOps created epoch)
    (labels : List (TabsLabel β Op))
    (h : Along (fun w l => Tabs.step key w yrs created l) (fun w l => w.Prompt l)
      (Tabs.start actors documentEpoch persisted) labels) :
    (run (fun w l => Tabs.step key w yrs created l) (Tabs.start actors documentEpoch persisted)
      labels).Isolated yrs created := by
  have hcreated : ∀ op epoch, created op = some epoch → op ∈ nativeOps created epoch := by
    intro op epoch hop e he
    rw [hop,Option.some.injEq] at he
    exact he.symm
  have hstart : (Tabs.start actors documentEpoch persisted).Inside yrs (nativeOps created) key :=
    .start hbigint (fun epoch he => ⟨(hactors epoch he).1.sound,(hactors epoch he).2⟩) hpersisted
  have hinside := h.invariant (fun w : Tabs β Op => w.Inside yrs (nativeOps created) key)
    (fun w l hw hl => hw.step hcreated l hl.kept) hstart
  exact hinside.isolated

end Runs

/-! ## An edit between two epochs -/

/-- The paper is restored while the tab is without a socket, which then gets one of the new epoch. -/
def reconnected : List (TabsLabel (Finset ℕ) ℕ) :=
  opening ++ [.edit 0 {7},.closed 0,.restore,.connect 0 6,.access 6,.seat 6 true,.room 2 (.act .fine true),
    .room 2 (.subscribe 6),.room 2 (.greet 6 true true),.opened 0]

/-- `JOIN_ACCEPTED` arrives before anything is typed. -/
theorem reconnected_isolated :
    (run sampleStep sampleTabs (reconnected ++ [.message 0,.edit 0 {8}])).Isolated plainYrs
      (fun op => if op = 1 then none else some 1) := by
  have htext : ∀ epoch, (↑({1} : Finset ℕ) : Set ℕ) ⊆ nativeOps (fun op => if op = 1 then none else some 1) epoch := by
    intro epoch op hop e hcreated
    rw [Finset.coe_singleton,Set.mem_singleton_iff] at hop
    rw [hop] at hcreated
    cases hcreated
  have hprompt : Along sampleStep (fun w l => w.Prompt l) sampleTabs (reconnected ++ [.message 0,.edit 0 {8}]) := by
    decide +kernel
  have hnone : ∀ browser epoch : ℕ, (↑(∅ : Finset ℕ) : Set ℕ) ⊆
      nativeOps (fun op => if op = 1 then none else some 1) epoch := by
    intro _ _ op hop
    cases hop
  have hactors : ∀ epoch, epoch ≤ i64Max →
      (Actor.fresh (Tabs.document sampleDocument.room epoch) {1}).Reached plainYrs
        (Tabs.document sampleDocument.room epoch) ∧
      (↑(Actor.fresh (Tabs.document sampleDocument.room epoch) {1}).room.doc : Set ℕ) ⊆
        nativeOps (fun op => if op = 1 then none else some 1) epoch := by
    intro epoch he
    exact ⟨Actor.fresh_reached he {1},htext epoch⟩
  exact epochs_isolated plainYrs sampleDocument.room (fun op => if op = 1 then none else some 1)
    (fun epoch => Actor.fresh (Tabs.document sampleDocument.room epoch) {1}) 1 (fun _ _ => ∅) (by decide)
    hactors hnone _ hprompt

/-- What is typed before `JOIN_ACCEPTED` is merged into the restored document. -/
theorem reconnected_edit_merged : ¬(run sampleStep sampleTabs
    (reconnected ++ [.edit 0 {8},.deliver 6 4 true true,.room 2 (.act .fine true)])).Isolated plainYrs
      (fun op => if op = 1 then none else some 1) := by
  intro h
  have hmerged : 8 ∈ ((run sampleStep sampleTabs (reconnected ++ [.edit 0 {8},.deliver 6 4 true true,
      .room 2 (.act .fine true)])).rooms 2).actor.room.doc := by decide +kernel
  have hnative := h.merged 2 (by decide) hmerged 1 rfl
  cases hnative

end LatexCore.Collaboration
