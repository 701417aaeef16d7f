import Mathlib.Data.List.Basic
import Mathlib.Tactic.Common
import Mathlib.Data.Set.Basic

/-! # Broadcast channels and write-behind stores

A broadcast channel is the list of all values sent on it, and a receiver is a
position in that list. A receiver that falls behind by more than the capacity
has lost values and is told so instead of being given the next one.

A memory runs ahead of a stable store by what a buffer holds. The relation below
is kept by accepting items, by flushing the buffer and by checkpointing the
whole memory, and it decides when an item the memory already holds may be
reported as stable.
-/
namespace LatexCore.Foundation
variable {α : Type*}

inductive Recv (α : Type*)
  | empty
  | lagged
  | value (a : α)

/-- The next value of a receiver at the position `cursor`. -/
def recv (capacity : ℕ) (sent : List α) (cursor : ℕ) : Recv α :=
  if cursor + capacity < sent.length then .lagged
  else match sent[cursor]? with
    | none => .empty
    | some a => .value a

/-- What a receiver at the position `cursor` has still to be given. -/
def unread (sent : List α) (cursor : ℕ) : List α := sent.drop cursor

@[simp] theorem unread_end (sent : List α) : unread sent sent.length = [] := List.drop_length ..

theorem unread_append {sent : List α} {cursor : ℕ} (h : cursor ≤ sent.length) (more : List α) :
    unread (sent ++ more) cursor = unread sent cursor ++ more :=
  List.drop_append_of_le_length h

theorem recv_value {capacity cursor : ℕ} {sent : List α} {a : α}
    (h : recv capacity sent cursor = .value a) :
    unread sent cursor = a :: unread sent (cursor + 1) ∧ cursor < sent.length := by
  unfold recv at h
  split at h
  · cases h
  · cases hget : sent[cursor]? with
    | none => simp [hget] at h
    | some b =>
      simp only [hget,Recv.value.injEq] at h
      subst h
      obtain ⟨hlt,hb⟩ := List.getElem?_eq_some_iff.mp hget
      exact ⟨by rw [unread,unread,List.drop_eq_getElem_cons hlt,hb],hlt⟩

/-! ## Write-behind stores -/

variable {memory stable buffered items : Set α}

structure WriteBehind (memory stable buffered : Set α) : Prop where
  kept : stable ⊆ memory
  covered : memory ⊆ stable ∪ buffered

namespace WriteBehind

/-- A memory read back from the stable store. -/
theorem recovered (stable : Set α) : WriteBehind stable stable ∅ :=
  ⟨subset_rfl,Set.subset_union_left⟩

theorem accept (h : WriteBehind memory stable buffered) (items : Set α) :
    WriteBehind (memory ∪ items) stable (buffered ∪ items) := by
  refine ⟨h.kept.trans Set.subset_union_left,?_⟩
  rintro x (hx | hx)
  · rcases h.covered hx with hs | hb
    · exact Or.inl hs
    · exact Or.inr (Or.inl hb)
  · exact Or.inr (Or.inr hx)

theorem harden (h : WriteBehind memory stable buffered) (hs : stable ⊆ items)
    (hm : items ⊆ memory) : WriteBehind memory items buffered := by
  refine ⟨hm,?_⟩
  intro x hx
  exact (h.covered hx).imp (fun hin => hs hin) id

theorem flush (h : WriteBehind memory stable buffered) (hs : stable ⊆ items)
    (hb : buffered ⊆ items) (hm : items ⊆ memory) : WriteBehind memory items ∅ := by
  refine ⟨hm,?_⟩
  intro x hx
  exact Or.inl ((h.covered hx).elim (fun hin => hs hin) (fun hin => hb hin))

theorem stable_iff (h : WriteBehind memory stable buffered) (hi : items ⊆ memory) :
    items ⊆ stable ↔ ∀ x ∈ items, x ∈ buffered → x ∈ stable := by
  constructor
  · intro hs x hx _
    exact hs hx
  · intro hs x hx
    exact (h.covered (hi hx)).elim id (hs x hx)

end WriteBehind

end LatexCore.Foundation
