import Mathlib.Data.Set.Insert
import Mathlib.Logic.Relation
import Mathlib.Tactic.Common

/-! # Single flight with newest-pending coalescing

A slot names the one item that is in flight and may hold one pending request,
the newest, that starts when the item finishes. The steps carry two permissions:
to clear the slot while an item is in flight, and to drop an item from flight
while the slot still names it. Without the first permission the slot names
every item in flight, without the second it names no other.
-/
namespace LatexCore.Foundation

@[ext] structure Flight (β ρ : Type*) where
  live : Set β
  active : Option β
  pending : Option ρ

namespace Flight
variable {β ρ : Type*} {released abandoned : Prop} {f g : Flight β ρ}

inductive Step (released abandoned : Prop) (f : Flight β ρ) : Flight β ρ → Prop
  | park (p : ρ) (h : f.active.isSome = true) : Step released abandoned f ⟨f.live,f.active,some p⟩
  | unpark : Step released abandoned f ⟨f.live,f.active,none⟩
  | start (b : β) (h : f.active = none) :
      Step released abandoned f ⟨insert b f.live,some b,f.pending⟩
  | finish (b : β) (hb : b ∈ f.live) (hp : f.pending = none) :
      Step released abandoned f ⟨f.live \ {b},none,none⟩
  | relay (b n : β) (p : ρ) (hb : b ∈ f.live) (hp : f.pending = some p) :
      Step released abandoned f ⟨insert n (f.live \ {b}),some n,none⟩
  | release (h : released ∨ f.live = ∅) : Step released abandoned f ⟨f.live,none,none⟩
  | abandon (s : Set β) (h : abandoned ∨ ∀ b ∈ s, f.active ≠ some b) :
      Step released abandoned f ⟨f.live \ s,f.active,f.pending⟩

/-- The slot names an item in flight, and nothing is pending behind an empty slot. -/
structure Attended (f : Flight β ρ) : Prop where
  active : ∀ b, f.active = some b → b ∈ f.live
  pending : f.active = none → f.pending = none

/-- Every item in flight is the one the slot names. -/
def Exclusive (f : Flight β ρ) : Prop := ∀ b ∈ f.live, f.active = some b

theorem Step.attended (h : Step released abandoned f g) (hno : ¬abandoned) (hf : f.Attended) :
    g.Attended := by
  cases h with
  | park p hs =>
    refine ⟨hf.active,?_⟩
    intro hn
    simp_all
  | unpark => exact ⟨hf.active,fun _ => rfl⟩
  | start b hn => exact ⟨fun c hc => by simp_all,fun hc => by simp_all⟩
  | finish b hb hp => exact ⟨fun c hc => by simp_all,fun _ => rfl⟩
  | relay b n p hb hp => exact ⟨fun c hc => by simp_all,fun _ => rfl⟩
  | release hr => exact ⟨fun c hc => by simp_all,fun _ => rfl⟩
  | abandon s hs =>
    have hkept := hs.resolve_left hno
    exact ⟨fun c hc => ⟨hf.active c hc,fun hcs => hkept c hcs hc⟩,hf.pending⟩

theorem Step.exclusive (h : Step released abandoned f g) (hno : ¬released) (hf : f.Exclusive) :
    g.Exclusive := by
  cases h with
  | park p hs => exact hf
  | unpark => exact hf
  | start b hn =>
    rintro c (rfl | hc)
    · rfl
    · have hactive := hf c hc
      simp [hn] at hactive
  | finish b hb hp =>
    rintro c ⟨hc,hne⟩
    have hsame := (hf c hc).symm.trans (hf b hb)
    exact absurd (Option.some.inj hsame) hne
  | relay b n p hb hp =>
    rintro c (rfl | ⟨hc,hne⟩)
    · rfl
    · have hsame := (hf c hc).symm.trans (hf b hb)
      exact absurd (Option.some.inj hsame) hne
  | release hr =>
    intro c hc
    rw [hr.resolve_left hno] at hc
    cases hc
  | abandon s hs => exact fun c hc => hf c hc.1

/-- Any number of steps with the same permissions. -/
abbrev Steps (released abandoned : Prop) : Flight β ρ → Flight β ρ → Prop :=
  Relation.ReflTransGen (Step released abandoned)

theorem Steps.attended (h : Steps released abandoned f g) (hno : ¬abandoned) (hf : f.Attended) :
    g.Attended := by
  induction h with
  | refl => exact hf
  | tail _ hstep ih => exact hstep.attended hno ih

theorem Steps.exclusive (h : Steps released abandoned f g) (hno : ¬released) (hf : f.Exclusive) :
    g.Exclusive := by
  induction h with
  | refl => exact hf
  | tail _ hstep ih => exact hstep.exclusive hno ih

/-- With both invariants the slot names exactly what is in flight. -/
theorem mem_live_iff (ha : f.Attended) (he : f.Exclusive) (b : β) : b ∈ f.live ↔ f.active = some b :=
  ⟨he b,ha.active b⟩

/-- Nothing in flight leaves an attended slot empty. -/
theorem Attended.idle (ha : f.Attended) (hlive : f.live = ∅) : f.active = none ∧ f.pending = none := by
  have hnone : f.active = none := by
    cases h : f.active with
    | none => rfl
    | some b =>
      have hb := ha.active b h
      rw [hlive] at hb
      cases hb
  exact ⟨hnone,ha.pending hnone⟩

end Flight
end LatexCore.Foundation
