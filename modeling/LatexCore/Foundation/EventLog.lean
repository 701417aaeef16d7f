import Mathlib.Data.List.Basic
import LatexCore.Foundation.Transaction

/-! # Replayed event logs

A log is replayed by a step that may fail. A checkpoint is the state that the
first events of a log lead to. A checkpoint of a log is one of every longer log,
and replaying the events after it ends where the replay of the whole log ends.
Events that are numbered without gaps are found by the range of their numbers.
-/
namespace LatexCore.Foundation
variable {σ ε δ : Type} {apply : σ → ε → Except δ σ} {init s t : σ} {log more : List ε} {n m : ℕ}

/-- The first `n` events of the log are there and lead to the state. -/
structure Checkpoint (apply : σ → ε → Except δ σ) (init : σ) (log : List ε) (n : ℕ) (s : σ) :
    Prop where
  bound : n ≤ log.length
  replayed : (log.take n).foldlM apply init = .ok s

namespace Checkpoint

theorem zero : Checkpoint apply init log 0 init := ⟨Nat.zero_le _,rfl⟩

theorem of_prefix (c : Checkpoint apply init log n s) (h : log <+: more) :
    Checkpoint apply init more n s := by
  obtain ⟨tail,rfl⟩ := h
  refine ⟨?_,?_⟩
  · rw [List.length_append]
    exact Nat.le_add_right_of_le c.bound
  · rw [List.take_append_of_le_length c.bound]
    exact c.replayed

theorem unique (c : Checkpoint apply init log n s) (c' : Checkpoint apply init log n t) : s = t := by
  have h := c.replayed.symm.trans c'.replayed
  cases h
  rfl

/-- The events between two checkpoints lead from the one to the other. -/
theorem resume (c : Checkpoint apply init log n s) (c' : Checkpoint apply init log m t)
    (h : n ≤ m) : ((log.take m).drop n).foldlM apply s = .ok t := by
  have hsplit := c'.replayed
  rw [← List.take_append_drop n (log.take m),List.take_take,Nat.min_eq_left h,List.foldlM_append,
    bind_ok] at hsplit
  obtain ⟨middle,hmiddle,htail⟩ := hsplit
  rw [c.replayed] at hmiddle
  cases hmiddle
  exact htail

theorem snoc {e : ε} (c : Checkpoint apply init log log.length s) (h : apply s e = .ok t) :
    Checkpoint apply init (log ++ [e]) (log.length + 1) t := by
  have hwhole := c.replayed
  rw [List.take_length] at hwhole
  refine ⟨by simp,?_⟩
  rw [List.take_of_length_le (by simp),List.foldlM_append,bind_ok]
  exact ⟨s,hwhole,by simpa [List.foldlM] using h⟩

/-- A property of the position and the state that every event keeps. -/
theorem invariant (p : ℕ → σ → Prop) (hzero : p 0 init)
    (hstep : ∀ n s e t, p n s → apply s e = .ok t → p (n + 1) t)
    (c : Checkpoint apply init log n s) : p n s := by
  induction n generalizing s with
  | zero =>
    cases c.replayed
    exact hzero
  | succ n ih =>
    have hbound : n < log.length := c.bound
    have hlast := c.replayed
    rw [List.take_add_one,List.getElem?_eq_getElem hbound,List.foldlM_append,bind_ok] at hlast
    obtain ⟨before,hbefore,he⟩ := hlast
    have hprior := ih ⟨Nat.le_of_lt hbound,hbefore⟩
    exact hstep n before log[n] s hprior (by simpa [List.foldlM] using he)

end Checkpoint

private theorem window_offset (number : ε → ℕ) (after through k : ℕ)
    (hnumber : log.map number = List.range' (k + 1) log.length) :
    log.filter (fun e => decide (after < number e ∧ number e ≤ through)) =
      (log.take (through - k)).drop (after - k) := by
  induction log generalizing k with
  | nil => simp
  | cons e rest ih =>
    rw [List.map_cons,List.length_cons,List.range'_succ,List.cons.injEq] at hnumber
    obtain ⟨he,hrest⟩ := hnumber
    rw [List.filter_cons,ih (k + 1) hrest,he]
    by_cases hthrough : through ≤ k
    · have hz : through - k = 0 := by omega
      have hz' : through - (k + 1) = 0 := by omega
      rw [hz,hz',if_neg (by simp; omega)]
      simp
    · have hs : through - k = through - (k + 1) + 1 := by omega
      rw [hs,List.take_succ_cons]
      by_cases hafter : after ≤ k
      · have hz : after - k = 0 := by omega
        have hz' : after - (k + 1) = 0 := by omega
        rw [hz,hz',if_pos (by simp; omega)]
        rfl
      · have ha : after - k = after - (k + 1) + 1 := by omega
        rw [ha,List.drop_succ_cons,if_neg (by simp; omega)]

theorem filter_window (number : ε → ℕ) (after through : ℕ)
    (hnumber : log.map number = List.range' 1 log.length) :
    log.filter (fun e => decide (after < number e ∧ number e ≤ through)) =
      (log.take through).drop after :=
  window_offset number after through 0 hnumber

end LatexCore.Foundation
