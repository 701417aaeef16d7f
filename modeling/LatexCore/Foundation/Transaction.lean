import Mathlib.Tactic.Common

/-! # Atomic transactions

A transaction reads a state and either fails or returns a result together with
the state it leaves. A failed transaction is rolled back, so committing it
leaves the state alone. The lemmas peel a successful transaction apart, one
statement at a time.
-/
namespace LatexCore.Foundation
universe u
variable {σ ε : Type*} {α β : Type u}

/-- The state after the transaction: the one it leaves, or the old one on failure. -/
def commit (t : σ → Except ε (σ × α)) (s : σ) : σ :=
  match t s with
  | .ok r => r.1
  | .error _ => s

theorem commit_ok {t : σ → Except ε (σ × α)} {s s' : σ} {a : α} (h : t s = .ok (s',a)) :
    commit t s = s' := by
  simp [commit,h]

theorem commit_error {t : σ → Except ε (σ × α)} {s : σ} {e : ε} (h : t s = .error e) :
    commit t s = s := by
  simp [commit,h]

/-- Committing keeps what the transaction leaves, or the old state. -/
theorem commit_map {σ α : Type u} (t : σ → Except ε (σ × α)) (s : σ) :
    ((t s).map Prod.fst).toOption.getD s = commit t s := by
  cases h : t s with
  | error e => simp [commit,h,Except.map,Except.toOption]
  | ok r => simp [commit,h,Except.map,Except.toOption]

theorem commit_cases (p : σ → Prop) {t : σ → Except ε (σ × α)} {s : σ} (hold : p s)
    (hnew : ∀ s' a, t s = .ok (s',a) → p s') : p (commit t s) := by
  cases h : t s with
  | error e => rw [commit_error h]; exact hold
  | ok r => rw [commit_ok h]; exact hnew r.1 r.2 h

/-- A check that fails with the given error. -/
def ensure (c : Bool) (e : ε) : Except ε Unit := if c then .ok () else .error e

/-- A row that must be there. -/
def require (o : Option α) (e : ε) : Except ε α :=
  match o with
  | some a => .ok a
  | none => .error e

theorem bind_ok {x : Except ε α} {f : α → Except ε β} {b : β} :
    (x >>= f) = .ok b ↔ ∃ a, x = .ok a ∧ f a = .ok b := by
  cases x with
  | error e => simp [bind,Except.bind]
  | ok a => simp [bind,Except.bind]

@[simp] theorem ensure_ok {c : Bool} {e : ε} {u : Unit} : ensure c e = .ok u ↔ c = true := by
  cases c <;> simp [ensure]

@[simp] theorem require_ok {o : Option α} {e : ε} {a : α} : require o e = .ok a ↔ o = some a := by
  cases o <;> simp [require]

@[simp] theorem mapError_ok {δ : Type*} {x : Except ε α} {f : ε → δ} {a : α} :
    x.mapError f = .ok a ↔ x = .ok a := by
  cases x <;> simp [Except.mapError]

theorem map_ok {x : Except ε α} {f : α → β} {b : β} :
    x.map f = .ok b ↔ ∃ a, x = .ok a ∧ f a = b := by
  cases x <;> simp [Except.map]

theorem pure_ok {a b : α} : (pure a : Except ε α) = .ok b ↔ a = b := by
  simp [pure,Except.pure]

end LatexCore.Foundation
