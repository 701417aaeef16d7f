import Mathlib.Data.List.Induction
import Mathlib.Tactic.Common

/-! # Runs of a labelled machine

A machine is a total step function. A run is the left fold of the steps, and a
guard along a run is a condition on each label in the state that the label is
applied to. The invariant rules below are the only inductions over runs: the
developments supply step lemmas and cite these rules by name.
-/
namespace LatexCore.Foundation
variable {σ α β : Type*}

/-- The state after the labels `ops`, oldest first. -/
def run (step : σ → α → σ) (s : σ) (ops : List α) : σ := ops.foldl step s

@[simp] theorem run_nil (step : σ → α → σ) (s : σ) : run step s [] = s := rfl
@[simp] theorem run_cons (step : σ → α → σ) (s : σ) (a : α) (ops : List α) :
    run step s (a :: ops) = run step (step s a) ops := rfl
theorem run_append (step : σ → α → σ) (s : σ) (ops more : List α) :
    run step s (ops ++ more) = run step (run step s ops) more := List.foldl_append ..
theorem run_concat (step : σ → α → σ) (s : σ) (ops : List α) (a : α) :
    run step s (ops ++ [a]) = step (run step s ops) a := run_append ..

/-- The guard holds of every label of the run in the state it is applied to. -/
def Along (step : σ → α → σ) (guard : σ → α → Prop) : σ → List α → Prop
  | _, [] => True
  | s, a :: rest => guard s a ∧ Along step guard (step s a) rest

instance instDecidableAlong {step : σ → α → σ} {guard : σ → α → Prop} [∀ s a, Decidable (guard s a)] (s : σ)
    (ops : List α) :
    Decidable (Along step guard s ops) :=
  match ops with
  | [] => isTrue trivial
  | a :: rest =>
    have : Decidable (Along step guard (step s a) rest) := instDecidableAlong (step s a) rest
    inferInstanceAs (Decidable (guard s a ∧ Along step guard (step s a) rest))

theorem along_append {step : σ → α → σ} {guard : σ → α → Prop} {s : σ} {ops more : List α} :
    Along step guard s (ops ++ more) ↔
      Along step guard s ops ∧ Along step guard (run step s ops) more := by
  induction ops generalizing s with
  | nil => simp [Along]
  | cons a rest ih => simp [Along,ih,and_assoc]

theorem along_concat {step : σ → α → σ} {guard : σ → α → Prop} {s : σ} {ops : List α} {a : α} :
    Along step guard s (ops ++ [a]) ↔ Along step guard s ops ∧ guard (run step s ops) a := by
  simp [along_append,Along]

theorem along_iff {step : σ → α → σ} {guard : σ → α → Prop} {s : σ} {ops : List α} :
    Along step guard s ops ↔
      ∀ pre a post, ops = pre ++ a :: post → guard (run step s pre) a := by
  constructor
  · rintro h pre a post rfl
    exact (along_append.mp h).2.1
  · intro h
    induction ops generalizing s with
    | nil => trivial
    | cons a rest ih =>
      refine ⟨h [] a rest rfl,ih ?_⟩
      intro pre b post hrest
      exact h (a :: pre) b post (by rw [hrest,List.cons_append])

theorem Along.mono {step : σ → α → σ} {guard weaker : σ → α → Prop}
    (hg : ∀ s a, guard s a → weaker s a) {s : σ} {ops : List α}
    (h : Along step guard s ops) : Along step weaker s ops := by
  induction ops generalizing s with
  | nil => trivial
  | cons a rest ih => exact ⟨hg s a h.1,ih h.2⟩

theorem Along.and {step : σ → α → σ} {guard other : σ → α → Prop} {s : σ} {ops : List α}
    (h : Along step guard s ops) (h' : Along step other s ops) :
    Along step (fun s a => guard s a ∧ other s a) s ops := by
  induction ops generalizing s with
  | nil => trivial
  | cons a rest ih => exact ⟨⟨h.1,h'.1⟩,ih h.2 h'.2⟩

theorem along_of_forall {step : σ → α → σ} {guard : σ → α → Prop} {ops : List α}
    (h : ∀ s, ∀ a ∈ ops, guard s a) (s : σ) : Along step guard s ops := by
  induction ops generalizing s with
  | nil => trivial
  | cons a rest ih =>
    refine ⟨h s a (List.mem_cons_self ..),ih ?_ _⟩
    intro t b hb
    exact h t b (List.mem_cons_of_mem _ hb)

theorem Along.invariant (inv : σ → Prop) {step : σ → α → σ} {guard : σ → α → Prop}
    (hstep : ∀ s a, inv s → guard s a → inv (step s a)) {s : σ} {ops : List α}
    (h : Along step guard s ops) (hs : inv s) : inv (run step s ops) := by
  induction ops generalizing s with
  | nil => exact hs
  | cons a rest ih => exact ih h.2 (hstep s a hs h.1)

theorem Along.of_invariant (inv : σ → Prop) {step : σ → α → σ} {guard extra : σ → α → Prop}
    (hstep : ∀ s a, inv s → guard s a → inv (step s a))
    (hextra : ∀ s a, inv s → guard s a → extra s a) {s : σ} {ops : List α}
    (h : Along step guard s ops) (hs : inv s) : Along step extra s ops := by
  induction ops generalizing s with
  | nil => trivial
  | cons a rest ih => exact ⟨hextra s a hs h.1,ih h.2 (hstep s a hs h.1)⟩

theorem run_invariant (inv : σ → Prop) {step : σ → α → σ}
    (hstep : ∀ s a, inv s → inv (step s a)) {s : σ} (hs : inv s) (ops : List α) :
    inv (run step s ops) := by
  have h : Along step (fun _ _ => True) s ops := along_of_forall (fun _ _ _ => trivial) s
  exact h.invariant inv (fun s a hs _ => hstep s a hs) hs

theorem run_relates (rel : σ → σ → Prop) {step : σ → α → σ} (hrefl : ∀ s, rel s s)
    (htrans : ∀ {a b c}, rel a b → rel b c → rel a c) (hstep : ∀ s a, rel s (step s a))
    (s : σ) (ops : List α) : rel s (run step s ops) := by
  induction ops generalizing s with
  | nil => exact hrefl s
  | cons a rest ih => exact htrans (hstep s a) (ih (step s a))

theorem run_crossing (p : σ → Prop) {step : σ → α → σ} {s : σ} {ops : List α} (hs : ¬p s)
    (h : p (run step s ops)) : ∃ pre a post, ops = pre ++ a :: post ∧ ¬p (run step s pre) ∧
      p (step (run step s pre) a) := by
  induction ops using List.reverseRecOn with
  | nil => exact absurd h hs
  | append_singleton ops a ih =>
    by_cases hops : p (run step s ops)
    · obtain ⟨pre,b,post,rfl,hpre,hb⟩ := ih hops
      exact ⟨pre,b,post ++ [a],by simp,hpre,hb⟩
    · rw [run_concat] at h
      exact ⟨ops,a,[],rfl,hops,h⟩

def emitted (step : σ → α → σ) (emit : σ → α → List β) : σ → List α → List β
  | _, [] => []
  | s, a :: rest => emit s a ++ emitted step emit (step s a) rest

theorem emitted_append (step : σ → α → σ) (emit : σ → α → List β) (s : σ) (ops more : List α) :
    emitted step emit s (ops ++ more) =
      emitted step emit s ops ++ emitted step emit (run step s ops) more := by
  induction ops generalizing s with
  | nil => rfl
  | cons a rest ih => simp [emitted,ih,List.append_assoc]

theorem emitted_concat (step : σ → α → σ) (emit : σ → α → List β) (s : σ) (ops : List α) (a : α) :
    emitted step emit s (ops ++ [a]) = emitted step emit s ops ++ emit (run step s ops) a := by
  simp [emitted_append,emitted]

theorem emitted_forall_iff (inv : σ → Prop) {step : σ → α → σ} {emit : σ → α → List β}
    {good : β → Prop} {guard : σ → α → Prop} (hstep : ∀ s a, inv s → inv (step s a))
    (hemit : ∀ s a, inv s → ((∀ b ∈ emit s a, good b) ↔ guard s a)) {s : σ} (hs : inv s)
    (ops : List α) : (∀ b ∈ emitted step emit s ops, good b) ↔ Along step guard s ops := by
  induction ops generalizing s with
  | nil => simp [emitted,Along]
  | cons a rest ih =>
    rw [emitted,List.forall_mem_append,Along,hemit s a hs,ih (hstep s a hs)]

theorem Along.invariant_emitted (inv : σ → List β → Prop) {step : σ → α → σ}
    {emit : σ → α → List β} {guard : σ → α → Prop}
    (hstep : ∀ s out a, inv s out → guard s a → inv (step s a) (out ++ emit s a)) {s : σ}
    {ops : List α} (h : Along step guard s ops) (hs : inv s []) :
    inv (run step s ops) (emitted step emit s ops) := by
  induction ops using List.reverseRecOn with
  | nil => exact hs
  | append_singleton ops a ih =>
    obtain ⟨hops,ha⟩ := along_concat.mp h
    rw [run_concat,emitted_concat]
    exact hstep _ _ a (ih hops) ha

theorem run_invariant_emitted (inv : σ → List β → Prop) {step : σ → α → σ}
    {emit : σ → α → List β}
    (hstep : ∀ s out a, inv s out → inv (step s a) (out ++ emit s a)) {s : σ}
    (hs : inv s []) (ops : List α) : inv (run step s ops) (emitted step emit s ops) := by
  have h : Along step (fun _ _ => True) s ops := along_of_forall (fun _ _ _ => trivial) s
  exact h.invariant_emitted inv (fun s out a hs _ => hstep s out a hs) hs

/-- The states of a run with the labels that are applied to them, in order. -/
def trace (step : σ → α → σ) : σ → List α → List (σ × α) := emitted step (fun s a => [(s,a)])

/-- What a run visits is what its beginnings lead to. -/
theorem mem_trace {step : σ → α → σ} {s : σ} {ops : List α} {e : σ × α} :
    e ∈ trace step s ops ↔ ∃ pre post, ops = pre ++ e.2 :: post ∧ e.1 = run step s pre := by
  induction ops generalizing s with
  | nil => simp [trace,emitted]
  | cons a rest ih =>
    change e ∈ (s,a) :: trace step (step s a) rest ↔ _
    rw [List.mem_cons,ih]
    constructor
    · rintro (rfl | ⟨pre,post,rfl,he⟩)
      · exact ⟨[],rest,rfl,rfl⟩
      · exact ⟨a :: pre,post,rfl,he⟩
    · rintro ⟨pre,post,hops,he⟩
      cases pre with
      | nil =>
        cases hops
        exact Or.inl (Prod.ext he rfl)
      | cons b pre =>
        rw [List.cons_append,List.cons.injEq] at hops
        obtain ⟨rfl,rfl⟩ := hops
        exact Or.inr ⟨pre,post,rfl,he⟩

/-- A guard holds along a run exactly when it holds of all that the run visits. -/
theorem along_iff_trace {step : σ → α → σ} {guard : σ → α → Prop} {s : σ} {ops : List α} :
    Along step guard s ops ↔ ∀ e ∈ trace step s ops, guard e.1 e.2 :=
  (emitted_forall_iff (fun _ => True) (fun _ _ _ => trivial) (fun _ _ _ => by simp) trivial ops).symm

end LatexCore.Foundation
