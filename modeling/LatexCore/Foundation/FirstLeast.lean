import Mathlib.Data.List.MinMax

/-! # First least and first found entries

`List.argmin` keeps the first of several least entries, and `minBy` does so for a
comparison. Whether the choice of `argmin`, or the entry that a search finds first, has
a property can be read off the list: every entry without the property is beaten by one
with it.
-/
namespace LatexCore.Foundation

variable {α : Type*} {f : α → ℕ} {l : List α} {m : α}

/-- The entries before the chosen one are greater. -/
theorem argmin_split (h : m ∈ l.argmin f) :
    ∃ pre post, l = pre ++ m :: post ∧ ∀ b ∈ pre, f m < f b := by
  induction l with
  | nil => simp at h
  | cons a l ih =>
    rw [List.argmin_cons] at h
    cases hl : l.argmin f with
    | none =>
      rw [hl] at h
      obtain rfl : a = m := by simpa using h
      exact ⟨[],l,rfl,by simp⟩
    | some c =>
      simp only [hl] at h
      by_cases hc : f c < f a
      · obtain rfl : c = m := by simpa [hc] using h
        obtain ⟨pre,post,hsplit,hpre⟩ := ih hl
        refine ⟨a :: pre,post,by rw [hsplit,List.cons_append],?_⟩
        intro b hb
        rcases List.mem_cons.mp hb with rfl | hb
        · exact hc
        · exact hpre b hb
      · obtain rfl : a = m := by simpa [hc] using h
        exact ⟨[],l,rfl,by simp⟩

/-- The entry is beaten in the list by one that satisfies `P`: a lesser one, or an earlier
one that is not greater. -/
def Beaten (f : α → ℕ) (P : α → Prop) (pre : List α) (other : α) (l : List α) : Prop :=
  ∃ own ∈ l, P own ∧ (f own < f other ∨ own ∈ pre ∧ f own ≤ f other)

variable (f l) in
theorem argmin_satisfies_iff (P : α → Prop) :
    (∀ m ∈ l.argmin f, P m) ↔
      ∀ pre other post, l = pre ++ other :: post → ¬P other → Beaten f P pre other l := by
  constructor
  · intro h pre other post hl hother
    have hmem : other ∈ l := by simp [hl]
    have hne : l.argmin f ≠ none := fun hnone => List.ne_nil_of_mem hmem (List.argmin_eq_none.mp hnone)
    obtain ⟨m,hm⟩ := Option.ne_none_iff_exists'.mp hne
    have hP := h m hm
    refine ⟨m,List.argmin_mem hm,hP,?_⟩
    rcases (List.le_of_mem_argmin hmem hm).lt_or_eq with hlt | heq
    · exact .inl hlt
    refine .inr ⟨?_,heq.le⟩
    obtain ⟨first,last,hsplit,hfirst⟩ := argmin_split hm
    rw [hl] at hsplit
    rcases List.append_eq_append_iff.mp hsplit with ⟨between,hpre,hrest⟩ | ⟨between,hpre,hrest⟩
    · cases between with
      | nil =>
        obtain rfl : other = m := by simpa using (List.cons.inj hrest).1
        exact absurd hP hother
      | cons b between =>
        obtain rfl : other = b := (List.cons.inj hrest).1
        exact absurd (hfirst other (by simp [hpre])) (by omega)
    · cases between with
      | nil =>
        obtain rfl : m = other := (List.cons.inj hrest).1
        exact absurd hP hother
      | cons b between =>
        obtain rfl : m = b := (List.cons.inj hrest).1
        simp [hpre]
  · intro h m hm
    by_contra hP
    obtain ⟨pre,post,hl,hpre⟩ := argmin_split hm
    obtain ⟨own,hown,-,hlt | ⟨hin,hle⟩⟩ := h pre m post hl hP
    · exact absurd (List.le_of_mem_argmin hown hm) (by omega)
    · exact absurd (hpre own hin) (by omega)

/-- `Iterator::min_by`, which keeps the first of several least entries. -/
def minBy (cmp : α → α → Ordering) : List α → Option α
  | [] => none
  | first :: rest => some (rest.foldl (fun least a => if cmp least a = .gt then a else least) first)

theorem least_mem (cmp : α → α → Ordering) (rest : List α) (least : α) :
    rest.foldl (fun least a => if cmp least a = .gt then a else least) least ∈ least :: rest := by
  induction rest generalizing least with
  | nil => exact List.mem_cons_self
  | cons b rest ih =>
    rw [List.foldl_cons]
    split
    · exact List.mem_cons_of_mem _ (ih b)
    · rcases List.mem_cons.mp (ih least) with hleast | hmem
      · exact List.mem_cons.mpr (.inl hleast)
      · exact List.mem_cons_of_mem _ (List.mem_cons_of_mem _ hmem)

theorem minBy_mem {cmp : α → α → Ordering} {l : List α} {a : α} (h : minBy cmp l = some a) : a ∈ l := by
  cases l with
  | nil => cases h
  | cons first rest =>
    obtain rfl := Option.some.inj h
    exact least_mem cmp rest first

theorem find_satisfies_iff {l : List α} {p : α → Bool} {P : α → Prop} :
    (∀ a, l.find? p = some a → P a) ↔
      ∀ pre a post, l = pre ++ a :: post → p a = true → ¬P a → ∃ b ∈ pre, p b = true ∧ P b := by
  constructor
  · rintro h pre a post rfl ha hnot
    rw [List.find?_append,List.find?_cons,ha] at h
    cases hpre : pre.find? p with
    | none =>
      rw [hpre] at h
      exact absurd (h a rfl) hnot
    | some b =>
      rw [hpre] at h
      exact ⟨b,List.mem_of_find?_eq_some hpre,List.find?_some hpre,h b rfl⟩
  · intro h a hfound
    by_contra hnot
    obtain ⟨ha,pre,post,hsplit,hpre⟩ := List.find?_eq_some_iff_append.mp hfound
    obtain ⟨b,hb,hmatch,-⟩ := h pre a post hsplit ha hnot
    have hno := hpre b hb
    rw [hmatch] at hno
    exact absurd hno (by decide)

end LatexCore.Foundation
