import Mathlib.Data.List.Destutter

/-! # Sorting and removing repetitions in a row

A stable sort by a key followed by the removal of repetitions in a row leaves no
duplicates exactly when no entry comes back after another entry of its key. The sort
does not change the order inside a key, so this is a condition on the unsorted list.
-/
namespace LatexCore.Foundation
variable {α β : Type*} {l first second : List α} {a b : α}

/-- No entry comes back after another one. -/
def Gathered (l : List α) : Prop := ∀ a b, [a,b,a].Sublist l → a = b

theorem Gathered.sublist (h : Gathered second) (hsub : first.Sublist second) : Gathered first :=
  fun a b hab => h a b (hab.trans hsub)

theorem gathered_singleton (a : α) : Gathered [a] := by
  intro x y h
  have hlength := h.length_le
  simp only [List.length_cons,List.length_nil] at hlength
  omega

theorem gathered_cons_cons (hne : a ≠ b) : Gathered (a :: b :: l) ↔ a ∉ b :: l ∧ Gathered (b :: l) := by
  constructor
  · intro h
    refine ⟨fun hmem => hne (h a b ?_),h.sublist (List.sublist_cons_self ..)⟩
    have hlater : a ∈ l := (List.mem_cons.mp hmem).resolve_left hne
    exact ((List.singleton_sublist.mpr hlater).cons_cons b).cons_cons a
  · rintro ⟨hnew,h⟩ x y hxy
    cases hxy with
    | cons _ hrest => exact h x y hrest
    | cons_cons _ hrest => exact absurd (hrest.subset (by simp)) hnew

theorem gathered_cons_self : Gathered (a :: a :: l) ↔ Gathered (a :: l) := by
  refine ⟨fun h => h.sublist (List.sublist_cons_self ..),fun h x y hxy => ?_⟩
  cases hxy with
  | cons _ hrest => exact h x y hrest
  | cons_cons _ hrest =>
    cases hrest with
    | cons _ hlater => exact h a y (hlater.cons_cons a)
    | cons_cons _ _ => rfl

section Destutter
variable [DecidableEq α]

/-- Leaving out repetitions in a row keeps every entry. -/
theorem mem_destutter_ne : a ∈ l.destutter (· ≠ ·) ↔ a ∈ l := by
  refine ⟨fun h => (List.destutter_sublist _ l).subset h,fun h => ?_⟩
  cases l with
  | nil => cases h
  | cons b rest =>
    rw [List.destutter_cons']
    induction rest generalizing b with
    | nil => exact h
    | cons c rest ih =>
      by_cases hne : b ≠ c
      · rw [List.destutter'_cons_pos _ hne]
        rcases List.mem_cons.mp h with rfl | h
        · exact List.mem_cons_self
        · exact List.mem_cons_of_mem _ (ih c h)
      · rw [List.destutter'_cons_neg _ hne]
        rw [not_not] at hne
        subst hne
        refine ih b ?_
        rcases List.mem_cons.mp h with rfl | h
        · exact List.mem_cons_self
        · exact h

/-- No duplicates are left when every entry stands together. -/
theorem nodup_destutter_iff : (l.destutter (· ≠ ·)).Nodup ↔ Gathered l := by
  cases l with
  | nil =>
    refine ⟨fun _ x y h => ?_,fun _ => List.nodup_nil⟩
    cases h
  | cons a rest =>
    rw [List.destutter_cons']
    induction rest generalizing a with
    | nil => exact ⟨fun _ => gathered_singleton a,fun _ => List.nodup_singleton a⟩
    | cons b rest ih =>
      by_cases hne : a ≠ b
      · rw [List.destutter'_cons_pos _ hne,List.nodup_cons,gathered_cons_cons hne,ih b,
          ← List.destutter_cons',mem_destutter_ne]
      · rw [List.destutter'_cons_neg _ hne]
        rw [not_not] at hne
        subst hne
        rw [ih a,gathered_cons_self]

end Destutter

/-! ## Stable sorts -/

section StableSort
variable {le : α → α → Bool} (trans : ∀ a b c, le a b → le b c → le a c) (total : ∀ a b, le a b || le b a)
include trans total

/-- The sort keeps the entries of one key in their order. -/
theorem filter_mergeSort (a : α) :
    (l.mergeSort le).filter (fun b => le a b && le b a) = l.filter (fun b => le a b && le b a) := by
  have hkey : (l.filter (fun b => le a b && le b a)).Pairwise (fun x y => le x y) := by
    refine List.pairwise_of_forall_mem_list fun x hx y hy => ?_
    obtain ⟨-,hxa⟩ := Bool.and_eq_true_iff.mp (List.mem_filter.mp hx).2
    obtain ⟨hay,-⟩ := Bool.and_eq_true_iff.mp (List.mem_filter.mp hy).2
    exact trans x a y hxa hay
  have hsub := (List.sublist_mergeSort trans total hkey List.filter_sublist).filter
    (fun b => le a b && le b a)
  rw [List.filter_filter] at hsub
  simp only [Bool.and_self] at hsub
  exact (hsub.eq_of_length ((List.mergeSort_perm l le).filter _).length_eq.symm).symm

/-- A sorted list is gathered when no entry comes back after another one of its key. -/
theorem gathered_mergeSort_iff : Gathered (l.mergeSort le) ↔
    ∀ a b, le a b = true → le b a = true → [a,b,a].Sublist l → a = b := by
  have hself (a b : α) (hab : le a b = true) (hba : le b a = true) :
      [a,b,a].filter (fun b => le a b && le b a) = [a,b,a] := by
    have haa : le a a = true := trans a b a hab hba
    simp [hab,hba,haa]
  constructor
  · intro h a b hab hba hsub
    have hkey := hsub.filter (fun b => le a b && le b a)
    rw [hself a b hab hba,← filter_mergeSort trans total a] at hkey
    exact h a b (hkey.trans List.filter_sublist)
  · intro h a b hsub
    have hsorted := (List.pairwise_mergeSort trans total l).sublist hsub
    obtain ⟨hfirst,hrest⟩ := List.pairwise_cons.mp hsorted
    have hab : le a b = true := hfirst b (by simp)
    have hba : le b a = true := (List.pairwise_cons.mp hrest).1 a (by simp)
    have hkey := hsub.filter (fun b => le a b && le b a)
    rw [hself a b hab hba,filter_mergeSort trans total a] at hkey
    exact h a b hab hba (hkey.trans List.filter_sublist)

end StableSort

/-! ## Where an entry comes back -/

theorem return_right (h : [a,b,a].Sublist (first ++ second)) (hnew : a ∉ first) : [a,b,a].Sublist second := by
  obtain ⟨u,v,heq,hu,hv⟩ := List.sublist_append_iff.mp h
  cases u with
  | nil => exact heq ▸ hv
  | cons x u =>
    obtain ⟨rfl,-⟩ := List.cons.inj heq
    exact absurd (hu.subset List.mem_cons_self) hnew

theorem return_left (h : [a,b,a].Sublist (first ++ second)) (hnew : a ∉ second) : [a,b,a].Sublist first := by
  obtain ⟨u,v,heq,hu,hv⟩ := List.sublist_append_iff.mp h
  rcases List.eq_nil_or_concat v with rfl | ⟨v,x,rfl⟩
  · rw [List.append_nil] at heq
    exact heq ▸ hu
  · have hlast : a = x := by
      have hlasts := congrArg List.getLast? heq
      simpa using hlasts
    exact absurd (hv.subset (by simp [hlast])) hnew

/-- The entry comes back in one of the lists if no two have it. -/
theorem return_flatMap {lists : List β} {f : β → List α} (h : [a,b,a].Sublist (lists.flatMap f))
    (honce : lists.Pairwise (fun x y => a ∈ f x → a ∉ f y)) : ∃ x ∈ lists, [a,b,a].Sublist (f x) := by
  induction lists with
  | nil => cases h
  | cons x rest ih =>
    obtain ⟨hx,hrest⟩ := List.pairwise_cons.mp honce
    rw [List.flatMap_cons] at h
    by_cases hmem : a ∈ f x
    · refine ⟨x,List.mem_cons_self,return_left h fun hlater => ?_⟩
      obtain ⟨y,hy,hay⟩ := List.mem_flatMap.mp hlater
      exact hx y hy hmem hay
    · obtain ⟨y,hy,hsub⟩ := ih (return_right h hmem) hrest
      exact ⟨y,List.mem_cons_of_mem _ hy,hsub⟩

end LatexCore.Foundation
