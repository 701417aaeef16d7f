import LatexCore.Foundation.Table

/-! # Numbered rows

The rows of a table belong to groups and carry a number in their group. When each new row
gets the number after the highest one of its group, the numbers of every group stay gapless
and pairwise distinct, however the insertions of the groups follow each other.
-/
namespace LatexCore.Foundation
variable {κ ν γ : Type} [DecidableEq κ] [DecidableEq γ] {group : ν → γ} {number : ν → ℕ}
variable {t t' : Table κ ν}

/-- `COALESCE(max(number),0)+1` over the rows of one group. -/
def Table.nextNumber (group : ν → γ) (number : ν → ℕ) (t : Table κ ν) (g : γ) : ℕ :=
  (t.rows.filter (fun r => group r.2 == g)).foldl (fun n r => max n (number r.2)) 0 + 1

/-- The second table comes from the first by insertions under the next numbers. -/
inductive Issued (group : ν → γ) (number : ν → ℕ) (t : Table κ ν) : Table κ ν → Prop
  | refl : Issued group number t t
  | issue (k : κ) (v : ν) {mid t' : Table κ ν} (h : Issued group number t mid)
      (hnumber : number v = mid.nextNumber group number (group v)) (hinsert : mid.insert? k v = some t') :
      Issued group number t t'

/-- The numbers of every group are those from one on, each of them once. -/
structure Gapless (group : ν → γ) (number : ν → ℕ) (t : Table κ ν) : Prop where
  range : ∀ g, ∃ n, ∀ m, (∃ k v, t.get? k = some v ∧ group v = g ∧ number v = m) ↔ 1 ≤ m ∧ m ≤ n
  unique : ∀ k k' v v', t.get? k = some v → t.get? k' = some v' → group v = group v' →
    number v = number v' → k = k'

theorem foldl_max_le_iff {α : Type} {f : α → ℕ} {rows : List α} {start bound : ℕ} :
    rows.foldl (fun n r => max n (f r)) start ≤ bound ↔ start ≤ bound ∧ ∀ r ∈ rows, f r ≤ bound := by
  induction rows generalizing start with
  | nil => simp
  | cons first rest ih => simp [ih,Nat.max_le,and_assoc]

theorem Table.nextNumber_le_iff {g : γ} {bound : ℕ} : t.nextNumber group number g ≤ bound + 1 ↔
    ∀ k v, t.get? k = some v → group v = g → number v ≤ bound := by
  simp [Table.nextNumber,foldl_max_le_iff,Table.mem_rows_iff]

theorem Table.nextNumber_insert? {k : κ} {v : ν} (hnumber : number v = t.nextNumber group number (group v))
    (h : t.insert? k v = some t') :
    t'.nextNumber group number (group v) = t.nextNumber group number (group v) + 1 := by
  rw [Table.nextNumber] at hnumber ⊢
  rw [(Table.insert?_eq_some h).2]
  simp only [List.filter_append,List.foldl_append,List.filter_singleton,beq_self_eq_true]
  simp [hnumber,Table.nextNumber]

theorem Table.kept_insert? {k k' : κ} {v v' : ν} (h : t.insert? k v = some t')
    (hold : t.get? k' = some v') : t'.get? k' = some v' := by
  rw [Table.get?_insert? h,if_neg,hold]
  rintro rfl
  simp [(Table.insert?_eq_some h).1] at hold

namespace Issued

theorem of_eq (h : t' = t) : Issued group number t t' := h ▸ .refl

theorem trans {t'' : Table κ ν} (h : Issued group number t t') (h' : Issued group number t' t'') :
    Issued group number t t'' := by
  induction h' with
  | refl => exact h
  | issue k v _ hnumber hinsert ih => exact .issue k v ih hnumber hinsert

theorem kept (h : Issued group number t t') {k : κ} {v : ν} (hv : t.get? k = some v) :
    t'.get? k = some v := by
  induction h with
  | refl => exact hv
  | issue k v _ _ hinsert ih => exact Table.kept_insert? hinsert ih

end Issued

theorem Gapless.nextNumber (h : Gapless group number t) (g : γ) (m : ℕ) :
    (∃ k v, t.get? k = some v ∧ group v = g ∧ number v = m) ↔
      1 ≤ m ∧ m < t.nextNumber group number g := by
  obtain ⟨n,hn⟩ := h.range g
  have hupper : t.nextNumber group number g ≤ n + 1 :=
    Table.nextNumber_le_iff.mpr fun k v hv hg => ((hn _).mp ⟨k,v,hv,hg,rfl⟩).2
  rw [hn]
  constructor
  · rintro ⟨hpos,hle⟩
    refine ⟨hpos,?_⟩
    obtain ⟨k,v,hv,hg,rfl⟩ := (hn m).mpr ⟨hpos,hle⟩
    exact Nat.lt_succ_of_le (Table.nextNumber_le_iff.mp (Nat.le_refl _) k v hv hg)
  · omega

theorem Gapless.insert (h : Gapless group number t) {k : κ} {v : ν}
    (hnumber : number v = t.nextNumber group number (group v)) (hinsert : t.insert? k v = some t') :
    Gapless group number t' := by
  have hget := Table.get?_insert? hinsert
  have hfresh : ∀ k' v', t.get? k' = some v' → group v' = group v → number v' ≠ number v := by
    intro k' v' hv' hg hsame
    have hlt := ((h.nextNumber (group v) (number v')).mp ⟨k',v',hv',hg,rfl⟩).2
    omega
  constructor
  · intro g
    by_cases hg : group v = g
    · refine ⟨number v,fun m => ?_⟩
      have hold := h.nextNumber g m
      constructor
      · rintro ⟨k',v',hv',hg',rfl⟩
        rw [hget] at hv'
        split at hv'
        · cases hv'
          exact ⟨by simp [hnumber,Table.nextNumber],Nat.le_refl _⟩
        · have hlt := hold.mp ⟨k',v',hv',hg',rfl⟩
          rw [hnumber,hg]
          omega
      · rintro ⟨hpos,hle⟩
        by_cases hm : m = number v
        · exact ⟨k,v,(hget k).trans (if_pos rfl),hg,hm.symm⟩
        · rw [hnumber,hg] at hle hm
          obtain ⟨k',v',hv',hrest⟩ := hold.mpr ⟨hpos,by omega⟩
          exact ⟨k',v',Table.kept_insert? hinsert hv',hrest⟩
    · obtain ⟨n,hn⟩ := h.range g
      refine ⟨n,fun m => ?_⟩
      rw [← hn]
      constructor
      · rintro ⟨k',v',hv',hg',hm⟩
        rw [hget] at hv'
        split at hv'
        · cases hv'
          exact absurd hg' hg
        · exact ⟨k',v',hv',hg',hm⟩
      · rintro ⟨k',v',hv',hrest⟩
        exact ⟨k',v',Table.kept_insert? hinsert hv',hrest⟩
  · intro k₁ k₂ v₁ v₂ h₁ h₂ hg hm
    rw [hget] at h₁ h₂
    split at h₁ <;> split at h₂
    · next hk₁ hk₂ => exact hk₁.trans hk₂.symm
    · cases h₁
      exact absurd hm.symm (hfresh k₂ v₂ h₂ hg.symm)
    · cases h₂
      exact absurd hm (hfresh k₁ v₁ h₁ hg)
    · exact h.unique k₁ k₂ v₁ v₂ h₁ h₂ hg hm

theorem Issued.gapless (h : Issued group number t t') (ht : Gapless group number t) :
    Gapless group number t' := by
  induction h with
  | refl => exact ht
  | issue k v _ hnumber hinsert ih => exact ih.insert hnumber hinsert

omit [DecidableEq γ] in
theorem gapless_empty : Gapless group number (Table.empty : Table κ ν) := by
  constructor
  · refine fun g => ⟨0,fun m => ?_⟩
    simp [Table.empty,Table.get?]
    omega
  · intro k k' v v' hv
    cases hv

end LatexCore.Foundation
