import Mathlib.Data.List.Nodup
import Mathlib.Data.List.Perm.Subperm
import Mathlib.Tactic.Common

/-! # Keyed tables

A table is a list of rows in insertion order whose keys are pairwise distinct;
the field that says so is the primary key. Updates take a condition and a row
function and cannot touch a key, so every operation keeps the invariant by
construction. Rows are read by key, and counted by a condition.
-/
namespace LatexCore.Foundation

structure Table (κ ν : Type*) where
  rows : List (κ × ν)
  distinct : (rows.map Prod.fst).Nodup

namespace Table
variable {κ ν : Type*}

def empty : Table κ ν := ⟨[],List.nodup_nil⟩

def keys (t : Table κ ν) : List κ := t.rows.map Prod.fst

def updateWhere (t : Table κ ν) (p : κ → ν → Bool) (f : ν → ν) : Table κ ν where
  rows := t.rows.map (fun r => if p r.1 r.2 then (r.1,f r.2) else r)
  distinct := by
    have hkeys : (t.rows.map (fun r => if p r.1 r.2 then (r.1,f r.2) else r)).map Prod.fst =
        t.rows.map Prod.fst := by
      rw [List.map_map]
      apply List.map_congr_left
      intro r _
      dsimp only [Function.comp_apply]
      split <;> rfl
    rw [hkeys]
    exact t.distinct

/-- The keys of the rows that meet a condition, in insertion order. -/
def select (t : Table κ ν) (p : κ → ν → Bool) : List κ :=
  (t.rows.filter (fun r => p r.1 r.2)).map Prod.fst

/-- `count(*)` of the rows that meet a condition. -/
def count (t : Table κ ν) (p : κ → ν → Bool) : ℕ := t.rows.countP (fun r => p r.1 r.2)

/-- The first row of those that meet a condition in the order of `before`. -/
def best (t : Table κ ν) (p : κ → ν → Bool) (before : κ × ν → κ × ν → Bool) : Option (κ × ν) :=
  (t.rows.filter (fun r => p r.1 r.2)).foldl
    (fun found r => match found with
      | none => some r
      | some b => if before r b then some r else some b) none

theorem updateWhere_congr {t : Table κ ν} {p q : κ → ν → Bool} (f : ν → ν)
    (h : ∀ r ∈ t.rows, p r.1 r.2 = q r.1 r.2) : t.updateWhere p f = t.updateWhere q f := by
  simp only [updateWhere,mk.injEq]
  apply List.map_congr_left
  intro r hr
  rw [h r hr]

theorem count_congr {t : Table κ ν} {p q : κ → ν → Bool} (h : ∀ r ∈ t.rows, p r.1 r.2 = q r.1 r.2) :
    t.count p = t.count q := by
  apply List.countP_congr
  intro r hr
  rw [h r hr]

theorem count_updateWhere (t : Table κ ν) (p : κ → ν → Bool) (f : ν → ν) (q : κ → ν → Bool) :
    (t.updateWhere p f).count q = t.count (fun k v => q k (if p k v then f v else v)) := by
  simp only [count,updateWhere,List.countP_map]
  apply List.countP_congr
  intro r _
  dsimp only [Function.comp_apply]
  by_cases hp : p r.1 r.2 <;> simp [hp]

/-- A condition that holds where one of two exclusive ones does counts their sum. -/
theorem count_add {t : Table κ ν} {p q s : κ → ν → Bool}
    (h : ∀ r ∈ t.rows, (s r.1 r.2 = (p r.1 r.2 || q r.1 r.2)) ∧ (p r.1 r.2 && q r.1 r.2) = false) :
    t.count s = t.count p + t.count q := by
  obtain ⟨rows,hd⟩ := t
  simp only [count]
  induction rows with
  | nil => rfl
  | cons r rest ih =>
    rw [List.map_cons,List.nodup_cons] at hd
    obtain ⟨hs,hpq⟩ := h r (List.mem_cons_self ..)
    have hrest := ih hd.2 (fun r' hr' => h r' (List.mem_cons_of_mem _ hr'))
    simp only [List.countP_cons,hrest,hs]
    cases hp : p r.1 r.2 <;> cases hq : q r.1 r.2 <;> simp [hp,hq] at hpq ⊢ <;> omega

variable [DecidableEq κ]

def get? (t : Table κ ν) (k : κ) : Option ν := (t.rows.find? (fun r => r.1 == k)).map Prod.snd

/-- An insertion that the primary key may refuse. -/
def insert? (t : Table κ ν) (k : κ) (v : ν) : Option (Table κ ν) :=
  if h : k ∈ t.rows.map Prod.fst then none
  else some ⟨t.rows ++ [(k,v)],by
    rw [List.map_append,List.nodup_append]
    refine ⟨t.distinct,by simp,?_⟩
    intro a ha b hb heq
    simp only [List.map_cons,List.map_nil,List.mem_singleton] at hb
    exact h (hb ▸ heq ▸ ha)⟩

def modify (t : Table κ ν) (k : κ) (f : ν → ν) : Table κ ν := t.updateWhere (fun k' _ => k' == k) f

def deleteWhere (t : Table κ ν) (p : κ → ν → Bool) : Table κ ν where
  rows := t.rows.filter (fun r => !p r.1 r.2)
  distinct := t.distinct.sublist (List.filter_sublist.map Prod.fst)

@[simp] theorem get?_empty (k : κ) : (empty : Table κ ν).get? k = none := rfl
omit [DecidableEq κ] in
@[simp] theorem count_empty (p : κ → ν → Bool) : (empty : Table κ ν).count p = 0 := rfl

theorem mem_rows_iff {t : Table κ ν} {k : κ} {v : ν} : (k,v) ∈ t.rows ↔ t.get? k = some v := by
  obtain ⟨rows,hd⟩ := t
  simp only [get?]
  induction rows with
  | nil => simp
  | cons r rest ih =>
    obtain ⟨k',v'⟩ := r
    simp only [List.map_cons,List.nodup_cons] at hd
    by_cases hk : k' = k
    · subst hk
      have hnot : (k',v) ∉ rest := fun hm => hd.1 (List.mem_map.mpr ⟨_,hm,rfl⟩)
      simp [hnot,eq_comm]
    · have hk' : ¬k = k' := fun h => hk h.symm
      rw [List.find?_cons_of_neg (by simpa using hk),← ih hd.2,List.mem_cons]
      simp [hk']

theorem get?_updateWhere (t : Table κ ν) (p : κ → ν → Bool) (f : ν → ν) (k : κ) :
    (t.updateWhere p f).get? k = (t.get? k).map (fun v => if p k v then f v else v) := by
  obtain ⟨rows,hd⟩ := t
  simp only [get?,updateWhere]
  induction rows with
  | nil => rfl
  | cons r rest ih =>
    obtain ⟨k',v⟩ := r
    simp only [List.map_cons,List.nodup_cons] at hd
    by_cases hk : k' = k
    · subst hk
      by_cases hp : p k' v <;> simp [hp]
    · have hstep := ih hd.2
      by_cases hp : p k' v <;> simpa [hp,hk] using hstep

@[simp] theorem get?_modify_self (t : Table κ ν) (k : κ) (f : ν → ν) :
    (t.modify k f).get? k = (t.get? k).map f := by
  simp [modify,get?_updateWhere]

theorem get?_modify_of_ne (t : Table κ ν) {k x : κ} (h : x ≠ k) (f : ν → ν) :
    (t.modify k f).get? x = t.get? x := by
  simp [modify,get?_updateWhere,h]

theorem get?_modify (t : Table κ ν) (k x : κ) (f : ν → ν) :
    (t.modify k f).get? x = if x = k then (t.get? x).map f else t.get? x := by
  by_cases h : x = k
  · subst h
    simp
  · simp [h,get?_modify_of_ne t h f]

theorem get?_eq_none_iff {t : Table κ ν} {k : κ} : t.get? k = none ↔ k ∉ t.rows.map Prod.fst := by
  constructor
  · intro h hm
    obtain ⟨⟨k',v⟩,hr,rfl⟩ := List.mem_map.mp hm
    rw [mem_rows_iff] at hr
    simp [h] at hr
  · intro h
    cases hg : t.get? k with
    | none => rfl
    | some v => exact absurd (List.mem_map.mpr ⟨(k,v),mem_rows_iff.mpr hg,rfl⟩) h

theorem insert?_eq_some {t t' : Table κ ν} {k : κ} {v : ν} (h : t.insert? k v = some t') :
    t.get? k = none ∧ t'.rows = t.rows ++ [(k,v)] := by
  unfold insert? at h
  split at h
  · cases h
  · next hk =>
    cases h
    exact ⟨get?_eq_none_iff.mpr hk,rfl⟩

theorem get?_insert? {t t' : Table κ ν} {k : κ} {v : ν} (h : t.insert? k v = some t') (x : κ) :
    t'.get? x = if x = k then some v else t.get? x := by
  obtain ⟨hnone,hrows⟩ := insert?_eq_some h
  by_cases hx : x = k
  · subst hx
    rw [if_pos rfl,← mem_rows_iff,hrows]
    simp
  · rw [if_neg hx]
    simp only [get?,hrows,List.find?_append]
    have hlast : List.find? (fun r : κ × ν => r.1 == x) [(k,v)] = none := by
      simpa using fun he => hx he.symm
    simp [hlast]

theorem insert?_isSome {t : Table κ ν} {k : κ} (h : t.get? k = none) (v : ν) :
    ∃ t', t.insert? k v = some t' := by
  unfold insert?
  rw [dif_neg (get?_eq_none_iff.mp h)]
  exact ⟨_,rfl⟩

/-- `INSERT … ON CONFLICT DO UPDATE`: the row of the key holds the value. -/
def upsert (t : Table κ ν) (k : κ) (v : ν) : Table κ ν :=
  (t.insert? k v).getD (t.modify k (fun _ => v))

theorem get?_upsert (t : Table κ ν) (k : κ) (v : ν) (x : κ) :
    (t.upsert k v).get? x = if x = k then some v else t.get? x := by
  unfold upsert
  cases hg : t.get? k with
  | none =>
    obtain ⟨t',ht'⟩ := insert?_isSome hg v
    rw [ht',Option.getD_some,get?_insert? ht']
  | some old =>
    have hnone : t.insert? k v = none := by
      cases hi : t.insert? k v with
      | none => rfl
      | some t' => simp [(insert?_eq_some hi).1] at hg
    rw [hnone,Option.getD_none,get?_modify]
    by_cases hx : x = k
    · subst hx
      simp [hg]
    · simp [hx]

theorem get?_deleteWhere (t : Table κ ν) (p : κ → ν → Bool) (k : κ) :
    (t.deleteWhere p).get? k = (t.get? k).filter (fun v => !p k v) := by
  cases hg : t.get? k with
  | none =>
    rw [get?_eq_none_iff] at hg
    exact get?_eq_none_iff.mpr (fun hm => hg ((List.filter_sublist.map Prod.fst).subset hm))
  | some v =>
    have hrow : (k,v) ∈ t.rows := mem_rows_iff.mpr hg
    cases hp : p k v with
    | false =>
      simp only [Option.filter,hp,Bool.not_false,if_true]
      exact mem_rows_iff.mp (List.mem_filter.mpr ⟨hrow,by simp [hp]⟩)
    | true =>
      simp only [Option.filter,hp,Bool.not_true,Bool.false_eq_true,if_false]
      rw [get?_eq_none_iff]
      intro hm
      obtain ⟨⟨k',v'⟩,hr,rfl⟩ := List.mem_map.mp hm
      obtain ⟨hr,hp'⟩ := List.mem_filter.mp hr
      have hv : t.get? k' = some v' := mem_rows_iff.mp hr
      rw [hg,Option.some.injEq] at hv
      subst hv
      simp [hp] at hp'

theorem mem_select {t : Table κ ν} {p : κ → ν → Bool} {k : κ} :
    k ∈ t.select p ↔ ∃ v, t.get? k = some v ∧ p k v = true := by
  simp only [select,List.mem_map,List.mem_filter]
  constructor
  · rintro ⟨⟨k',v⟩,⟨hr,hp⟩,rfl⟩
    exact ⟨v,mem_rows_iff.mp hr,hp⟩
  · rintro ⟨v,hv,hp⟩
    exact ⟨(k,v),⟨mem_rows_iff.mpr hv,hp⟩,rfl⟩

omit [DecidableEq κ] in
theorem select_nodup (t : Table κ ν) (p : κ → ν → Bool) : (t.select p).Nodup :=
  t.distinct.sublist (List.filter_sublist.map Prod.fst)

omit [DecidableEq κ] in
theorem length_select (t : Table κ ν) (p : κ → ν → Bool) : (t.select p).length = t.count p := by
  simp [select,count,List.countP_eq_length_filter]

theorem count_eq_zero {t : Table κ ν} {p : κ → ν → Bool} :
    t.count p = 0 ↔ ∀ k v, t.get? k = some v → p k v = false := by
  rw [count,List.countP_eq_zero]
  constructor
  · intro h k v hv
    simpa using h (k,v) (mem_rows_iff.mpr hv)
  · rintro h ⟨k,v⟩ hr
    simp [h k v (mem_rows_iff.mp hr)]

theorem count_pos {t : Table κ ν} {p : κ → ν → Bool} :
    0 < t.count p ↔ ∃ k v, t.get? k = some v ∧ p k v = true := by
  rw [count,List.countP_pos_iff]
  constructor
  · rintro ⟨⟨k,v⟩,hr,hp⟩
    exact ⟨k,v,mem_rows_iff.mp hr,hp⟩
  · rintro ⟨k,v,hv,hp⟩
    exact ⟨(k,v),mem_rows_iff.mpr hv,hp⟩

theorem count_insert? {t t' : Table κ ν} {k : κ} {v : ν} (h : t.insert? k v = some t')
    (p : κ → ν → Bool) : t'.count p = t.count p + if p k v then 1 else 0 := by
  rw [count,(insert?_eq_some h).2,List.countP_append,List.countP_singleton]
  rfl

theorem count_le_of_imp {t t' : Table κ ν} {p q : κ → ν → Bool}
    (h : ∀ k v, t'.get? k = some v → q k v = true → ∃ w, t.get? k = some w ∧ p k w = true) :
    t'.count q ≤ t.count p := by
  rw [← length_select,← length_select]
  apply (List.subperm_of_subset (select_nodup t' q) ?_).length_le
  intro k hk
  obtain ⟨v,hv,hq⟩ := mem_select.mp hk
  exact mem_select.mpr (h k v hv hq)

theorem count_le_succ_of_imp {t t' : Table κ ν} {p q : κ → ν → Bool} (k₀ : κ)
    (h : ∀ k v, k ≠ k₀ → t'.get? k = some v → q k v = true → ∃ w, t.get? k = some w ∧ p k w = true) :
    t'.count q ≤ t.count p + 1 := by
  rw [← length_select,← length_select]
  have hsub : t'.select q ⊆ k₀ :: t.select p := by
    intro k hk
    by_cases he : k = k₀
    · exact he ▸ List.mem_cons_self ..
    · obtain ⟨v,hv,hq⟩ := mem_select.mp hk
      exact List.mem_cons_of_mem _ (mem_select.mpr (h k v he hv hq))
  simpa using (List.subperm_of_subset (select_nodup t' q) hsub).length_le

omit [DecidableEq κ] in
private theorem best_fold_mem (before : κ × ν → κ × ν → Bool) (rows : List (κ × ν))
    (found : Option (κ × ν)) (r : κ × ν)
    (h : rows.foldl (fun found r => match found with
      | none => some r
      | some b => if before r b then some r else some b) found = some r) :
    r ∈ rows ∨ found = some r := by
  induction rows generalizing found with
  | nil => exact Or.inr h
  | cons a rest ih =>
    rcases ih _ h with hm | he
    · exact Or.inl (List.mem_cons_of_mem _ hm)
    · cases found with
      | none => cases he; exact Or.inl (List.mem_cons_self ..)
      | some b =>
        dsimp only at he
        split at he
        · cases he; exact Or.inl (List.mem_cons_self ..)
        · exact Or.inr he

/-- The chosen row is a row of the table that meets the condition. -/
theorem best_mem {t : Table κ ν} {p : κ → ν → Bool} {before : κ × ν → κ × ν → Bool} {k : κ} {v : ν}
    (h : t.best p before = some (k,v)) : t.get? k = some v ∧ p k v = true := by
  rcases best_fold_mem before _ none (k,v) h with hm | he
  · obtain ⟨hr,hp⟩ := List.mem_filter.mp hm
    exact ⟨mem_rows_iff.mp hr,hp⟩
  · cases he

/-- Where the rows are compared by a number, no row that meets the condition has a larger one. -/
theorem best_max {t : Table κ ν} {p : κ → ν → Bool} (f : κ × ν → ℕ) {r : κ × ν}
    (h : t.best p (fun a b => f b < f a) = some r) {k : κ} {v : ν} (hv : t.get? k = some v)
    (hp : p k v = true) : f (k,v) ≤ f r := by
  have hfold : ∀ (rows : List (κ × ν)) (found : Option (κ × ν)),
      rows.foldl (fun found r => match found with
        | none => some r
        | some b => if decide (f b < f r) then some r else some b) found = some r →
      (∀ b, found = some b → f b ≤ f r) ∧ ∀ a ∈ rows, f a ≤ f r := by
    intro rows
    induction rows with
    | nil =>
      rintro found hfound
      refine ⟨?_,by simp⟩
      rintro b rfl
      cases hfound
      exact Nat.le_refl _
    | cons a rest ih =>
      intro found hfound
      rw [List.foldl_cons] at hfound
      obtain ⟨hhead,hrest⟩ := ih _ hfound
      cases found with
      | none =>
        have ha := hhead a rfl
        exact ⟨by simp,List.forall_mem_cons.mpr ⟨ha,hrest⟩⟩
      | some b =>
        by_cases hlt : f b < f a
        · have ha := hhead a (by simp [hlt])
          refine ⟨?_,List.forall_mem_cons.mpr ⟨ha,hrest⟩⟩
          rintro c hc
          cases hc
          omega
        · have hb := hhead b (by simp [hlt])
          refine ⟨by simpa using hb,List.forall_mem_cons.mpr ⟨by omega,hrest⟩⟩
  apply (hfold _ none h).2
  exact List.mem_filter.mpr ⟨mem_rows_iff.mpr hv,hp⟩

theorem best_insert? {t t' : Table κ ν} {p : κ → ν → Bool} {before : κ × ν → κ × ν → Bool} {k : κ}
    {v : ν} (h : t.insert? k v = some t') :
    t'.best p before = if p k v then some (match t.best p before with
      | none => (k,v)
      | some b => if before (k,v) b then (k,v) else b) else t.best p before := by
  obtain ⟨_,hrows⟩ := insert?_eq_some h
  cases hp : p k v with
  | false => simp [best,hrows,hp]
  | true =>
    simp only [best,hrows,List.filter_append,List.filter_cons_of_pos,hp,List.filter_nil,
      List.foldl_append,List.foldl_cons,List.foldl_nil,if_true]
    split
    · rfl
    · split <;> rfl

omit [DecidableEq κ] in
private theorem best_fold_some (before : κ × ν → κ × ν → Bool) (rows : List (κ × ν)) (b : κ × ν) :
    ∃ r, rows.foldl (fun found r => match found with
      | none => some r
      | some b => if before r b then some r else some b) (some b) = some r := by
  induction rows generalizing b with
  | nil => exact ⟨b,rfl⟩
  | cons a rest ih =>
    rw [List.foldl_cons]
    dsimp only
    split
    · exact ih a
    · exact ih b

theorem best_eq_none {t : Table κ ν} {p : κ → ν → Bool} {before : κ × ν → κ × ν → Bool}
    (h : t.best p before = none) {k : κ} {v : ν} (hv : t.get? k = some v) : p k v = false := by
  unfold best at h
  cases hf : t.rows.filter (fun r => p r.1 r.2) with
  | nil =>
    have hnot := List.filter_eq_nil_iff.mp hf (k,v) (mem_rows_iff.mpr hv)
    simpa using hnot
  | cons a rest =>
    rw [hf,List.foldl_cons] at h
    obtain ⟨r,hr⟩ := best_fold_some before rest a
    exact absurd (hr.symm.trans h) (by simp)

def mapRows {μ : Type*} (t : Table κ ν) (f : ν → μ) : Table κ μ where
  rows := t.rows.map (fun r => (r.1,f r.2))
  distinct := by
    rw [List.map_map]
    exact t.distinct

theorem get?_mapRows {μ : Type*} (t : Table κ ν) (f : ν → μ) (k : κ) :
    (t.mapRows f).get? k = (t.get? k).map f := by
  apply Option.ext
  intro w
  rw [← mem_rows_iff,mapRows,List.mem_map,Option.map_eq_some_iff]
  constructor
  · rintro ⟨⟨k',v⟩,hr,heq⟩
    cases heq
    exact ⟨v,mem_rows_iff.mp hr,rfl⟩
  · rintro ⟨v,hv,rfl⟩
    exact ⟨(k,v),mem_rows_iff.mpr hv,rfl⟩

/-! ## Groups of rows -/

inductive Filled : Table κ ν → List (κ × ν) → Table κ ν → Prop
  | nil (t : Table κ ν) : Filled t [] t
  | cons {t m u : Table κ ν} {k : κ} {v : ν} {rest : List (κ × ν)} (h : t.insert? k v = some m)
      (hrest : Filled m rest u) : Filled t ((k,v) :: rest) u

theorem Filled.get?_iff {t u : Table κ ν} {rows : List (κ × ν)} (h : Filled t rows u) {x : κ} {w : ν} :
    u.get? x = some w ↔ (x,w) ∈ rows ∨ t.get? x = some w := by
  induction h with
  | nil t => simp
  | @cons t m u k v rest hinsert _ ih =>
    rw [ih,get?_insert? hinsert,List.mem_cons]
    by_cases hx : x = k
    · subst hx
      rw [if_pos rfl,(insert?_eq_some hinsert).1]
      simp [or_comm,eq_comm]
    · rw [if_neg hx]
      simp [hx]

theorem Filled.get?_group {γ : Type*} [DecidableEq γ] {t u : Table (γ × κ) ν} {g : γ}
    {entries : List (κ × ν)}
    (h : Filled (t.deleteWhere (fun key _ => key.1 == g)) (entries.map (fun e => ((g,e.1),e.2))) u)
    {k : κ} {v : ν} : u.get? (g,k) = some v ↔ (k,v) ∈ entries := by
  rw [h.get?_iff,get?_deleteWhere]
  simp

end Table
end LatexCore.Foundation
