import LatexCore.Foundation.Table

/-! # Tables with a partial unique index

An index gives some rows a key of their own. A table is indexed when no two rows
have the same index key; the field says so, so a statement that would break the
index cannot be carried out. Statements that only drop rows from the index, or
leave their index keys alone, always can.
-/
namespace LatexCore.Foundation

structure Indexed (κ ν ι : Type*) (index : κ → ν → Option ι) where
  table : Table κ ν
  unique : (table.rows.filterMap (fun r => index r.1 r.2)).Nodup

namespace Indexed
variable {κ ν ι : Type*} {index : κ → ν → Option ι}

def empty : Indexed κ ν ι index := ⟨.empty,List.nodup_nil⟩

/-- The statement that leaves the table `t`, unless the index refuses it. -/
def ofTable? [DecidableEq ι] (t : Table κ ν) : Option (Indexed κ ν ι index) :=
  if h : (t.rows.filterMap (fun r => index r.1 r.2)).Nodup then some ⟨t,h⟩ else none

theorem ofTable?_eq_some [DecidableEq ι] {t : Table κ ν} {u : Indexed κ ν ι index}
    (h : ofTable? t = some u) : u.table = t := by
  unfold ofTable? at h
  split at h
  · cases h
    rfl
  · cases h

private theorem nodup_of_injective {rows : List (κ × ν)} (hkeys : (rows.map Prod.fst).Nodup)
    (h : ∀ r ∈ rows, ∀ r' ∈ rows, ∀ i, index r.1 r.2 = some i → index r'.1 r'.2 = some i →
      r.1 = r'.1) : (rows.filterMap (fun r => index r.1 r.2)).Nodup := by
  induction rows with
  | nil => exact List.nodup_nil
  | cons r rest ih =>
    rw [List.map_cons,List.nodup_cons] at hkeys
    have hrest := ih hkeys.2 (fun a ha b hb =>
      h a (List.mem_cons_of_mem _ ha) b (List.mem_cons_of_mem _ hb))
    cases hr : index r.1 r.2 with
    | none =>
      simp only [List.filterMap_cons,hr]
      exact hrest
    | some i =>
      simp only [List.filterMap_cons,hr,List.nodup_cons]
      refine ⟨?_,hrest⟩
      intro hm
      obtain ⟨r',hr',hi⟩ := List.mem_filterMap.mp hm
      have hkey := h r (List.mem_cons_self ..) r' (List.mem_cons_of_mem _ hr') i hr hi
      exact hkeys.1 (hkey ▸ List.mem_map_of_mem hr')

private theorem injective_of_nodup {rows : List (κ × ν)}
    (hunique : (rows.filterMap (fun r => index r.1 r.2)).Nodup) {r r' : κ × ν} (hr : r ∈ rows)
    (hr' : r' ∈ rows) {i : ι} (hi : index r.1 r.2 = some i) (hi' : index r'.1 r'.2 = some i) :
    r = r' := by
  induction rows with
  | nil => cases hr
  | cons a rest ih =>
    have hmem {b : κ × ν} (hb : b ∈ rest) (hib : index b.1 b.2 = some i) :
        i ∈ rest.filterMap (fun r => index r.1 r.2) := List.mem_filterMap.mpr ⟨b,hb,hib⟩
    have hrest : (rest.filterMap (fun r => index r.1 r.2)).Nodup :=
      hunique.sublist ((List.sublist_cons_self a rest).filterMap _)
    have hhead (ha : index a.1 a.2 = some i) : i ∉ rest.filterMap (fun r => index r.1 r.2) := by
      simp only [List.filterMap_cons,ha,List.nodup_cons] at hunique
      exact hunique.1
    rcases List.mem_cons.mp hr with hra | hra
    · rcases List.mem_cons.mp hr' with hra' | hra'
      · exact hra.trans hra'.symm
      · exact absurd (hmem hra' hi') (hhead (hra ▸ hi))
    · rcases List.mem_cons.mp hr' with hra' | hra'
      · exact absurd (hmem hra hi) (hhead (hra' ▸ hi'))
      · exact ih hrest hra hra'

variable [DecidableEq κ]

def get? (t : Indexed κ ν ι index) (k : κ) : Option ν := t.table.get? k

@[simp] theorem get?_empty (k : κ) : (empty : Indexed κ ν ι index).get? k = none := rfl

theorem get?_inj (t : Indexed κ ν ι index) {k k' : κ} {v v' : ν} {i : ι} (h : t.get? k = some v)
    (h' : t.get? k' = some v') (hi : index k v = some i) (hi' : index k' v' = some i) : k = k' :=
  congrArg Prod.fst (injective_of_nodup t.unique (Table.mem_rows_iff.mpr h)
    (Table.mem_rows_iff.mpr h') hi hi')

variable [DecidableEq ι]

/-- A statement that keeps the index keys apart can be carried out. -/
theorem ofTable?_isSome {t : Table κ ν} (h : ∀ k k' v v' i, t.get? k = some v →
    t.get? k' = some v' → index k v = some i → index k' v' = some i → k = k') :
    ∃ u : Indexed κ ν ι index, ofTable? t = some u := by
  have hunique : (t.rows.filterMap (fun r => index r.1 r.2)).Nodup := by
    apply nodup_of_injective t.distinct
    intro r hr r' hr' i hi hi'
    exact h r.1 r'.1 r.2 r'.2 i (Table.mem_rows_iff.mp hr) (Table.mem_rows_iff.mp hr') hi hi'
  exact ⟨⟨t,hunique⟩,dif_pos hunique⟩

def insert? (t : Indexed κ ν ι index) (k : κ) (v : ν) : Option (Indexed κ ν ι index) :=
  (t.table.insert? k v).bind ofTable?

/-- The update of one row; without the row nothing changes. -/
def modify? (t : Indexed κ ν ι index) (k : κ) (f : ν → ν) : Option (Indexed κ ν ι index) :=
  ofTable? (t.table.modify k f)

omit [DecidableEq κ] [DecidableEq ι] in
private theorem updateWhere_unique (t : Indexed κ ν ι index) (p : κ → ν → Bool) {f : ν → ν}
    (hf : ∀ k v, index k (f v) = none ∨ index k (f v) = index k v) :
    ((t.table.updateWhere p f).rows.filterMap (fun r => index r.1 r.2)).Nodup := by
  refine t.unique.sublist ?_
  obtain ⟨⟨rows,hd⟩,hu⟩ := t
  simp only [Table.updateWhere]
  clear hu hd
  induction rows with
  | nil => exact List.Sublist.refl _
  | cons r rest ih =>
    simp only [List.map_cons]
    by_cases hp : p r.1 r.2
    · rw [if_pos hp]
      rcases hf r.1 r.2 with hnone | hsame
      · simp only [List.filterMap_cons,hnone]
        exact ih.trans ((List.sublist_cons_self r rest).filterMap _)
      · simp only [List.filterMap_cons,hsame]
        cases index r.1 r.2 with
        | none => exact ih
        | some i => exact ih.cons_cons i
    · rw [if_neg hp]
      simp only [List.filterMap_cons]
      cases index r.1 r.2 with
      | none => exact ih
      | some i => exact ih.cons_cons i

/-- The update of all rows that meet a condition, by a function that drops each from the index or
leaves its index key alone. -/
def updateWhere (t : Indexed κ ν ι index) (p : κ → ν → Bool) (f : ν → ν)
    (hf : ∀ k v, index k (f v) = none ∨ index k (f v) = index k v) : Indexed κ ν ι index :=
  ⟨t.table.updateWhere p f,updateWhere_unique t p hf⟩

omit [DecidableEq ι] in
@[simp] theorem get?_updateWhere (t : Indexed κ ν ι index) (p : κ → ν → Bool) (f : ν → ν)
    (hf : ∀ k v, index k (f v) = none ∨ index k (f v) = index k v) (k : κ) :
    (t.updateWhere p f hf).get? k = (t.get? k).map (fun v => if p k v then f v else v) :=
  Table.get?_updateWhere ..

omit [DecidableEq ι] in
/-- The deletion of every row that meets a condition. -/
def deleteWhere (t : Indexed κ ν ι index) (p : κ → ν → Bool) : Indexed κ ν ι index :=
  ⟨t.table.deleteWhere p,t.unique.sublist (List.filter_sublist.filterMap _)⟩

omit [DecidableEq ι] in
theorem get?_deleteWhere (t : Indexed κ ν ι index) (p : κ → ν → Bool) (k : κ) :
    (t.deleteWhere p).get? k = (t.get? k).filter (fun v => !p k v) := Table.get?_deleteWhere ..

theorem insert?_eq_some {t u : Indexed κ ν ι index} {k : κ} {v : ν} (h : t.insert? k v = some u) :
    t.get? k = none ∧ ∀ x, u.get? x = if x = k then some v else t.get? x := by
  obtain ⟨table,htable,hu⟩ := Option.bind_eq_some_iff.mp h
  refine ⟨(Table.insert?_eq_some htable).1,?_⟩
  intro x
  rw [get?,ofTable?_eq_some hu,Table.get?_insert? htable]
  rfl

theorem insert?_isSome {t : Indexed κ ν ι index} {k : κ} {v : ν} (hk : t.get? k = none)
    (hfree : ∀ x w i, t.get? x = some w → index x w = some i → index k v = some i → False) :
    ∃ u, t.insert? k v = some u := by
  obtain ⟨table,htable⟩ := Table.insert?_isSome hk v
  have hget := Table.get?_insert? htable
  obtain ⟨u,hu⟩ : ∃ u : Indexed κ ν ι index, ofTable? table = some u := by
    apply ofTable?_isSome
    intro a b va vb i ha hb hia hib
    rw [hget] at ha hb
    by_cases hak : a = k
    · rw [if_pos hak] at ha
      cases ha
      by_cases hbk : b = k
      · exact hak.trans hbk.symm
      · rw [if_neg hbk] at hb
        exact (hfree b vb i hb hib (hak ▸ hia)).elim
    · rw [if_neg hak] at ha
      by_cases hbk : b = k
      · rw [if_pos hbk] at hb
        cases hb
        exact (hfree a va i ha hia (hbk ▸ hib)).elim
      · rw [if_neg hbk] at hb
        exact t.get?_inj ha hb hia hib
  exact ⟨u,by rw [insert?,htable,Option.bind_some,hu]⟩

theorem get?_modify? {t u : Indexed κ ν ι index} {k : κ} {f : ν → ν} (h : t.modify? k f = some u)
    (x : κ) : u.get? x = if x = k then (t.get? x).map f else t.get? x := by
  rw [get?,ofTable?_eq_some h,Table.get?_modify]
  rfl

theorem modify?_isSome {t : Indexed κ ν ι index} {k : κ} {f : ν → ν}
    (hfree : ∀ v, t.get? k = some v → ∀ x w i, x ≠ k → t.get? x = some w → index x w = some i →
      index k (f v) = some i → False) : ∃ u, t.modify? k f = some u := by
  apply ofTable?_isSome
  intro a b va vb i ha hb hia hib
  rw [Table.get?_modify] at ha hb
  by_cases hak : a = k
  · subst hak
    rw [if_pos rfl,Option.map_eq_some_iff] at ha
    obtain ⟨v,hv,rfl⟩ := ha
    by_cases hbk : b = a
    · exact hbk.symm
    · rw [if_neg hbk] at hb
      exact (hfree v hv b vb i hbk hb hib hia).elim
  · rw [if_neg hak] at ha
    by_cases hbk : b = k
    · subst hbk
      rw [if_pos rfl,Option.map_eq_some_iff] at hb
      obtain ⟨v,hv,rfl⟩ := hb
      exact (hfree v hv a va i hak ha hia hib).elim
    · rw [if_neg hbk] at hb
      exact t.get?_inj ha hb hia hib

/-- The update of a row that is there. -/
theorem get?_modify?_of_some {t u : Indexed κ ν ι index} {k : κ} {v : ν} {f : ν → ν}
    (hv : t.get? k = some v) (h : t.modify? k f = some u) (x : κ) :
    u.get? x = if x = k then some (f v) else t.get? x := by
  rw [get?_modify? h]
  split
  · next hx => rw [hx,hv,Option.map_some]
  · rfl

omit [DecidableEq ι]

theorem get?_updateWhere_key {t : Indexed κ ν ι index} {k : κ} {v : ν} {f : ν → ν}
    (hf : ∀ k v, index k (f v) = none ∨ index k (f v) = index k v) (hv : t.get? k = some v) (x : κ) :
    (t.updateWhere (fun k' _ => k' == k) f hf).get? x = if x = k then some (f v) else t.get? x := by
  rw [get?_updateWhere]
  by_cases hx : x = k
  · subst hx
    simp [hv]
  · simp [hx]

/-- The row with the given index key. -/
def At (t : Indexed κ ν ι index) (i : ι) (k : κ) : Prop := ∃ v, t.get? k = some v ∧ index k v = some i

theorem At.unique {t : Indexed κ ν ι index} {i : ι} {k k' : κ} (h : t.At i k) (h' : t.At i k') :
    k = k' := by
  obtain ⟨v,hv,hi⟩ := h
  obtain ⟨v',hv',hi'⟩ := h'
  exact t.get?_inj hv hv' hi hi'

theorem At.key_unique {t : Indexed κ ν ι index} {i j : ι} {k : κ} (h : t.At i k) (h' : t.At j k) :
    i = j := by
  obtain ⟨v,hv,hi⟩ := h
  obtain ⟨v',hv',hj⟩ := h'
  rw [hv] at hv'
  cases hv'
  exact Option.some.inj (hi.symm.trans hj)

variable {t u : Indexed κ ν ι index} {k : κ} {v : ν}

theorem at_congr (h : ∀ x, u.get? x = t.get? x) (i : ι) (x : κ) : u.At i x ↔ t.At i x := by
  rw [At,At,h]

/-- After one row is written, it alone may have another index key. -/
theorem at_replaced (h : ∀ x, u.get? x = if x = k then some v else t.get? x) (i : ι) (x : κ) :
    u.At i x ↔ if x = k then index k v = some i else t.At i x := by
  rw [At,h]
  split
  · next hx =>
    subst hx
    simp
  · rfl

/-- The index keys in use after one row is written. -/
theorem exists_at_replaced (h : ∀ x, u.get? x = if x = k then some v else t.get? x) (i : ι) :
    (∃ x, u.At i x) ↔ index k v = some i ∨ (∃ x, t.At i x) ∧ ¬t.At i k := by
  constructor
  · rintro ⟨x,hx⟩
    rw [at_replaced h] at hx
    split at hx
    · exact Or.inl hx
    · next hne => exact Or.inr ⟨⟨x,hx⟩,fun hk => hne (hx.unique hk)⟩
  · rintro (hi | ⟨⟨x,hx⟩,hk⟩)
    · exact ⟨k,(at_replaced h i k).mpr (by rw [if_pos rfl]; exact hi)⟩
    · refine ⟨x,(at_replaced h i x).mpr ?_⟩
      rw [if_neg]
      · exact hx
      · rintro rfl
        exact hk hx

end Indexed
end LatexCore.Foundation
