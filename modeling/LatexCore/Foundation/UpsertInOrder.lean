import LatexCore.Foundation.UniqueIndex

/-! # Upserts of one statement, row by row

A statement that writes many rows checks a unique index after each of them. So
the order of the rows decides: a row can take an index key that another row held
only when the other row is written first. The main rule says exactly when the
statement goes through; rows that the statement keeps are never written.
-/
namespace LatexCore.Foundation.Indexed
variable {κ ν ι : Type*} {index : κ → ν → Option ι} [DecidableEq κ] [DecidableEq ι]
variable {t u : Indexed κ ν ι index} {k x : κ} {v : ν} {keys : List κ}

/-- `INSERT … ON CONFLICT DO UPDATE` of one row. -/
def upsert? (t : Indexed κ ν ι index) (k : κ) (v : ν) : Option (Indexed κ ν ι index) :=
  if (t.get? k).isSome then t.modify? k (fun _ => v) else t.insert? k v

theorem get?_upsert? (h : t.upsert? k v = some u) (x : κ) :
    u.get? x = if x = k then some v else t.get? x := by
  unfold upsert? at h
  split at h
  · next hsome =>
    obtain ⟨w,hw⟩ := Option.isSome_iff_exists.mp hsome
    exact get?_modify?_of_some hw h x
  · exact (insert?_eq_some h).2 x

theorem upsert?_isSome_iff :
    (∃ u, t.upsert? k v = some u) ↔ ∀ i x, index k v = some i → t.At i x → x = k := by
  constructor
  · rintro ⟨u,hu⟩ i x hi ⟨w,hw,hx⟩
    by_contra hne
    have hget := get?_upsert? hu
    have hself : u.get? k = some v := (hget k).trans (if_pos rfl)
    have hother : u.get? x = some w := (hget x).trans ((if_neg hne).trans hw)
    exact hne (u.get?_inj hother hself hx hi)
  · intro h
    unfold upsert?
    split
    · apply modify?_isSome
      intro _ _ x w i hne hw hx hi
      exact hne (h i x hi ⟨w,hw,hx⟩)
    · next hnone =>
      rw [Option.not_isSome_iff_eq_none] at hnone
      apply insert?_isSome hnone
      intro x w i hw hx hi
      rw [h i x hi ⟨w,hw,hx⟩,hnone] at hw
      cases hw

variable (keep : ν → Bool) (new : κ → ν)

def upsertUnless? (t : Indexed κ ν ι index) (k : κ) : Option (Indexed κ ν ι index) :=
  if (t.get? k).any keep then some t else t.upsert? k (new k)

/-- The upserts of a statement, in the order of its rows. -/
def upsertEach? : List κ → Indexed κ ν ι index → Option (Indexed κ ν ι index)
  | [], t => some t
  | k :: rest, t => (t.upsertUnless? keep new k).bind (upsertEach? rest)

/-- One row comes before another. -/
def Precedes (keys : List κ) (x k : κ) : Prop := ∃ done rest, keys = done ++ k :: rest ∧ x ∈ done

variable {keep new}

theorem get?_upsertUnless? (h : t.upsertUnless? keep new k = some u) (x : κ) :
    u.get? x = if x = k ∧ (t.get? k).any keep = false then some (new k) else t.get? x := by
  unfold upsertUnless? at h
  split at h
  · next hkeep =>
    cases h
    rw [if_neg]
    rintro ⟨-,hfalse⟩
    rw [hkeep] at hfalse
    cases hfalse
  · next hkeep =>
    rw [Bool.not_eq_true] at hkeep
    rw [get?_upsert? h x]
    simp only [hkeep,and_true]

/-- The rows after the statement: those that it visits are new, unless they are kept. -/
theorem get?_upsertEach? (hnodup : keys.Nodup) (h : upsertEach? keep new keys t = some u) (x : κ) :
    u.get? x = if x ∈ keys ∧ (t.get? x).any keep = false then some (new x) else t.get? x := by
  induction keys generalizing t with
  | nil =>
    cases h
    simp
  | cons k rest ih =>
    obtain ⟨middle,hmiddle,hrest⟩ := Option.bind_eq_some_iff.mp h
    obtain ⟨hnot,hnodup'⟩ := List.nodup_cons.mp hnodup
    have hget := get?_upsertUnless? hmiddle x
    rw [ih hnodup' hrest,hget]
    by_cases hx : x = k
    · subst hx
      simp [hnot]
    · simp [hx]

omit [DecidableEq κ] in
theorem precedes_cons (hne : k ≠ x) {y : κ} :
    Precedes (k :: keys) y x ↔ y = k ∧ x ∈ keys ∨ Precedes keys y x := by
  constructor
  · rintro ⟨done,rest,heq,hy⟩
    cases done with
    | nil => cases hy
    | cons a done =>
      rw [List.cons_append,List.cons.injEq] at heq
      obtain ⟨rfl,rfl⟩ := heq
      rcases List.mem_cons.mp hy with rfl | hy
      · exact Or.inl ⟨rfl,by simp⟩
      · exact Or.inr ⟨done,rest,rfl,hy⟩
  · rintro (⟨rfl,hx⟩ | ⟨done,rest,rfl,hy⟩)
    · obtain ⟨done,rest,rfl⟩ := List.append_of_mem hx
      exact ⟨y :: done,rest,rfl,List.mem_cons_self ..⟩
    · exact ⟨k :: done,rest,rfl,List.mem_cons_of_mem _ hy⟩

omit [DecidableEq κ] in
theorem not_precedes_head (hnodup : (k :: keys).Nodup) : ¬Precedes (k :: keys) x k := by
  rintro ⟨done,rest,heq,hx⟩
  cases done with
  | nil => cases hx
  | cons a done =>
    rw [List.cons_append,List.cons.injEq] at heq
    obtain ⟨rfl,rfl⟩ := heq
    exact (List.nodup_cons.mp hnodup).1 (by simp)

/-- The statement goes through exactly when each index key that it writes is free: another row
that holds the key is itself rewritten, and earlier. -/
theorem upsertEach?_isSome_iff (hnodup : keys.Nodup)
    (hapart : ∀ k ∈ keys, ∀ k' ∈ keys, ∀ i, index k (new k) = some i → index k' (new k') = some i →
      k = k') :
    (∃ u, upsertEach? keep new keys t = some u) ↔
      ∀ k ∈ keys, (t.get? k).any keep = false → ∀ i x, index k (new k) = some i → t.At i x → x ≠ k →
        (t.get? x).any keep = false ∧ Precedes keys x k := by
  induction keys generalizing t with
  | nil => simp [upsertEach?]
  | cons k rest ih =>
    obtain ⟨hnot,hnodup'⟩ := List.nodup_cons.mp hnodup
    have hapart' : ∀ a ∈ rest, ∀ b ∈ rest, ∀ i, index a (new a) = some i →
        index b (new b) = some i → a = b := fun a ha b hb =>
      hapart a (List.mem_cons_of_mem _ ha) b (List.mem_cons_of_mem _ hb)
    have hne {a : κ} (ha : a ∈ rest) : k ≠ a := fun he => hnot (he ▸ ha)
    by_cases hkeep : (t.get? k).any keep = true
    · have hsame : upsertEach? keep new (k :: rest) t = upsertEach? keep new rest t := by
        simp [upsertEach?,upsertUnless?,hkeep]
      rw [hsame,ih hnodup' hapart',List.forall_mem_cons]
      constructor
      · intro h
        refine ⟨fun hfalse => absurd (hkeep.symm.trans hfalse) (by decide),?_⟩
        intro a ha hold i x hi hx hxa
        obtain ⟨hkept,hbefore⟩ := h a ha hold i x hi hx hxa
        exact ⟨hkept,(precedes_cons (hne ha)).mpr (Or.inr hbefore)⟩
      · rintro ⟨-,h⟩ a ha hold i x hi hx hxa
        obtain ⟨hkept,hbefore⟩ := h a ha hold i x hi hx hxa
        rcases (precedes_cons (hne ha)).mp hbefore with ⟨rfl,-⟩ | hbefore
        · rw [hkeep] at hkept
          cases hkept
        · exact ⟨hkept,hbefore⟩
    · rw [Bool.not_eq_true] at hkeep
      have hstep : upsertEach? keep new (k :: rest) t =
          (t.upsert? k (new k)).bind (upsertEach? keep new rest) := by
        simp [upsertEach?,upsertUnless?,hkeep]
      rw [hstep,List.forall_mem_cons]
      have hhead : (∀ i x, index k (new k) = some i → t.At i x → x ≠ k →
          (t.get? x).any keep = false ∧ Precedes (k :: rest) x k) ↔
            ∃ u, t.upsert? k (new k) = some u := by
        rw [upsert?_isSome_iff]
        constructor
        · intro h i x hi hx
          by_contra hxk
          exact not_precedes_head hnodup (h i x hi hx hxk).2
        · intro h i x hi hx hxk
          exact absurd (h i x hi hx) hxk
      simp only [hkeep,forall_const,hhead]
      constructor
      · rintro ⟨u,hu⟩
        obtain ⟨middle,hmiddle,hrest⟩ := Option.bind_eq_some_iff.mp hu
        refine ⟨⟨middle,hmiddle⟩,?_⟩
        have hget := get?_upsert? hmiddle
        have htail := (ih (t := middle) hnodup' hapart').mp ⟨u,hrest⟩
        intro a ha hold i x hi hx hxa
        rw [precedes_cons (hne ha)]
        by_cases hxk : x = k
        · subst hxk
          exact ⟨hkeep,Or.inl ⟨rfl,ha⟩⟩
        · have hold' : (middle.get? a).any keep = false := by
            rw [hget,if_neg (hne ha).symm]
            exact hold
          have hx' : middle.At i x := (at_replaced hget i x).mpr (by rw [if_neg hxk]; exact hx)
          obtain ⟨hkept,hbefore⟩ := htail a ha hold' i x hi hx' hxa
          rw [hget,if_neg hxk] at hkept
          exact ⟨hkept,Or.inr hbefore⟩
      · rintro ⟨⟨middle,hmiddle⟩,h⟩
        have hget := get?_upsert? hmiddle
        rw [hmiddle,Option.bind_some,ih hnodup' hapart']
        intro a ha hold i x hi hx hxa
        rw [hget,if_neg (hne ha).symm] at hold
        rw [at_replaced hget] at hx
        split at hx
        · next hxk =>
          exact absurd (hapart k (List.mem_cons_self ..) a (List.mem_cons_of_mem _ ha) i hx hi) (hne ha)
        · next hxk =>
          obtain ⟨hkept,hbefore⟩ := h a ha hold i x hi hx hxa
          rcases (precedes_cons (hne ha)).mp hbefore with ⟨rfl,-⟩ | hbefore
          · exact absurd rfl hxk
          · rw [hget,if_neg hxk]
            exact ⟨hkept,hbefore⟩

end LatexCore.Foundation.Indexed
