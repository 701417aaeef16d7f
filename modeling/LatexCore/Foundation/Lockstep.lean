import Mathlib.Data.List.Forall2
import Mathlib.Data.List.Perm.Basic
import LatexCore.Foundation.Table

/-! # Two runs in lockstep

Two fallible computations run in lockstep if they fail with the same error or end in
related results. Steps of two such runs compose, over lists with related elements too.
Lists are related element by element and tables row by row; the operations on tables that look at keys and at what
related values share keep them so.
-/
namespace LatexCore.Foundation

inductive Lockstep {ε α α' : Type} (related : α → α' → Prop) : Except ε α → Except ε α' → Prop
  | fails (e : ε) : Lockstep related (.error e) (.error e)
  | ends {a : α} {a' : α'} (h : related a a') : Lockstep related (.ok a) (.ok a')

namespace Lockstep
variable {ε α α' β β' γ : Type} {related : α → α' → Prop} {related' : β → β' → Prop}
variable {x : Except ε α} {x' : Except ε α'}

theorem pure {a : α} {a' : α'} (h : related a a') :
    Lockstep related (Pure.pure a : Except ε α) (Pure.pure a') := .ends h

theorem bind {f : α → Except ε β} {f' : α' → Except ε β'} (h : Lockstep related x x')
    (hnext : ∀ a a', related a a' → Lockstep related' (f a) (f' a')) : Lockstep related' (x >>= f) (x' >>= f') := by
  cases h with
  | fails e => exact .fails e
  | ends h => exact hnext _ _ h

/-- A first step that both runs share. -/
theorem share (x : Except ε γ) {f : γ → Except ε β} {f' : γ → Except ε β'}
    (hnext : ∀ c, x = .ok c → Lockstep related' (f c) (f' c)) : Lockstep related' (x >>= f) (x >>= f') := by
  cases x with
  | error e => exact .fails e
  | ok c => exact hnext c rfl

theorem foldlM {xs : List β} {ys : List β'} {f : α → β → Except ε α} {g : α' → β' → Except ε α'} {a : α} {a' : α'}
    (hlist : List.Forall₂ related' xs ys) (h : related a a')
    (hstep : ∀ a a' x y, related a a' → related' x y → Lockstep related (f a x) (g a' y)) :
    Lockstep related (xs.foldlM f a) (ys.foldlM g a') := by
  induction hlist generalizing a a' with
  | nil => exact .ends h
  | cons hfirst _ ih =>
    rw [List.foldlM_cons,List.foldlM_cons]
    exact (hstep _ _ _ _ h hfirst).bind (fun _ _ hnext => ih hnext)

/-- What is read alike of related results is the same of both runs. -/
theorem map_eq {f : α → γ} {f' : α' → γ} (h : Lockstep related x x') (hread : ∀ a a', related a a' → f a = f' a') :
    x.map f = x'.map f' := by
  cases h with
  | fails e => rfl
  | ends h => exact congrArg Except.ok (hread _ _ h)

/-- The relation of the results may use how the runs came to them. -/
theorem strengthen {stronger : α → α' → Prop} (h : Lockstep related x x')
    (hends : ∀ a a', x = .ok a → x' = .ok a' → related a a' → stronger a a') : Lockstep stronger x x' := by
  cases h with
  | fails e => exact .fails e
  | ends h => exact .ends (hends _ _ rfl rfl h)

end Lockstep

theorem foldlM_related {ε α β β' : Type} {related : β → β' → Prop} {xs : List β} {ys : List β'}
    {f : α → β → Except ε α} {g : α → β' → Except ε α} (hlist : List.Forall₂ related xs ys)
    (hstep : ∀ a x y, related x y → f a x = g a y) (a : α) : xs.foldlM f a = ys.foldlM g a := by
  induction hlist generalizing a with
  | nil => rfl
  | cons hfirst _ ih =>
    rw [List.foldlM_cons,List.foldlM_cons,hstep a _ _ hfirst]
    congr 1
    funext b
    exact ih b

theorem forall₂_mergeSort {α β : Type} {related : α → β → Prop} {le : α → α → Bool} {le' : β → β → Bool}
    {xs : List α} {ys : List β} (h : List.Forall₂ related xs ys)
    (hle : ∀ a b a' b', related a a' → related b b' → le a b = le' a' b') :
    List.Forall₂ related (xs.mergeSort le) (ys.mergeSort le') := by
  have hpairs : ∃ pairs : List (α × β), pairs.map Prod.fst = xs ∧ pairs.map Prod.snd = ys ∧
      ∀ p ∈ pairs, related p.1 p.2 := by
    induction h with
    | nil => exact ⟨[],rfl,rfl,by simp⟩
    | cons hfirst _ ih =>
      obtain ⟨pairs,hfst,hsnd,hall⟩ := ih
      exact ⟨(_,_) :: pairs,by rw [List.map_cons,hfst],by rw [List.map_cons,hsnd],
        List.forall_mem_cons.mpr ⟨hfirst,hall⟩⟩
  obtain ⟨pairs,rfl,rfl,hall⟩ := hpairs
  have hfst : (pairs.mergeSort (fun p q => le p.1 q.1)).map Prod.fst = (pairs.map Prod.fst).mergeSort le :=
    List.map_mergeSort (fun _ _ _ _ => rfl)
  have hsnd : (pairs.mergeSort (fun p q => le p.1 q.1)).map Prod.snd = (pairs.map Prod.snd).mergeSort le' :=
    List.map_mergeSort (fun p hp q hq => hle _ _ _ _ (hall p hp) (hall q hq))
  rw [← hfst,← hsnd,List.forall₂_map_left_iff,List.forall₂_map_right_iff,List.forall₂_same]
  intro p hp
  exact hall p (List.mem_mergeSort.mp hp)

/-! ## Related lists -/

section Related
variable {α β : Type} {related : α → β → Prop} {as : List α} {bs : List β}
variable (h : List.Forall₂ related as bs)
include h

theorem related_left : ∀ a ∈ as, ∃ b ∈ bs, related a b := by
  induction h with
  | nil => simp
  | cons hfirst _ ih =>
    refine List.forall_mem_cons.mpr ⟨⟨_,List.mem_cons_self,hfirst⟩,fun a ha => ?_⟩
    obtain ⟨b,hb,hab⟩ := ih a ha
    exact ⟨b,List.mem_cons_of_mem _ hb,hab⟩

theorem related_right : ∀ b ∈ bs, ∃ a ∈ as, related a b := related_left h.flip

theorem related_get {i : ℕ} {a : α} {b : β} (ha : as[i]? = some a) (hb : bs[i]? = some b) :
    related a b := by
  induction h generalizing i with
  | nil => simp at ha
  | cons hfirst _ ih =>
    cases i with
    | zero =>
      obtain rfl := Option.some.inj ha
      obtain rfl := Option.some.inj hb
      exact hfirst
    | succ i => exact ih (by simpa using ha) (by simpa using hb)

theorem related_all {p : α → Prop} {q : β → Prop} (hpq : ∀ a b, related a b → (p a ↔ q b)) :
    (∀ a ∈ as, p a) ↔ ∀ b ∈ bs, q b := by
  induction h with
  | nil => simp
  | cons hab _ ih => rw [List.forall_mem_cons,List.forall_mem_cons,hpq _ _ hab,ih]

theorem related_pairwise {p : α → α → Prop} {q : β → β → Prop}
    (hpq : ∀ a b a' b', related a b → related a' b' → (p a a' ↔ q b b')) : as.Pairwise p ↔ bs.Pairwise q := by
  induction h with
  | nil => simp
  | cons hab hrest ih =>
    rw [List.pairwise_cons,List.pairwise_cons,ih,related_all hrest fun a' b' => hpq _ _ a' b' hab]

end Related

theorem filterMap_related {α β : Type} {f : α → Option β} {as : List α} {bs : List β}
    (h : List.Forall₂ (fun a b => f a = some b) as bs) : as.filterMap f = bs := by
  induction h with
  | nil => rfl
  | cons hfirst _ ih => rw [List.filterMap_cons_some hfirst,ih]

/-! ## Related tables -/

namespace Table
variable {κ ν ν' : Type} {related : κ → ν → ν' → Prop} {t u : Table κ ν} {t' u' : Table κ ν'}

def Related (related : κ → ν → ν' → Prop) (t : Table κ ν) (t' : Table κ ν') : Prop :=
  List.Forall₂ (fun r r' => r.1 = r'.1 ∧ related r.1 r.2 r'.2) t.rows t'.rows

theorem Related.keys (h : Related related t t') : t.rows.map Prod.fst = t'.rows.map Prod.fst := by
  have hkeys : ∀ {rows : List (κ × ν)} {rows' : List (κ × ν')},
      List.Forall₂ (fun r r' => r.1 = r'.1 ∧ related r.1 r.2 r'.2) rows rows' →
      rows.map Prod.fst = rows'.map Prod.fst := by
    intro rows rows' hrows
    induction hrows with
    | nil => rfl
    | cons hfirst _ ih => rw [List.map_cons,List.map_cons,hfirst.1,ih]
  exact hkeys h

theorem related_self {related : κ → ν → ν → Prop} (hsame : ∀ k v, related k v v) (t : Table κ ν) :
    Related related t t := List.forall₂_same.mpr fun r _ => ⟨rfl,hsame r.1 r.2⟩

theorem Related.count {p : κ → ν → Bool} {p' : κ → ν' → Bool} (h : Related related t t')
    (hp : ∀ k v v', related k v v' → p k v = p' k v') : t.count p = t'.count p' := by
  have hcount : ∀ {rows : List (κ × ν)} {rows' : List (κ × ν')},
      List.Forall₂ (fun r r' => r.1 = r'.1 ∧ related r.1 r.2 r'.2) rows rows' →
      rows.countP (fun r => p r.1 r.2) = rows'.countP (fun r => p' r.1 r.2) := by
    intro rows rows' hrows
    induction hrows with
    | nil => rfl
    | cons hfirst _ ih => rw [List.countP_cons,List.countP_cons,ih,hp _ _ _ hfirst.2,hfirst.1]
  exact hcount h

theorem Related.updateWhere {p : κ → ν → Bool} {p' : κ → ν' → Bool} {f : ν → ν} {f' : ν' → ν'}
    (h : Related related t t') (hp : ∀ k v v', related k v v' → p k v = p' k v')
    (hf : ∀ k v v', related k v v' → related k (f v) (f' v')) :
    Related related (t.updateWhere p f) (t'.updateWhere p' f') := by
  refine List.forall₂_map_left_iff.mpr (List.forall₂_map_right_iff.mpr (h.imp fun r r' hr => ?_))
  obtain ⟨hkey,hrelated⟩ := hr
  rw [hp _ _ _ hrelated,← hkey]
  split
  · exact ⟨rfl,hf _ _ _ hrelated⟩
  · exact ⟨hkey,hrelated⟩

theorem Related.insert? [DecidableEq κ] {k : κ} {v : ν} {v' : ν'} (h : Related related t t') (hv : related k v v') :
    t.insert? k v = none ∧ t'.insert? k v' = none ∨
      ∃ u u', t.insert? k v = some u ∧ t'.insert? k v' = some u' ∧ Related related u u' := by
  by_cases hmem : k ∈ t.rows.map Prod.fst
  · have hmem' := hmem
    rw [h.keys] at hmem'
    exact .inl ⟨dif_pos hmem,dif_pos hmem'⟩
  · have hmem' := hmem
    rw [h.keys] at hmem'
    refine .inr ⟨_,_,dif_neg hmem,dif_neg hmem',?_⟩
    exact List.rel_append h (.cons ⟨rfl,hv⟩ .nil)

end Table

end LatexCore.Foundation
