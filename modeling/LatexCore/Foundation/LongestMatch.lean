import LatexCore.Foundation.Table
import Mathlib.Algebra.Order.Ring.Nat

/-! # Rules by the longest match

A path is answered by the rule that is the path itself, else by the rule that
reaches furthest into it. A scan in any order of the rules finds that answer, as
no two rules reach equally far. Where rules are only raised, and a new rule is no
lower than the answer it replaces, no answer is ever lowered.
-/
namespace LatexCore.Foundation
variable {κ β : Type}

structure Reach (κ : Type) where
  reach : κ → κ → Option ℕ
  unique : ∀ {rule other path n}, reach rule path = some n → reach other path = some n → rule = other
  nested : ∀ {rule other path n m}, reach rule path = some n → reach other path = some m → m < n →
    reach other rule = some m
  below : ∀ {rule other path n m}, reach rule path = some n → reach other rule = some m →
    reach other path = some m

namespace Reach
variable (c : Reach κ)

/-- What a set of rules says about a path, if it says anything. -/
inductive Answer (rules : κ → Option β) (path : κ) : Option β → Prop
  | exact {value : β} (own : rules path = some value) : Answer rules path (some value)
  | furthest {rule : κ} {value : β} {n : ℕ} (own : rules path = none) (here : rules rule = some value)
    (reaches : c.reach rule path = some n)
    (most : ∀ other v m, rules other = some v → c.reach other path = some m → m ≤ n) :
    Answer rules path (some value)
  | missing (own : rules path = none) (out : ∀ rule v, rules rule = some v → c.reach rule path = none) :
    Answer rules path none

def scan [DecidableEq κ] (path : κ) (selected : Option (ℕ × β)) : List (κ × β) → Option β
  | [] => selected.map Prod.snd
  | (rule,value) :: rows =>
    if rule = path then some value
    else match c.reach rule path with
      | some n => scan path (if selected.all (fun s => s.1 < n) then some (n,value) else selected) rows
      | none => scan path selected rows

variable {c} {rules later : κ → Option β} {path : κ}

theorem Answer.unique {o o' : Option β} (h : c.Answer rules path o) (h' : c.Answer rules path o') :
    o = o' := by
  cases h with
  | exact own =>
    cases h' with
    | exact own' => exact own.symm.trans own'
    | furthest own' _ _ _ =>
      rw [own] at own'
      cases own'
    | missing own' _ =>
      rw [own] at own'
      cases own'
  | furthest own here reaches most =>
    cases h' with
    | exact own' =>
      rw [own] at own'
      cases own'
    | furthest _ here' reaches' most' =>
      have hle := most _ _ _ here' reaches'
      have hge := most' _ _ _ here reaches
      have hsame := le_antisymm hge hle
      subst hsame
      have hrule := c.unique reaches reaches'
      subst hrule
      exact here.symm.trans here'
    | missing _ out =>
      rw [out _ _ here] at reaches
      cases reaches
  | missing own out =>
    cases h' with
    | exact own' =>
      rw [own] at own'
      cases own'
    | furthest _ here reaches _ =>
      rw [out _ _ here] at reaches
      cases reaches
    | missing _ _ => rfl

section Scan
variable [DecidableEq κ]

structure Passed (c : Reach κ) (path : κ) (rows : List (κ × β)) (selected : Option (ℕ × β)) : Prop where
  other : ∀ r ∈ rows, r.1 ≠ path
  found : ∀ s, selected = some s → ∃ r ∈ rows, r.2 = s.2 ∧ c.reach r.1 path = some s.1
  most : ∀ r ∈ rows, ∀ n, c.reach r.1 path = some n → ∃ s, selected = some s ∧ n ≤ s.1

omit [DecidableEq κ] in
theorem Passed.next {rows : List (κ × β)} {selected : Option (ℕ × β)} (h : c.Passed path rows selected)
    {rule : κ} (value : β) (hne : rule ≠ path) :
    c.Passed path (rows ++ [(rule,value)]) (match c.reach rule path with
      | some n => if selected.all (fun s => s.1 < n) then some (n,value) else selected
      | none => selected) := by
  have hother : ∀ r ∈ rows ++ [(rule,value)], r.1 ≠ path := by
    intro r hr
    rcases List.mem_append.mp hr with hr | hr
    · exact h.other r hr
    · rw [List.mem_singleton.mp hr]
      exact hne
  have hold : ∀ s, selected = some s →
      ∃ r ∈ rows ++ [(rule,value)], r.2 = s.2 ∧ c.reach r.1 path = some s.1 := by
    intro s hs
    obtain ⟨r,hr,hboth⟩ := h.found s hs
    exact ⟨r,List.mem_append_left _ hr,hboth⟩
  cases hreach : c.reach rule path with
  | none =>
    refine ⟨hother,hold,?_⟩
    intro r hr n hn
    rcases List.mem_append.mp hr with hr | hr
    · exact h.most r hr n hn
    · rw [List.mem_singleton.mp hr,hreach] at hn
      cases hn
  | some n =>
    dsimp only
    by_cases hall : selected.all (fun s => s.1 < n) = true
    · rw [if_pos hall]
      refine ⟨hother,?_,?_⟩
      · intro s hs
        cases hs
        exact ⟨_,List.mem_append_right _ (List.mem_singleton_self _),rfl,hreach⟩
      · intro r hr m hm
        refine ⟨_,rfl,?_⟩
        rcases List.mem_append.mp hr with hr | hr
        · obtain ⟨s,hs,hle⟩ := h.most r hr m hm
          rw [hs,Option.all_some,decide_eq_true_eq] at hall
          exact hle.trans hall.le
        · rw [List.mem_singleton.mp hr,hreach] at hm
          cases hm
          exact le_rfl
    · rw [if_neg hall]
      refine ⟨hother,hold,?_⟩
      intro r hr m hm
      rcases List.mem_append.mp hr with hr | hr
      · exact h.most r hr m hm
      · rw [List.mem_singleton.mp hr,hreach] at hm
        cases hm
        cases selected with
        | none => exact absurd rfl hall
        | some s =>
          rw [Option.all_some,decide_eq_true_eq,not_lt] at hall
          exact ⟨s,rfl,hall⟩

theorem Passed.scan (t : Table κ β) {passed rows : List (κ × β)} {selected : Option (ℕ × β)}
    (h : c.Passed path passed selected) (hrows : t.rows = passed ++ rows) :
    c.Answer t.get? path (c.scan path selected rows) := by
  induction rows generalizing passed selected with
  | nil =>
    rw [List.append_nil] at hrows
    have hown : t.get? path = none := by
      rw [Table.get?_eq_none_iff,hrows]
      intro hmem
      obtain ⟨r,hr,hpath⟩ := List.mem_map.mp hmem
      exact h.other r hr hpath
    have hrow : ∀ rule v, t.get? rule = some v → (rule,v) ∈ passed := by
      intro rule v hv
      rw [← hrows]
      exact Table.mem_rows_iff.mpr hv
    cases selected with
    | none =>
      refine .missing hown ?_
      intro rule v hv
      cases hreach : c.reach rule path with
      | none => rfl
      | some n =>
        obtain ⟨s,hs,-⟩ := h.most _ (hrow rule v hv) n hreach
        cases hs
    | some s =>
      obtain ⟨⟨rule,value⟩,hr,hvalue,hreach⟩ := h.found s rfl
      have hhere : t.get? rule = some s.2 := by
        rw [← Table.mem_rows_iff,hrows,← hvalue]
        exact hr
      refine .furthest hown hhere hreach ?_
      intro other v m hother hm
      obtain ⟨s',hs',hle⟩ := h.most _ (hrow other v hother) m hm
      cases hs'
      exact hle
  | cons row rows ih =>
    obtain ⟨rule,value⟩ := row
    rw [Reach.scan]
    split
    · next hpath =>
      have hmem : (rule,value) ∈ t.rows := by
        rw [hrows]
        exact List.mem_append_right _ (List.mem_cons_self ..)
      rw [hpath] at hmem
      exact .exact (Table.mem_rows_iff.mp hmem)
    · next hne =>
      have hnext := h.next value hne
      have hsplit : t.rows = (passed ++ [(rule,value)]) ++ rows := by
        rw [hrows,List.append_assoc]
        rfl
      split
      · next n hn =>
        rw [hn] at hnext
        exact ih hnext hsplit
      · next hn =>
        rw [hn] at hnext
        exact ih hnext hsplit

theorem scan_answer (t : Table κ β) (path : κ) : c.Answer t.get? path (c.scan path none t.rows) := by
  have hempty : c.Passed path ([] : List (κ × β)) none := ⟨by simp,by simp,by simp⟩
  exact hempty.scan t rfl

theorem scan_perm (t : Table κ β) {rows : List (κ × β)} (h : rows.Perm t.rows) (path : κ) :
    c.scan path none rows = c.scan path none t.rows := by
  let shuffled : Table κ β := ⟨rows,(h.map Prod.fst).nodup_iff.mpr t.distinct⟩
  have hsame : shuffled.get? = t.get? := by
    funext k
    apply Option.ext
    intro v
    rw [← Table.mem_rows_iff,← Table.mem_rows_iff]
    exact h.mem_iff
  have hshuffled := scan_answer (c := c) shuffled path
  rw [hsame] at hshuffled
  exact hshuffled.unique (scan_answer t path)

end Scan

/-! ## Raised rules -/

variable [Preorder β]

structure Raised (c : Reach κ) (low : β) (rules later : κ → Option β) : Prop where
  kept : ∀ rule v, rules rule = some v → ∃ v', later rule = some v' ∧ v ≤ v'
  added : ∀ rule v, rules rule = none → later rule = some v → ∀ o, c.Answer rules rule o → o.getD low ≤ v

omit [Preorder β] in
theorem Answer.inherit {o : Option β} (h : c.Answer rules path o) {rule : κ} {n : ℕ}
    (hown : rules path = none) (hnew : rules rule = none) (hreach : c.reach rule path = some n)
    (hfar : ∀ other v m, rules other = some v → c.reach other path = some m → m < n) :
    c.Answer rules rule o := by
  cases h with
  | exact own =>
    rw [hown] at own
    cases own
  | furthest _ here reaches most =>
    refine .furthest hnew here (c.nested hreach reaches (hfar _ _ _ here reaches)) ?_
    intro other v m hother hm
    exact most other v m hother (c.below hreach hm)
  | missing _ out =>
    refine .missing hnew ?_
    intro other v hother
    cases hm : c.reach other rule with
    | none => rfl
    | some m =>
      have hpath := c.below hreach hm
      rw [out other v hother] at hpath
      cases hpath

omit [Preorder β] in
theorem Answer.missing_of_kept (hkept : ∀ rule v, rules rule = some v → (later rule).isSome)
    (h : c.Answer later path none) : c.Answer rules path none := by
  cases h with
  | missing own out =>
    refine .missing ?_ ?_
    · cases hrule : rules path with
      | none => rfl
      | some v =>
        have hlater := hkept path v hrule
        rw [own] at hlater
        cases hlater
    · intro rule v hrule
      obtain ⟨v',hv'⟩ := Option.isSome_iff_exists.mp (hkept rule v hrule)
      exact out rule v' hv'

theorem Raised.answer {low : β} (h : c.Raised low rules later) {o o' : Option β}
    (hbefore : c.Answer rules path o) (hafter : c.Answer later path o') : o.getD low ≤ o'.getD low := by
  have hfar : ∀ {rule n}, rules rule = none → c.reach rule path = some n →
      (∀ other v m, later other = some v → c.reach other path = some m → m ≤ n) →
      ∀ other v m, rules other = some v → c.reach other path = some m → m < n := by
    intro rule n hnew hreach hmost other v m hother hm
    obtain ⟨v',hv',-⟩ := h.kept other v hother
    refine lt_of_le_of_ne (hmost other v' m hv' hm) ?_
    rintro rfl
    rw [c.unique hm hreach,hnew] at hother
    cases hother
  cases hown : rules path with
  | some value =>
    obtain ⟨value',hvalue',hle⟩ := h.kept path value hown
    have ho := hbefore.unique (.exact hown)
    have ho' := hafter.unique (.exact hvalue')
    rw [ho,ho']
    exact hle
  | none =>
    cases hafter with
    | exact own => exact h.added path _ hown own o hbefore
    | @furthest rule value n _ here reaches most =>
      cases hrule : rules rule with
      | none =>
        exact h.added rule value hrule here o
          (hbefore.inherit hown hrule reaches (hfar hrule reaches most))
      | some v =>
        obtain ⟨v',hv',hle⟩ := h.kept rule v hrule
        rw [here,Option.some.injEq] at hv'
        subst hv'
        have hbest : c.Answer rules path (some v) := by
          refine .furthest hown hrule reaches ?_
          intro other w m hother hm
          obtain ⟨w',hw',-⟩ := h.kept other w hother
          exact most other w' m hw' hm
        rw [hbefore.unique hbest]
        exact hle
    | missing own out =>
      have hnone : c.Answer rules path none := by
        refine .missing hown ?_
        intro rule v hrule
        obtain ⟨v',hv',-⟩ := h.kept rule v hrule
        exact out rule v' hv'
      rw [hbefore.unique hnone]

end Reach
end LatexCore.Foundation
