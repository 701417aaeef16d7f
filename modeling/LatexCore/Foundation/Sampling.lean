import Mathlib.Algebra.Order.Ring.Nat
import Mathlib.Data.Int.CardIntervalMod
import Mathlib.Data.List.Infix
import Mathlib.Data.Set.Card

/-! # Unbiased sampling

Below a multiple of the bound every residue is taken equally often, so a rejection
above such a limit leaves a uniform index. A shuffle that fills the positions from
the last one down, each from the positions up to it, reaches every arrangement of a
list without repetitions by exactly one sequence of choices.
-/
namespace LatexCore.Foundation
variable {α β : Type*}

/-! ## Residues -/

theorem card_residue {bound index : ℕ} (quotient : ℕ) (h : index < bound) :
    ((Finset.range (bound * quotient)).filter (fun v => v % bound = index)).card = quotient := by
  have hbound : 0 < bound := by omega
  have hcount := Nat.count_modEq_card (b := bound * quotient) hbound index
  rw [Nat.count_eq_card_filter_range,Nat.mul_mod_right,if_neg (Nat.not_lt_zero _),Nat.add_zero,
    Nat.mul_div_cancel_left _ hbound] at hcount
  simp only [Nat.ModEq,Nat.mod_eq_of_lt h] at hcount
  exact hcount

theorem ncard_residue (value : α → ℕ) {bound index quotient : ℕ} (hinjective : Function.Injective value)
    (hall : ∀ v < bound * quotient, ∃ a, value a = v) (h : index < bound) :
    {a | value a < bound * quotient ∧ value a % bound = index}.ncard = quotient := by
  rw [← Set.ncard_image_of_injective _ hinjective]
  have himage : value '' {a | value a < bound * quotient ∧ value a % bound = index} =
      ↑((Finset.range (bound * quotient)).filter (fun v => v % bound = index)) := by
    ext v
    simp only [Set.mem_image,Set.mem_ofPred_eq,Finset.coe_filter,Finset.mem_range]
    constructor
    · rintro ⟨a,ha,rfl⟩
      exact ha
    · intro hv
      obtain ⟨a,rfl⟩ := hall v hv.1
      exact ⟨a,hv,rfl⟩
  rw [himage,Set.ncard_coe_finset,card_residue quotient h]

/-! ## Shuffles -/

def exchange (xs : List α) (i j : ℕ) : Option (List α) := do
  let a ← xs[i]?
  let b ← xs[j]?
  some ((xs.set i b).set j a)

/-- The positions from the given one down to the second, each exchanged with the chosen one. -/
def arranged : ℕ → List α → List ℕ → Option (List α)
  | 0,xs,[] => some xs
  | position + 1,xs,choice :: choices =>
    (exchange xs (position + 1) choice).bind (fun xs => arranged position xs choices)
  | _,_,_ => none

def Choices : ℕ → List ℕ → Prop
  | 0,choices => choices = []
  | _ + 1,[] => False
  | position + 1,choice :: choices => choice ≤ position + 1 ∧ Choices position choices

theorem exchange_eq {xs : List α} {i j : ℕ} (hi : i < xs.length) (hj : j < xs.length) :
    exchange xs i j = some ((xs.set i xs[j]).set j xs[i]) := by
  rw [exchange,List.getElem?_eq_getElem hi,List.getElem?_eq_getElem hj]
  rfl

theorem exchange_perm {xs ys : List α} {i j : ℕ} (h : exchange xs i j = some ys) : ys.Perm xs := by
  simp only [exchange,Option.bind_eq_bind,Option.bind_eq_some_iff] at h
  obtain ⟨a,ha,b,hb,h⟩ := h
  obtain ⟨hi,rfl⟩ := List.getElem?_eq_some_iff.mp ha
  obtain ⟨hj,rfl⟩ := List.getElem?_eq_some_iff.mp hb
  cases h
  exact List.set_set_perm hi hj

theorem exchange_map (f : α → β) (xs : List α) (i j : ℕ) :
    exchange (xs.map f) i j = (exchange xs i j).map (List.map f) := by
  rw [exchange,exchange,List.getElem?_map,List.getElem?_map]
  cases xs[i]? with
  | none => rfl
  | some a =>
    cases xs[j]? with
    | none => rfl
    | some b =>
      rw [Option.map_some,Option.map_some]
      exact congrArg some (by rw [List.map_set,List.map_set])

/-- The last position takes the chosen element. -/
theorem exchange_last {xs : List α} {last choice : ℕ} (hlast : xs.length = last + 1) (hchoice : choice ≤ last) :
    ∃ front, exchange xs last choice = some (front ++ [xs[choice]]) ∧ front.length = last := by
  have hnonempty : (xs.set last xs[choice]).set choice xs[last] ≠ [] := by
    intro h
    have hlength := congrArg List.length h
    simp [hlast] at hlength
  refine ⟨((xs.set last xs[choice]).set choice xs[last]).dropLast,?_,by simp [hlast]⟩
  rw [exchange_eq (by omega) (by omega)]
  refine congrArg some ?_
  rw [← List.dropLast_append_getLast hnonempty,List.dropLast_concat]
  refine congrArg _ (congrArg (fun x => [x]) ?_)
  rw [List.getLast_eq_getElem]
  by_cases hsame : choice = last
  · subst hsame
    simp [hlast]
  · simp [hlast,hsame]

theorem exchange_append {xs ys : List α} {i j : ℕ} (more : List α) (h : exchange xs i j = some ys) :
    exchange (xs ++ more) i j = some (ys ++ more) := by
  simp only [exchange,Option.bind_eq_bind,Option.bind_eq_some_iff] at h
  obtain ⟨a,ha,b,hb,h⟩ := h
  obtain ⟨hi,rfl⟩ := List.getElem?_eq_some_iff.mp ha
  obtain ⟨hj,rfl⟩ := List.getElem?_eq_some_iff.mp hb
  cases h
  have hi' : i < (xs ++ more).length := by rw [List.length_append]; omega
  have hj' : j < (xs ++ more).length := by rw [List.length_append]; omega
  rw [exchange_eq hi' hj',List.getElem_append_left hi,List.getElem_append_left hj,
    List.set_append_left _ _ hi,List.set_append_left _ _ (by rw [List.length_set]; exact hj)]

theorem arranged_perm {position : ℕ} {xs ys : List α} {choices : List ℕ}
    (h : arranged position xs choices = some ys) : ys.Perm xs := by
  induction position generalizing xs choices with
  | zero =>
    cases choices with
    | nil => exact Option.some.inj h ▸ List.Perm.refl _
    | cons choice choices => cases h
  | succ position ih =>
    cases choices with
    | nil => cases h
    | cons choice choices =>
      obtain ⟨zs,hzs,h⟩ := Option.bind_eq_some_iff.mp h
      exact (ih h).trans (exchange_perm hzs)

theorem arranged_map (f : α → β) (position : ℕ) (xs : List α) (choices : List ℕ) :
    arranged position (xs.map f) choices = (arranged position xs choices).map (List.map f) := by
  induction position generalizing xs choices with
  | zero => cases choices <;> rfl
  | succ position ih =>
    cases choices with
    | nil => rfl
    | cons choice choices =>
      rw [arranged,arranged,exchange_map,Option.bind_map,Option.map_bind]
      exact congrArg _ (funext fun zs => ih zs choices)

theorem arranged_append {position : ℕ} {xs : List α} {choices : List ℕ} (more : List α)
    (hlength : position < xs.length) (h : Choices position choices) :
    arranged position (xs ++ more) choices = (arranged position xs choices).map (· ++ more) := by
  induction position generalizing xs choices with
  | zero => rw [show choices = [] from h,arranged,arranged,Option.map_some]
  | succ position ih =>
    cases choices with
    | nil => cases h
    | cons choice choices =>
      have hchoice : choice < xs.length := by
        have := h.1
        omega
      have hexchange := exchange_eq hlength hchoice
      rw [arranged,arranged,exchange_append more hexchange,hexchange]
      exact ih (by simp only [List.length_set]; omega) h.2

theorem arranged_cons {position choice : ℕ} {xs : List α} (hlength : xs.length = position + 2)
    (hchoice : choice < xs.length) :
    ∃ rest : List α, rest.length = position + 1 ∧ (rest ++ [xs[choice]]).Perm xs ∧
      ∀ choices, Choices position choices →
        arranged (position + 1) xs (choice :: choices) =
          (arranged position rest choices).map (· ++ [xs[choice]]) := by
  obtain ⟨rest,hrest,hsize⟩ := exchange_last hlength (by omega : choice ≤ position + 1)
  refine ⟨rest,hsize,exchange_perm hrest,?_⟩
  intro choices hchoices
  rw [arranged,hrest]
  exact arranged_append _ (by omega) hchoices

theorem existsUnique_choices {position : ℕ} {xs ys : List α} (hlength : xs.length = position + 1)
    (hnodup : xs.Nodup) (hperm : ys.Perm xs) :
    ∃! choices, Choices position choices ∧ arranged position xs choices = some ys := by
  induction position generalizing xs ys with
  | zero =>
    obtain ⟨x,rfl⟩ := List.length_eq_one_iff.mp hlength
    rw [List.perm_singleton] at hperm
    subst hperm
    exact ⟨[],⟨rfl,rfl⟩,fun choices h => h.1⟩
  | succ position ih =>
    have hys : ys ≠ [] := by
      rintro rfl
      rw [hperm.symm.eq_nil] at hlength
      cases hlength
    obtain ⟨front,last,rfl⟩ : ∃ front last, ys = front ++ [last] :=
      ⟨ys.dropLast,ys.getLast hys,(List.dropLast_append_getLast hys).symm⟩
    obtain ⟨choice,hchoice,rfl⟩ := List.mem_iff_getElem.mp
      (hperm.subset (List.mem_append_right front (List.mem_singleton_self last)))
    obtain ⟨rest,hsize,hrest,hall⟩ := arranged_cons hlength hchoice
    have hnodup' : rest.Nodup := (hrest.nodup_iff.mpr hnodup).of_append_left
    have hfront : front.Perm rest := (List.perm_append_right_iff _).mp (hperm.trans hrest.symm)
    obtain ⟨choices,⟨hchoices,harranged⟩,hunique⟩ := ih hsize hnodup' hfront
    refine ⟨choice :: choices,⟨⟨by omega,hchoices⟩,by rw [hall choices hchoices,harranged]; rfl⟩,?_⟩
    rintro other ⟨hother,hresult⟩
    cases other with
    | nil => cases hother
    | cons first others =>
      have hfirst : first < xs.length := by
        have := hother.1
        omega
      obtain ⟨rest',-,-,hall'⟩ := arranged_cons hlength hfirst
      obtain ⟨zs,-,hzs⟩ := Option.map_eq_some_iff.mp ((hall' others hother.2).symm.trans hresult)
      have hsame : first = choice :=
        (hnodup.getElem_inj_iff).mp (List.cons.inj (List.append_inj_right' hzs rfl)).1
      subst hsame
      obtain ⟨zs,harranged',hzs⟩ := Option.map_eq_some_iff.mp ((hall others hother.2).symm.trans hresult)
      rw [List.append_cancel_right hzs] at harranged'
      rw [hunique others ⟨hother.2,harranged'⟩]

end LatexCore.Foundation
