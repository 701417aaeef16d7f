import LatexCore.Foundation.Sampling
import LatexCore.Institution.Provisioning
import Mathlib.Data.Bool.AllAny
import Mathlib.Data.List.GetD

/-! # Temporary passwords

The generator of temporary passwords over the words that the operating system gives.
An index is drawn by rejection, so a call may wait for another word, and the
arithmetic and the accesses of the source may panic. A password is drawn with one
character of each kind and is shuffled from its end.
-/
namespace LatexCore.Credentials
open Foundation
open Institution (upperAlphabet lowerAlphabet digits easyAlphabet temporaryPasswordLength)
variable {α β : Type}

/-- Why a call has not returned. -/
inductive Stop
  | panic | waiting
deriving DecidableEq

/-- A computation takes its random words from the front of those that the generator gives. -/
abbrev Draw (α : Type) := StateT (List UInt32) (Except Stop) α

def u32Max : UInt32 := 0xFFFFFFFF

def rejectionLimit (bound : UInt32) : UInt32 := u32Max - u32Max % bound

/-- The loop of `secure_index`. -/
def firstAccepted (bound limit : UInt32) : List UInt32 → Except Stop (ℕ × List UInt32)
  | [] => .error .waiting
  | candidate :: words =>
    if candidate < limit then .ok ((candidate % bound).toNat,words) else firstAccepted bound limit words

/-- A bound that is no `u32` is unreachable, and the remainder by zero panics. -/
def secureIndex (upperBound : ℕ) : Draw ℕ := fun words =>
  if upperBound < UInt32.size then
    if upperBound = 0 then .error .panic
    else firstAccepted (.ofNat upperBound) (rejectionLimit (.ofNat upperBound)) words
  else .error .panic

def pick (alphabet : List Char) : Draw Char := do
  let index ← secureIndex alphabet.length
  match alphabet[index]? with
  | some c => pure c
  | none => throw .panic

def pickEach : ℕ → Draw (List Char)
  | 0 => pure []
  | n + 1 => do
    let c ← pick easyAlphabet
    let rest ← pickEach n
    pure (c :: rest)

/-- `swap` of a slice. -/
def swap (password : List Char) (i j : ℕ) : Draw (List Char) :=
  match exchange password i j with
  | some password => pure password
  | none => throw .panic

/-- The loop over the indices from this one down to the second. -/
def shuffleFrom : ℕ → List Char → Draw (List Char)
  | 0,password => pure password
  | index + 1,password => do
    let choice ← secureIndex (index + 2)
    let password ← swap password (index + 1) choice
    shuffleFrom index password

def temporaryPassword : Draw String := do
  let upper ← pick upperAlphabet
  let lower ← pick lowerAlphabet
  let digit ← pick digits
  let others ← pickEach (temporaryPasswordLength - 3)
  let password ← shuffleFrom (temporaryPasswordLength - 1) (upper :: lower :: digit :: others)
  pure (String.ofList password)

/-! ## Indices -/

/-- The bounds of the source, which fit in `u32`. -/
def InRange (bound : ℕ) : Prop := 1 ≤ bound ∧ bound ≤ 2 ^ 32 - 1

theorem InRange.toNat_ofNat {bound : ℕ} (h : InRange bound) : (UInt32.ofNat bound).toNat = bound :=
  UInt32.toNat_ofNat_of_lt (by
    have := h.2
    rw [UInt32.size]
    omega)

theorem rejectionLimit_toNat {bound : ℕ} (h : InRange bound) :
    (rejectionLimit (.ofNat bound)).toNat = bound * ((2 ^ 32 - 1) / bound) := by
  have hmod : (u32Max % UInt32.ofNat bound).toNat = (2 ^ 32 - 1) % bound := by
    rw [UInt32.toNat_mod,h.toNat_ofNat]
    rfl
  have hle : u32Max % UInt32.ofNat bound ≤ u32Max := by
    rw [UInt32.le_iff_toNat_le,hmod]
    exact Nat.mod_le _ _
  rw [rejectionLimit,UInt32.toNat_sub_of_le _ _ hle,hmod]
  have hdivision := Nat.div_add_mod (2 ^ 32 - 1) bound
  have hvalue : u32Max.toNat = 2 ^ 32 - 1 := rfl
  omega

theorem firstAccepted_eq_ok {bound limit : UInt32} {words rest : List UInt32} {index : ℕ} :
    firstAccepted bound limit words = .ok (index,rest) ↔
      ∃ rejected candidate, words = rejected ++ candidate :: rest ∧ (∀ w ∈ rejected, ¬ w < limit) ∧
        candidate < limit ∧ (candidate % bound).toNat = index := by
  induction words with
  | nil => simp [firstAccepted]
  | cons word words ih =>
    rw [firstAccepted]
    split
    · next hlt =>
      constructor
      · intro h
        cases h
        exact ⟨[],word,rfl,by simp,hlt,rfl⟩
      · rintro ⟨rejected,candidate,hwords,hrejected,hcandidate,hindex⟩
        cases rejected with
        | nil =>
          obtain ⟨rfl,rfl⟩ := List.cons.inj hwords
          rw [hindex]
        | cons first rejected =>
          obtain ⟨rfl,-⟩ := List.cons.inj hwords
          exact absurd hlt (hrejected _ List.mem_cons_self)
    · next hlt =>
      rw [ih]
      constructor
      · rintro ⟨rejected,candidate,rfl,hrejected,hcandidate⟩
        exact ⟨word :: rejected,candidate,rfl,List.forall_mem_cons.mpr ⟨hlt,hrejected⟩,hcandidate⟩
      · rintro ⟨rejected,candidate,hwords,hrejected,hcandidate,hindex⟩
        cases rejected with
        | nil =>
          obtain ⟨rfl,-⟩ := List.cons.inj hwords
          exact absurd hcandidate hlt
        | cons first rejected =>
          obtain ⟨rfl,rfl⟩ := List.cons.inj hwords
          exact ⟨rejected,candidate,rfl,(List.forall_mem_cons.mp hrejected).2,hcandidate,hindex⟩

theorem firstAccepted_ne_panic (bound limit : UInt32) (words : List UInt32) :
    firstAccepted bound limit words ≠ .error .panic := by
  induction words with
  | nil => simp [firstAccepted]
  | cons word words ih =>
    rw [firstAccepted]
    split
    · simp
    · exact ih

theorem secureIndex_eq {bound : ℕ} (h : InRange bound) (words : List UInt32) :
    secureIndex bound words = firstAccepted (.ofNat bound) (rejectionLimit (.ofNat bound)) words := by
  obtain ⟨hpos,hmax⟩ := h
  rw [secureIndex,if_pos (by rw [UInt32.size]; omega),if_neg (by omega)]

/-- A word is accepted for an index exactly if it lies below the limit with that remainder. -/
theorem secureIndex_single {bound : ℕ} (h : InRange bound) (word : UInt32) (index : ℕ) :
    secureIndex bound [word] = .ok (index,[]) ↔
      word.toNat < bound * ((2 ^ 32 - 1) / bound) ∧ word.toNat % bound = index := by
  rw [secureIndex_eq h,firstAccepted,← rejectionLimit_toNat h,← UInt32.lt_iff_toNat_lt]
  split
  · next hlt => simp [hlt,h.toNat_ofNat]
  · next hlt => simp [hlt,firstAccepted]

/-- What `secure_index` promises of a bound: each index is accepted for equally many words, an index
comes from the first accepted word, and it lies below the bound. -/
structure Uniform (bound : ℕ) : Prop where
  evenly : ∀ index < bound,
    {word : UInt32 | secureIndex bound [word] = .ok (index,[])}.ncard = (2 ^ 32 - 1) / bound
  accepts : 0 < (2 ^ 32 - 1) / bound
  below : ∀ words index rest, secureIndex bound words = .ok (index,rest) → index < bound
  first : ∀ words index rest, secureIndex bound words = .ok (index,rest) ↔
    ∃ rejected candidate, words = rejected ++ candidate :: rest ∧
      (∀ word ∈ rejected, secureIndex bound [word] = .error .waiting) ∧
      secureIndex bound [candidate] = .ok (index,[])
  noPanic : ∀ words, secureIndex bound words ≠ .error .panic

theorem secureIndex_rejected {bound : ℕ} (h : InRange bound) (word : UInt32) :
    secureIndex bound [word] = .error .waiting ↔ ¬ word < rejectionLimit (.ofNat bound) := by
  rw [secureIndex_eq h,firstAccepted]
  split
  · next hlt => simp [hlt]
  · next hlt => simp [hlt,firstAccepted]

theorem uniform {bound : ℕ} (h : InRange bound) : Uniform bound := by
  have hbelow : ∀ words index rest, secureIndex bound words = .ok (index,rest) → index < bound := by
    intro words index rest hindex
    rw [secureIndex_eq h] at hindex
    obtain ⟨rejected,candidate,-,-,-,rfl⟩ := firstAccepted_eq_ok.mp hindex
    rw [UInt32.toNat_mod,h.toNat_ofNat]
    exact Nat.mod_lt _ h.1
  refine ⟨?_,Nat.div_pos h.2 h.1,hbelow,?_,?_⟩
  · intro index hindex
    simp only [secureIndex_single h]
    refine ncard_residue UInt32.toNat (fun _ _ => UInt32.toNat_inj.mp) ?_ hindex
    intro v hv
    have hle := Nat.mul_div_le (2 ^ 32 - 1) bound
    exact ⟨.ofNat v,UInt32.toNat_ofNat_of_lt (by rw [UInt32.size]; omega)⟩
  · intro words index rest
    have hsingle : ∀ candidate : UInt32, secureIndex bound [candidate] = .ok (index,[]) ↔
        candidate < rejectionLimit (.ofNat bound) ∧ (candidate % .ofNat bound).toNat = index := by
      intro candidate
      rw [secureIndex_single h,UInt32.lt_iff_toNat_lt,rejectionLimit_toNat h,UInt32.toNat_mod,h.toNat_ofNat]
    simp only [secureIndex_eq h words,firstAccepted_eq_ok,secureIndex_rejected h,hsingle]
  · intro words
    rw [secureIndex_eq h]
    exact firstAccepted_ne_panic _ _ words

/-! ## Passwords -/

/-- The computation never panics, and what it returns has the property. -/
def Yields (draw : Draw α) (P : α → Prop) : Prop :=
  ∀ words, draw words ≠ .error .panic ∧ ∀ a rest, draw words = .ok (a,rest) → P a

theorem yields_pure {P : α → Prop} {a : α} (h : P a) : Yields (pure a) P := by
  intro words
  refine ⟨fun hpanic => (by cases hpanic),?_⟩
  intro a rest hreturned
  cases hreturned
  exact h

theorem Yields.bind {draw : Draw α} {f : α → Draw β} {P : α → Prop} {Q : β → Prop}
    (h : Yields draw P) (hf : ∀ a, P a → Yields (f a) Q) : Yields (draw >>= f) Q := by
  intro words
  have hsplit : (draw >>= f) words = (draw words).bind (fun found => f found.1 found.2) := rfl
  rw [hsplit]
  cases hdraw : draw words with
  | error stop =>
    constructor
    · intro hpanic
      cases hpanic
      exact (h words).1 hdraw
    · intro b rest hreturned
      cases hreturned
  | ok found => exact hf found.1 ((h words).2 _ _ hdraw) found.2

theorem yields_secureIndex {bound : ℕ} (h : InRange bound) : Yields (secureIndex bound) (· < bound) :=
  fun words => ⟨(uniform h).noPanic words,(uniform h).below words⟩

theorem yields_pick (alphabet : List Char) (h : InRange alphabet.length) :
    Yields (pick alphabet) (· ∈ alphabet) := by
  refine (yields_secureIndex h).bind ?_
  intro index hindex
  rw [List.getElem?_eq_getElem hindex]
  exact yields_pure (List.getElem_mem hindex)

theorem inRange_easy : InRange easyAlphabet.length := ⟨by decide,by decide⟩

theorem yields_pickEach (n : ℕ) :
    Yields (pickEach n) (fun password => password.length = n ∧ ∀ c ∈ password, c ∈ easyAlphabet) := by
  induction n with
  | zero => exact yields_pure ⟨rfl,by simp⟩
  | succ n ih =>
    refine (yields_pick easyAlphabet inRange_easy).bind ?_
    intro c hc
    refine ih.bind ?_
    rintro rest ⟨hlength,hrest⟩
    exact yields_pure ⟨by rw [List.length_cons,hlength],List.forall_mem_cons.mpr ⟨hc,hrest⟩⟩

theorem yields_swap {password : List Char} {i j : ℕ} (hi : i < password.length) (hj : j < password.length) :
    Yields (swap password i j) (fun swapped => exchange password i j = some swapped) := by
  have hexchange := exchange_eq hi hj
  rw [swap,hexchange]
  exact yields_pure rfl

theorem swap_eq_ok {password swapped : List Char} {i j : ℕ} {words rest : List UInt32} :
    swap password i j words = .ok (swapped,rest) ↔ exchange password i j = some swapped ∧ words = rest := by
  rw [swap]
  cases exchange password i j with
  | none => exact ⟨fun h => (by cases h),fun h => (by cases h.1)⟩
  | some found =>
    constructor
    · intro h
      cases h
      exact ⟨rfl,rfl⟩
    · rintro ⟨hfound,rfl⟩
      cases hfound
      rfl

/-- The choices of the shuffle loop, drawn before any exchange is made. -/
def drawChoices : ℕ → Draw (List ℕ)
  | 0 => pure []
  | index + 1 => do
    let choice ← secureIndex (index + 2)
    let choices ← drawChoices index
    pure (choice :: choices)

theorem bind_eq_ok {draw : Draw α} {f : α → Draw β} {words rest : List UInt32} {b : β} :
    (draw >>= f) words = .ok (b,rest) ↔
      ∃ a middle, draw words = .ok (a,middle) ∧ f a middle = .ok (b,rest) := by
  have hsplit : (draw >>= f) words = (draw words).bind (fun found => f found.1 found.2) := rfl
  rw [hsplit]
  cases hdraw : draw words with
  | error stop => simp [Except.bind]
  | ok found =>
    constructor
    · intro h
      exact ⟨found.1,found.2,rfl,h⟩
    · rintro ⟨a,middle,hfound,h⟩
      cases hfound
      exact h

theorem yields_drawChoices {index : ℕ} (hsize : index + 1 < 2 ^ 32) :
    Yields (drawChoices index) (Choices index) := by
  induction index with
  | zero => exact yields_pure rfl
  | succ index ih =>
    have hbound : InRange (index + 2) := ⟨by omega,by omega⟩
    refine (yields_secureIndex hbound).bind ?_
    intro choice hchoice
    refine (ih (by omega)).bind ?_
    intro choices hchoices
    exact yields_pure ⟨by omega,hchoices⟩

theorem shuffleFrom_eq_ok {index : ℕ} {password shuffled : List Char} {words rest : List UInt32} :
    shuffleFrom index password words = .ok (shuffled,rest) ↔
      ∃ choices, drawChoices index words = .ok (choices,rest) ∧
        arranged index password choices = some shuffled := by
  induction index generalizing password words with
  | zero =>
    constructor
    · intro h
      cases h
      exact ⟨[],rfl,rfl⟩
    · rintro ⟨choices,hchoices,harranged⟩
      cases hchoices
      cases harranged
      rfl
  | succ index ih =>
    rw [shuffleFrom,drawChoices]
    simp only [bind_eq_ok,ih,swap_eq_ok]
    constructor
    · rintro ⟨choice,middle,hchoice,swapped,_,⟨hswapped,rfl⟩,choices,hchoices,harranged⟩
      exact ⟨choice :: choices,⟨choice,middle,hchoice,choices,rest,hchoices,rfl⟩,
        by rw [arranged,hswapped]; exact harranged⟩
    · rintro ⟨_,⟨choice,middle,hchoice,choices,_,hchoices,hpure⟩,harranged⟩
      cases hpure
      obtain ⟨swapped,hswapped,harranged⟩ := Option.bind_eq_some_iff.mp harranged
      exact ⟨choice,middle,hchoice,swapped,middle,⟨hswapped,rfl⟩,choices,hchoices,harranged⟩

theorem yields_shuffleFrom {index : ℕ} {password : List Char} (hindex : index < password.length)
    (hsize : password.length < 2 ^ 32) :
    Yields (shuffleFrom index password) (fun shuffled =>
      ∃ choices, Choices index choices ∧ arranged index password choices = some shuffled) := by
  intro words
  constructor
  · induction index generalizing password words with
    | zero =>
      intro h
      cases h
    | succ index ih =>
      have hbound : InRange (index + 2) := ⟨by omega,by omega⟩
      refine ((yields_secureIndex hbound).bind (Q := fun _ => True) ?_ words).1
      intro choice hchoice
      refine (yields_swap hindex (by omega : choice < password.length)).bind ?_
      intro swapped hswapped words
      have hlength := (exchange_perm hswapped).length_eq
      exact ⟨ih (by omega) (by omega) words,fun _ _ _ => trivial⟩
  · intro shuffled rest h
    obtain ⟨choices,hchoices,harranged⟩ := shuffleFrom_eq_ok.mp h
    exact ⟨choices,(yields_drawChoices (by omega) words).2 choices rest hchoices,harranged⟩

structure Parts (password : List Char) where
  upper : Char
  lower : Char
  digit : Char
  others : List Char
  choices : List ℕ
  hupper : upper ∈ upperAlphabet
  hlower : lower ∈ lowerAlphabet
  hdigit : digit ∈ digits
  hlength : others.length = temporaryPasswordLength - 3
  hothers : ∀ c ∈ others, c ∈ easyAlphabet
  hchoices : Choices (temporaryPasswordLength - 1) choices
  harranged : arranged (temporaryPasswordLength - 1) (upper :: lower :: digit :: others) choices = some password

theorem yields_parts : Yields temporaryPassword (fun password => Nonempty (Parts password.toList)) := by
  refine (yields_pick upperAlphabet ⟨by decide,by decide⟩).bind ?_
  intro upper hupper
  refine (yields_pick lowerAlphabet ⟨by decide,by decide⟩).bind ?_
  intro lower hlower
  refine (yields_pick digits ⟨by decide,by decide⟩).bind ?_
  intro digit hdigit
  refine (yields_pickEach _).bind ?_
  rintro others ⟨hlength,hothers⟩
  have hsize : (upper :: lower :: digit :: others).length = temporaryPasswordLength := by
    simp [hlength,temporaryPasswordLength]
  refine (yields_shuffleFrom (by rw [hsize]; decide) (by rw [hsize]; decide)).bind ?_
  rintro shuffled ⟨choices,hchoices,harranged⟩
  refine yields_pure ?_
  rw [String.toList_ofList]
  exact ⟨⟨upper,lower,digit,others,choices,hupper,hlower,hdigit,hlength,hothers,hchoices,harranged⟩⟩

theorem Yields.mono {draw : Draw α} {P Q : α → Prop} (h : Yields draw P) (hpq : ∀ a, P a → Q a) :
    Yields draw Q :=
  fun words => ⟨(h words).1,fun a rest hreturned => hpq a ((h words).2 a rest hreturned)⟩

structure WellFormed (password : String) : Prop where
  size : password.length = temporaryPasswordLength
  easy : ∀ c ∈ password.toList, c ∈ easyAlphabet
  upper : ∃ c ∈ password.toList, c.isUpper
  lower : ∃ c ∈ password.toList, c.isLower
  digit : ∃ c ∈ password.toList, c.isDigit

theorem Parts.wellFormed {password : String} (parts : Parts password.toList) : WellFormed password := by
  have hkinds : (∀ c ∈ upperAlphabet, c ∈ easyAlphabet ∧ c.isUpper) ∧
      (∀ c ∈ lowerAlphabet, c ∈ easyAlphabet ∧ c.isLower) ∧ (∀ c ∈ digits, c ∈ easyAlphabet ∧ c.isDigit) := by
    refine ⟨List.all_iff_forall_prop.mp ?_,List.all_iff_forall_prop.mp ?_,List.all_iff_forall_prop.mp ?_⟩
    all_goals decide
  have hperm := arranged_perm parts.harranged
  constructor
  · rw [← String.length_toList,hperm.length_eq]
    simp [parts.hlength,temporaryPasswordLength]
  · intro c hc
    rcases List.mem_cons.mp (hperm.subset hc) with rfl | hc
    · exact (hkinds.1 _ parts.hupper).1
    rcases List.mem_cons.mp hc with rfl | hc
    · exact (hkinds.2.1 _ parts.hlower).1
    rcases List.mem_cons.mp hc with rfl | hc
    · exact (hkinds.2.2 _ parts.hdigit).1
    · exact parts.hothers c hc
  · exact ⟨parts.upper,hperm.symm.subset (by simp),(hkinds.1 _ parts.hupper).2⟩
  · exact ⟨parts.lower,hperm.symm.subset (by simp),(hkinds.2.1 _ parts.hlower).2⟩
  · exact ⟨parts.digit,hperm.symm.subset (by simp),(hkinds.2.2 _ parts.hdigit).2⟩

theorem yields_temporaryPassword : Yields temporaryPassword WellFormed :=
  yields_parts.mono fun _ parts => parts.elim Parts.wellFormed

/-! ## The shuffle -/

/-- What the shuffle makes of the positions, and through it of every password of this length. -/
def arrangement (choices : List ℕ) : Option (List ℕ) :=
  arranged (temporaryPasswordLength - 1) (List.range temporaryPasswordLength) choices

theorem arranged_eq_map {password : List Char} (hlength : password.length = temporaryPasswordLength)
    (choices : List ℕ) :
    arranged (temporaryPasswordLength - 1) password choices =
      (arrangement choices).map (List.map (fun position => password.getD position '2')) := by
  rw [arrangement,← arranged_map,← hlength]
  refine congrArg (fun xs => arranged _ xs choices) ?_
  refine List.ext_getElem (by simp) ?_
  intro i hi hi'
  simp [hi]

/-- What the shuffle promises: it applies the arrangement of the choices it draws, and every
arrangement of the positions is that of exactly one sequence of choices. -/
structure ShuffleUniform : Prop where
  drawn : ∀ words choices rest, drawChoices (temporaryPasswordLength - 1) words = .ok (choices,rest) →
    Choices (temporaryPasswordLength - 1) choices
  applied : ∀ (password shuffled : List Char) (words rest : List UInt32),
    password.length = temporaryPasswordLength →
      (shuffleFrom (temporaryPasswordLength - 1) password words = .ok (shuffled,rest) ↔
        ∃ choices positions, drawChoices (temporaryPasswordLength - 1) words = .ok (choices,rest) ∧
          arrangement choices = some positions ∧
          shuffled = positions.map (fun position => password.getD position '2'))
  once : ∀ positions : List ℕ, positions.Perm (List.range temporaryPasswordLength) →
    ∃! choices, Choices (temporaryPasswordLength - 1) choices ∧ arrangement choices = some positions

theorem shuffleUniform : ShuffleUniform := by
  refine ⟨fun words => (yields_drawChoices (by decide) words).2,?_,?_⟩
  · intro password shuffled words rest hlength
    simp only [shuffleFrom_eq_ok,arranged_eq_map hlength,Option.map_eq_some_iff]
    constructor
    · rintro ⟨choices,hchoices,positions,hpositions,rfl⟩
      exact ⟨choices,positions,hchoices,hpositions,rfl⟩
    · rintro ⟨choices,positions,hchoices,hpositions,rfl⟩
      exact ⟨choices,hchoices,positions,hpositions,rfl⟩
  · intro positions hperm
    exact existsUnique_choices (by rw [List.length_range]; rfl) List.nodup_range hperm

/-! ## The draws of the accounts -/

theorem institution_swap {password swapped : List Char} {i j : ℕ} (h : exchange password i j = some swapped) :
    Institution.swap password i j = swapped := by
  simp only [exchange,Option.bind_eq_bind,Option.bind_eq_some_iff] at h
  obtain ⟨a,ha,b,hb,h⟩ := h
  cases h
  rw [Institution.swap,List.getD_eq_getElem?_getD,List.getD_eq_getElem?_getD,ha,hb]
  rfl

theorem foldl_eq_arranged {index : ℕ} {password shuffled : List Char} {choices : List ℕ} (draw : ℕ → ℕ)
    (hchoices : Choices index choices) (h : arranged index password choices = some shuffled)
    (hdraw : ∀ i < index, draw (index - i) = choices.getD i 0) :
    (List.range' 1 index).reverse.foldl
      (fun p index => Institution.swap p index (draw index % (index + 1))) password = shuffled := by
  induction index generalizing password choices with
  | zero =>
    rw [show choices = [] from hchoices] at h
    exact Option.some.inj h
  | succ index ih =>
    cases choices with
    | nil => cases hchoices
    | cons choice choices =>
      obtain ⟨swapped,hswapped,h⟩ := Option.bind_eq_some_iff.mp h
      have hfirst : draw (index + 1) = choice := hdraw 0 (by omega)
      have hmod : choice % (index + 1 + 1) = choice := Nat.mod_eq_of_lt (by have := hchoices.1; omega)
      rw [List.range'_concat,List.reverse_append,List.reverse_singleton,List.singleton_append,
        List.foldl_cons,Nat.one_mul,Nat.add_comm 1 index,hfirst,hmod,institution_swap hswapped]
      refine ih hchoices.2 h ?_
      intro i hi
      have hnext := hdraw (i + 1) (by omega)
      rw [show index + 1 - (i + 1) = index - i by omega] at hnext
      exact hnext

theorem institution_pick {alphabet : List Char} {c : Char} (h : c ∈ alphabet) :
    ∃ i, ∀ draw n, draw n = i → Institution.pick draw n alphabet = c := by
  obtain ⟨i,hi,rfl⟩ := List.mem_iff_getElem.mp h
  refine ⟨i,?_⟩
  intro draw n hdraw
  rw [Institution.pick,Institution.secureIndex,hdraw,Nat.mod_eq_of_lt hi,List.getD_eq_getElem _ _ hi]

theorem Parts.institution {password : String} (parts : Parts password.toList) :
    ∃ draw, password = Institution.temporaryPassword draw := by
  obtain ⟨upper,lower,digit,others,choices,hupper,hlower,hdigit,hlength,hothers,hchoices,harranged⟩ := parts
  obtain ⟨a,b,c,d,e,rfl⟩ : ∃ a b c d e, others = [a,b,c,d,e] :=
    match others,hlength with
    | [a,b,c,d,e],_ => ⟨a,b,c,d,e,rfl⟩
  obtain ⟨i₀,h₀⟩ := institution_pick hupper
  obtain ⟨i₁,h₁⟩ := institution_pick hlower
  obtain ⟨i₂,h₂⟩ := institution_pick hdigit
  obtain ⟨i₃,h₃⟩ := institution_pick (hothers a (by simp))
  obtain ⟨i₄,h₄⟩ := institution_pick (hothers b (by simp))
  obtain ⟨i₅,h₅⟩ := institution_pick (hothers c (by simp))
  obtain ⟨i₆,h₆⟩ := institution_pick (hothers d (by simp))
  obtain ⟨i₇,h₇⟩ := institution_pick (hothers e (by simp))
  let draw : ℕ → ℕ := fun n => ([i₀,i₁,i₂,i₃,i₄,i₅,i₆,i₇] ++ choices).getD n 0
  refine ⟨draw,?_⟩
  have hdraw : ∀ i < temporaryPasswordLength - 1,
      draw (15 - (temporaryPasswordLength - 1 - i)) = choices.getD i 0 := by
    intro i hi
    have hposition : 15 - (temporaryPasswordLength - 1 - i) = i + 8 := by
      rw [temporaryPasswordLength] at hi ⊢
      omega
    rw [hposition]
    exact List.getD_append_right _ _ _ _ (by simp)
  have hfold := foldl_eq_arranged (fun index => draw (15 - index)) hchoices harranged hdraw
  rw [Institution.temporaryPassword,h₀ draw 0 rfl,h₁ draw 1 rfl,h₂ draw 2 rfl,h₃ draw 3 rfl,h₄ draw 4 rfl,
    h₅ draw 5 rfl,h₆ draw 6 rfl,h₇ draw 7 rfl]
  exact (String.ofList_toList (s := password)).symm.trans (congrArg String.ofList hfold.symm)

theorem yields_institution :
    Yields temporaryPassword (fun password => ∃ draw, password = Institution.temporaryPassword draw) :=
  yields_parts.mono fun _ parts => parts.elim Parts.institution

end LatexCore.Credentials
