import Mathlib.Algebra.Order.Ring.Nat
import Mathlib.Algebra.Order.BigOperators.Group.List
import LatexCore.Core.Scan

/-! # A reader of TeX text

Texts as LaTeX reads them when no macro is called: an escape gives back the character
it stands for, `\par` and `\\` end a line, and the latter looks ahead for a star and a
bracketed group. Any other control sequence and any bare special character is refused.
A join of escaped items is read back as the items unless an item offers such an argument.
-/
namespace LatexCore.Foundation.TexText
open Core

inductive TexToken
  | text (c : Char)
  | escaped (c : Char)
  | lineBreak
  | par
  | special (c : Char)
  | command (name : List Char)
deriving DecidableEq

def specials : List Char := ['{','}','$','&','#','%','_','^','~']

def controlSymbol (c : Char) : TexToken :=
  if c = '\\' then .lineBreak
  else if c ∈ ['{','}','$','&','#','%','_'] then .escaped c
  else .command [c]

def controlWord (name : List Char) : TexToken :=
  if name = "par".toList then .par
  else if name = "textbackslash".toList then .escaped '\\'
  else if name = "textasciicircum".toList then .escaped '^'
  else if name = "textasciitilde".toList then .escaped '~'
  else .command name

def wordAt (rest : List Char) : TexToken := controlWord (rest.takeWhile Char.isAlpha)

/-- A control word may end with an empty group. -/
def skipGroup (rest : List Char) : List Char := (stripPrefix ['{','}'] rest).getD rest

/-- The end of the source line after a command that ends a line of text. -/
def skipNewline (token : TexToken) (rest : List Char) : List Char :=
  if token = .lineBreak ∨ token = .par then (stripPrefix ['\n'] rest).getD rest else rest

theorem length_stripPrefix_le (head rest : List Char) :
    ((stripPrefix head rest).getD rest).length ≤ rest.length := by
  cases h : stripPrefix head rest with
  | none => simp
  | some after => simp [stripPrefix_eq_some.mp h]

theorem length_skipGroup_le (rest : List Char) : (skipGroup rest).length ≤ rest.length :=
  length_stripPrefix_le _ rest

theorem length_skipNewline_le (token : TexToken) (rest : List Char) :
    (skipNewline token rest).length ≤ rest.length := by
  unfold skipNewline
  split
  · exact length_stripPrefix_le _ rest
  · exact le_refl _

/-- A control sequence is a backslash with a run of letters or with one other character. -/
def tokenise : List Char → List TexToken
  | [] => []
  | '\\' :: [] => [.command []]
  | '\\' :: c :: rest =>
    if c.isAlpha then
      wordAt (c :: rest) ::
        tokenise (skipNewline (wordAt (c :: rest)) (skipGroup ((c :: rest).dropWhile Char.isAlpha)))
    else controlSymbol c :: tokenise (skipNewline (controlSymbol c) rest)
  | c :: rest => (if c ∈ specials then .special c else .text c) :: tokenise rest
termination_by text => text.length
decreasing_by
  · have hgroup := length_skipGroup_le ((c :: rest).dropWhile Char.isAlpha)
    have hline := length_skipNewline_le (wordAt (c :: rest)) (skipGroup ((c :: rest).dropWhile Char.isAlpha))
    have hdrop := (List.dropWhile_suffix (l := c :: rest) Char.isAlpha).length_le
    simp only [List.length_cons] at hdrop ⊢
    omega
  · have hline := length_skipNewline_le (controlSymbol c) rest
    simp only [List.length_cons]
    omega
  · simp

def TexToken.isSpace (token : TexToken) : Bool := token = .text ' ' || token = .text '\t'

/-- The star of a line break, after optional spaces. -/
def skipStar (tokens : List TexToken) : List TexToken :=
  match tokens.dropWhile TexToken.isSpace with
  | .text '*' :: rest => rest
  | _ => tokens

/-- The bracketed group of a line break; one that is not closed runs away. -/
def skipBracket (tokens : List TexToken) : Option (List TexToken) :=
  match tokens.dropWhile TexToken.isSpace with
  | .text '[' :: rest =>
    match rest.dropWhile (· ≠ .text ']') with
    | [] => none
    | _ :: after => some after
  | _ => some tokens

def afterBreak (tokens : List TexToken) : Option (List TexToken) := skipBracket (skipStar tokens)

theorem length_skipStar_le (tokens : List TexToken) : (skipStar tokens).length ≤ tokens.length := by
  unfold skipStar
  split
  · next rest h =>
    have hdrop := (List.dropWhile_suffix (l := tokens) TexToken.isSpace).length_le
    rw [h,List.length_cons] at hdrop
    omega
  · exact le_refl _

theorem skipBracket_some {tokens after : List TexToken} (h : skipBracket tokens = some after) :
    after.length ≤ tokens.length ∧
      ((tokens.dropWhile TexToken.isSpace).head? = some (.text '[') → after.length < tokens.length) := by
  unfold skipBracket at h
  split at h
  · next rest hrest =>
    have hdrop := (List.dropWhile_suffix (l := tokens) TexToken.isSpace).length_le
    rw [hrest,List.length_cons] at hdrop
    split at h
    · cases h
    · next c later hlater =>
      have hgroup := (List.dropWhile_suffix (l := rest) (· ≠ .text ']')).length_le
      rw [hlater,List.length_cons] at hgroup
      obtain rfl : later = after := by simpa using h
      exact ⟨by omega,fun _ => by omega⟩
  · next hne =>
    obtain rfl : tokens = after := by simpa using h
    refine ⟨le_refl _,fun hhead => ?_⟩
    cases hlist : tokens.dropWhile TexToken.isSpace with
    | nil => simp [hlist] at hhead
    | cons c rest =>
      obtain rfl : c = .text '[' := by simpa [hlist] using hhead
      exact absurd hlist (hne rest)

theorem length_afterBreak_le {tokens after : List TexToken} (h : afterBreak tokens = some after) :
    after.length ≤ tokens.length :=
  (skipBracket_some h).1.trans (length_skipStar_le tokens)

def pushChar (c : Char) : List (List Char) → List (List Char)
  | [] => [[c]]
  | line :: rest => (c :: line) :: rest

/-- The lines of a text that holds nothing but text. -/
def readTokens : List TexToken → Option (List (List Char))
  | [] => some [[]]
  | .text c :: rest => (readTokens rest).map (pushChar c)
  | .escaped c :: rest => (readTokens rest).map (pushChar c)
  | .par :: rest => (readTokens rest).map ([] :: ·)
  | .lineBreak :: rest =>
    match _h : afterBreak rest with
    | none => none
    | some after => (readTokens after).map ([] :: ·)
  | .special _ :: _ => none
  | .command _ :: _ => none
termination_by tokens => tokens.length
decreasing_by
  all_goals simp only [List.length_cons]
  · omega
  · omega
  · omega
  · have hafter := length_afterBreak_le _h
    omega

/-- An empty text has no line. -/
def read (text : List Char) : Option (List (List Char)) :=
  if text = [] then some [] else readTokens (tokenise text)

/-! ## Escaped texts -/

def charToken (c : Char) : TexToken := if c = '\\' ∨ c ∈ specials then .escaped c else .text c

/-- A way to show characters that the reader undoes, in front of any text. -/
def Shows (show_ : Char → List Char) : Prop :=
  ∀ c rest, tokenise (show_ c ++ rest) = charToken c :: tokenise rest

def Separates (separator : List Char) (token : TexToken) : Prop :=
  ∀ rest, tokenise (separator ++ rest) = token :: tokenise rest

def joined (token : TexToken) : List (List Char) → List TexToken
  | [] => []
  | [item] => item.map charToken
  | item :: rest => item.map charToken ++ token :: joined token rest

theorem joined_cons_cons (token : TexToken) (item next : List Char) (rest : List (List Char)) :
    joined token (item :: next :: rest) = item.map charToken ++ token :: joined token (next :: rest) := rfl

section Joins
variable {show_ : Char → List Char} (hshow : Shows show_)
include hshow

theorem tokenise_shown (item rest : List Char) :
    tokenise (item.flatMap show_ ++ rest) = item.map charToken ++ tokenise rest := by
  induction item with
  | nil => rfl
  | cons c item ih =>
    rw [List.flatMap_cons,List.append_assoc,hshow,ih,List.map_cons,List.cons_append]

theorem tokenise_join {separator : List Char} {token : TexToken} (hseparates : Separates separator token)
    (items : List (List Char)) :
    tokenise (separator.intercalate (items.map (·.flatMap show_))) = joined token items := by
  induction items with
  | nil => simp [joined,tokenise]
  | cons item rest ih =>
    cases rest with
    | nil =>
      have hone := tokenise_shown hshow item []
      simpa [joined,tokenise] using hone
    | cons next rest =>
      rw [List.map_cons,List.intercalate_cons_of_ne_nil (by simp),List.append_assoc,tokenise_shown hshow,
        hseparates,ih]
      rfl

end Joins

/-! ## Reading joins back -/

theorem readTokens_chars (item : List Char) (rest : List TexToken) :
    readTokens (item.map charToken ++ rest) = (readTokens rest).map (fun lines => item.foldr pushChar lines) := by
  induction item with
  | nil => simp
  | cons c item ih =>
    have hpush : readTokens (charToken c :: (item.map charToken ++ rest)) =
        (readTokens (item.map charToken ++ rest)).map (pushChar c) := by
      unfold charToken
      split <;> rw [readTokens]
    rw [List.map_cons,List.cons_append,hpush,ih,Option.map_map]
    rfl

theorem foldr_pushChar (item line : List Char) (rest : List (List Char)) :
    item.foldr pushChar (line :: rest) = (item ++ line) :: rest := by
  induction item with
  | nil => rfl
  | cons c item ih => rw [List.foldr_cons,ih]; rfl

/-- Lines apart by `\par` are read back. -/
theorem readTokens_joined_par {items : List (List Char)} (h : items ≠ []) :
    readTokens (joined .par items) = some items := by
  induction items with
  | nil => exact absurd rfl h
  | cons item rest ih =>
    cases rest with
    | nil =>
      have hone := readTokens_chars item []
      rw [List.append_nil,readTokens,Option.map_some,foldr_pushChar,List.append_nil] at hone
      exact hone
    | cons next rest =>
      rw [joined_cons_cons,readTokens_chars,readTokens,ih (by simp),Option.map_some,Option.map_some,
        foldr_pushChar,List.append_nil]

def isBlank (c : Char) : Bool := c = ' ' || c = '\t'

/-- The item begins, after optional spaces, as an argument of a line break does. -/
def OffersArgument (item : List Char) : Prop :=
  (item.dropWhile isBlank).head? = some '*' ∨ (item.dropWhile isBlank).head? = some '['

instance (item : List Char) : Decidable (OffersArgument item) := instDecidableOr

/-- What follows an item in a join. -/
def Ended (rest : List TexToken) : Prop := rest = [] ∨ ∃ after, rest = .lineBreak :: after

theorem dropWhile_item {rest : List TexToken} (hrest : Ended rest) (item : List Char) :
    (item.map charToken ++ rest).dropWhile TexToken.isSpace = (item.dropWhile isBlank).map charToken ++ rest := by
  induction item with
  | nil => rcases hrest with rfl | ⟨after,rfl⟩ <;> simp [TexToken.isSpace]
  | cons c item ih =>
    have hspace : (charToken c).isSpace = isBlank c := by
      by_cases hspecial : c = '\\' ∨ c ∈ specials
      · have hblank : isBlank c = false := by
          simp only [specials,List.mem_cons,List.not_mem_nil,or_false] at hspecial
          rcases hspecial with rfl | rfl | rfl | rfl | rfl | rfl | rfl | rfl | rfl | rfl <;> decide
        simp [charToken,hspecial,TexToken.isSpace,hblank]
      · simp [charToken,hspecial,TexToken.isSpace,isBlank]
    cases hblank : isBlank c with
    | true => simpa [hspace,hblank] using ih
    | false => simp [hspace,hblank]

theorem charToken_eq_text {c d : Char} (hd : d ∉ '\\' :: specials) :
    charToken c = .text d ↔ c = d := by
  unfold charToken
  split
  · next hspecial =>
    refine ⟨fun h => (by cases h),?_⟩
    rintro rfl
    exact absurd (List.mem_cons.mpr hspecial) hd
  · simp

theorem head_item {rest : List TexToken} (hrest : Ended rest) {d : Char} (hd : d ∉ '\\' :: specials)
    (item : List Char) :
    (item.map charToken ++ rest).head? = some (.text d) ↔ item.head? = some d := by
  cases item with
  | nil => rcases hrest with rfl | ⟨after,rfl⟩ <;> simp
  | cons c item => simp [charToken_eq_text hd]

theorem skipStar_eq {tokens : List TexToken}
    (h : (tokens.dropWhile TexToken.isSpace).head? ≠ some (.text '*')) : skipStar tokens = tokens := by
  unfold skipStar
  split
  · next rest hrest => simp [hrest] at h
  · rfl

theorem skipBracket_eq {tokens : List TexToken}
    (h : (tokens.dropWhile TexToken.isSpace).head? ≠ some (.text '[')) : skipBracket tokens = some tokens := by
  unfold skipBracket
  split
  · next rest hrest => simp [hrest] at h
  · rfl

theorem length_skipStar_lt {tokens : List TexToken}
    (h : (tokens.dropWhile TexToken.isSpace).head? = some (.text '*')) :
    (skipStar tokens).length < tokens.length := by
  have hdrop := (List.dropWhile_suffix (l := tokens) TexToken.isSpace).length_le
  cases hlist : tokens.dropWhile TexToken.isSpace with
  | nil => simp [hlist] at h
  | cons c rest =>
    obtain rfl : c = .text '*' := by simpa [hlist] using h
    rw [hlist,List.length_cons] at hdrop
    have hskip : skipStar tokens = rest := by
      unfold skipStar
      split
      · next later hlater =>
        rw [hlist] at hlater
        cases hlater
        rfl
      · next hne => exact absurd hlist (hne rest)
    rw [hskip]
    omega

theorem afterBreak_item {item : List Char} {rest : List TexToken} (hrest : Ended rest)
    (hitem : ¬OffersArgument item) :
    afterBreak (item.map charToken ++ rest) = some (item.map charToken ++ rest) := by
  rw [OffersArgument,not_or] at hitem
  have hstar : ((item.map charToken ++ rest).dropWhile TexToken.isSpace).head? ≠ some (.text '*') := by
    rw [dropWhile_item hrest,Ne,head_item hrest (by decide)]
    exact hitem.1
  have hbracket : ((item.map charToken ++ rest).dropWhile TexToken.isSpace).head? ≠ some (.text '[') := by
    rw [dropWhile_item hrest,Ne,head_item hrest (by decide)]
    exact hitem.2
  rw [afterBreak,skipStar_eq hstar,skipBracket_eq hbracket]

theorem length_afterBreak_lt {item : List Char} {rest after : List TexToken} (hrest : Ended rest)
    (hitem : OffersArgument item) (hafter : afterBreak (item.map charToken ++ rest) = some after) :
    after.length < (item.map charToken ++ rest).length := by
  rcases hitem with hstar | hbracket
  · rw [← head_item hrest (by decide),← dropWhile_item hrest] at hstar
    exact (skipBracket_some hafter).1.trans_lt (length_skipStar_lt hstar)
  · rw [← head_item hrest (by decide),← dropWhile_item hrest] at hbracket
    rw [afterBreak,skipStar_eq (by simp [hbracket])] at hafter
    exact (skipBracket_some hafter).2 hbracket

/-- The size of lines as the reader counts it. -/
def weight (lines : List (List Char)) : ℕ := (lines.map (fun line => line.length + 1)).sum

theorem weight_cons (line : List Char) (rest : List (List Char)) :
    weight (line :: rest) = line.length + 1 + weight rest := by
  simp [weight]

theorem length_joined (token : TexToken) {items : List (List Char)} (h : items ≠ []) :
    (joined token items).length + 1 = weight items := by
  induction items with
  | nil => exact absurd rfl h
  | cons item rest ih =>
    cases rest with
    | nil => simp [joined,weight]
    | cons next rest =>
      have hrest := ih (by simp)
      rw [joined_cons_cons,weight_cons,List.length_append,List.length_cons,List.length_map]
      omega

theorem weight_pushChar {c : Char} {lines : List (List Char)} (h : lines ≠ []) :
    weight (pushChar c lines) = weight lines + 1 := by
  cases lines with
  | nil => exact absurd rfl h
  | cons line rest =>
    rw [pushChar,weight_cons,weight_cons,List.length_cons]
    omega

theorem pushChar_ne_nil (c : Char) (lines : List (List Char)) : pushChar c lines ≠ [] := by
  cases lines <;> simp [pushChar]

theorem readTokens_weight (tokens : List TexToken) :
    ∀ lines, readTokens tokens = some lines → lines ≠ [] ∧ weight lines ≤ tokens.length + 1 := by
  have hchar : ∀ (c : Char) (rest : List TexToken),
      (∀ lines, readTokens rest = some lines → lines ≠ [] ∧ weight lines ≤ rest.length + 1) →
      ∀ lines, (readTokens rest).map (pushChar c) = some lines → lines ≠ [] ∧ weight lines ≤ rest.length + 1 + 1 := by
    intro c rest ih lines h
    obtain ⟨later,hlater,rfl⟩ := Option.map_eq_some_iff.mp h
    obtain ⟨hne,hweight⟩ := ih later hlater
    refine ⟨pushChar_ne_nil c later,?_⟩
    rw [weight_pushChar hne]
    omega
  induction tokens using readTokens.induct with
  | case1 =>
    intro lines h
    rw [readTokens] at h
    cases h
    exact ⟨by simp,by simp [weight]⟩
  | case2 c rest ih =>
    intro lines h
    rw [readTokens] at h
    exact hchar c rest ih lines h
  | case3 c rest ih =>
    intro lines h
    rw [readTokens] at h
    exact hchar c rest ih lines h
  | case4 rest ih =>
    intro lines h
    rw [readTokens] at h
    obtain ⟨later,hlater,rfl⟩ := Option.map_eq_some_iff.mp h
    have hweight := (ih later hlater).2
    refine ⟨by simp,?_⟩
    rw [weight_cons,List.length_cons,List.length_nil]
    omega
  | case5 rest hnone =>
    intro lines h
    rw [readTokens] at h
    split at h
    · cases h
    · next after hafter => rw [hnone] at hafter; cases hafter
  | case6 rest after hafter ih =>
    intro lines h
    rw [readTokens] at h
    split at h
    · cases h
    next after' hafter' =>
    obtain rfl : after = after' := by rw [hafter] at hafter'; exact Option.some.inj hafter'
    obtain ⟨later,hlater,rfl⟩ := Option.map_eq_some_iff.mp h
    have hweight := (ih later hlater).2
    have hlength := length_afterBreak_le hafter
    refine ⟨by simp,?_⟩
    rw [weight_cons,List.length_cons,List.length_nil]
    omega
  | case7 c rest =>
    intro lines h
    rw [readTokens] at h
    cases h
  | case8 name rest =>
    intro lines h
    rw [readTokens] at h
    cases h

theorem ended_nil : Ended [] := .inl rfl

theorem joined_cons (item : List Char) (rest : List (List Char)) :
    ∃ more, joined .lineBreak (item :: rest) = item.map charToken ++ more ∧ Ended more := by
  cases rest with
  | nil => exact ⟨[],by simp [joined],ended_nil⟩
  | cons next rest => exact ⟨.lineBreak :: joined .lineBreak (next :: rest),rfl,.inr ⟨_,rfl⟩⟩

theorem readTokens_lineBreak {rest after : List TexToken} (h : afterBreak rest = some after) :
    readTokens (.lineBreak :: rest) = (readTokens after).map ([] :: ·) := by
  rw [readTokens]
  split
  · next hnone => rw [h] at hnone; cases hnone
  · next later hlater =>
    rw [h] at hlater
    rw [Option.some.inj hlater]

theorem readTokens_joined_of_plain {items : List (List Char)} (h : items ≠ [])
    (hplain : ∀ item ∈ items.tail, ¬OffersArgument item) :
    readTokens (joined .lineBreak items) = some items := by
  induction items with
  | nil => exact absurd rfl h
  | cons item rest ih =>
    cases rest with
    | nil =>
      have hone := readTokens_chars item []
      rw [List.append_nil,readTokens,Option.map_some,foldr_pushChar,List.append_nil] at hone
      exact hone
    | cons next rest =>
      obtain ⟨more,hmore,hended⟩ := joined_cons next rest
      have hnext := ih (by simp) (fun other hother => hplain other (List.mem_cons_of_mem _ hother))
      have hbreak : afterBreak (joined .lineBreak (next :: rest)) = some (joined .lineBreak (next :: rest)) := by
        rw [hmore]
        exact afterBreak_item hended (hplain next (by simp))
      rw [joined_cons_cons,readTokens_chars,readTokens_lineBreak hbreak,hnext,Option.map_some,
        Option.map_some,foldr_pushChar,List.append_nil]

theorem weight_lt_of_offered {items lines : List (List Char)}
    (hoffered : ∃ item ∈ items.tail, OffersArgument item)
    (h : readTokens (joined .lineBreak items) = some lines) : weight lines < weight items := by
  induction items generalizing lines with
  | nil => simp at hoffered
  | cons item rest ih =>
    cases rest with
    | nil => simp at hoffered
    | cons next rest =>
      obtain ⟨more,hmore,hended⟩ := joined_cons next rest
      rw [joined_cons_cons,readTokens_chars] at h
      obtain ⟨later,hlater,rfl⟩ := Option.map_eq_some_iff.mp h
      rw [readTokens] at hlater
      split at hlater
      · cases hlater
      next after hafter =>
      obtain ⟨tail,htail,rfl⟩ := Option.map_eq_some_iff.mp hlater
      rw [foldr_pushChar,List.append_nil,weight_cons,weight_cons]
      have hsize := length_joined .lineBreak (List.cons_ne_nil next rest)
      have htotal := (readTokens_weight after tail htail).2
      by_cases hnext : OffersArgument next
      · have hlost : after.length < (joined .lineBreak (next :: rest)).length := by
          rw [hmore] at hafter ⊢
          exact length_afterBreak_lt hended hnext hafter
        omega
      · have hall : afterBreak (joined .lineBreak (next :: rest)) = some (joined .lineBreak (next :: rest)) := by
          rw [hmore]
          exact afterBreak_item hended hnext
        rw [hall] at hafter
        obtain rfl := Option.some.inj hafter
        have hrest : ∃ other ∈ (next :: rest).tail, OffersArgument other := by
          obtain ⟨other,hother,hoffer⟩ := hoffered
          rcases List.mem_cons.mp hother with rfl | hother
          · exact absurd hoffer hnext
          · exact ⟨other,hother,hoffer⟩
        have hlater := ih hrest htail
        omega

theorem readTokens_joined_iff {items : List (List Char)} (h : items ≠ []) :
    readTokens (joined .lineBreak items) = some items ↔ ∀ item ∈ items.tail, ¬OffersArgument item := by
  constructor
  · intro hread item hitem hoffer
    exact lt_irrefl _ (weight_lt_of_offered ⟨item,hitem,hoffer⟩ hread)
  · exact readTokens_joined_of_plain h

/-! ## Texts -/

def TexToken.isText : TexToken → Bool
  | .text _ | .escaped _ | .lineBreak | .par => true
  | .special _ | .command _ => false

theorem isText_charToken (c : Char) : (charToken c).isText = true := by
  unfold charToken
  split <;> rfl

theorem isText_joined {token : TexToken} (htoken : token.isText = true) (items : List (List Char)) :
    ∀ other ∈ joined token items, other.isText = true := by
  have hitem : ∀ (item : List Char), ∀ other ∈ item.map charToken, other.isText = true := by
    intro item other hother
    obtain ⟨c,-,rfl⟩ := List.mem_map.mp hother
    exact isText_charToken c
  induction items with
  | nil => simp [joined]
  | cons item rest ih =>
    cases rest with
    | nil => exact hitem item
    | cons next rest =>
      intro other hother
      rw [joined_cons_cons,List.mem_append,List.mem_cons] at hother
      rcases hother with hother | rfl | hother
      · exact hitem item other hother
      · exact htoken
      · exact ih other hother

section Texts
variable {show_ : Char → List Char} (hshow : Shows show_)
include hshow

theorem shows_ne_nil (c : Char) : show_ c ≠ [] := by
  intro h
  have hlength := congrArg List.length (hshow c [])
  rw [h,List.nil_append,List.length_cons] at hlength
  omega

omit hshow in
theorem separates_ne_nil {separator : List Char} {token : TexToken} (h : Separates separator token) :
    separator ≠ [] := by
  rintro rfl
  have hlength := congrArg List.length (h [])
  rw [List.nil_append,List.length_cons] at hlength
  omega

theorem join_eq_nil {separator : List Char} {token : TexToken} (hseparates : Separates separator token)
    {items : List (List Char)} :
    separator.intercalate (items.map (·.flatMap show_)) = [] ↔ items = [] ∨ items = [[]] := by
  cases items with
  | nil => simp
  | cons item rest =>
    cases rest with
    | nil =>
      cases item with
      | nil => simp
      | cons c item => simp [shows_ne_nil hshow c]
    | cons next rest =>
      rw [List.map_cons,List.intercalate_cons_of_ne_nil (by simp)]
      simp [separates_ne_nil hseparates]

theorem read_join_iff {separator : List Char} {token : TexToken} (hseparates : Separates separator token)
    (items : List (List Char)) :
    read (separator.intercalate (items.map (·.flatMap show_))) = some items ↔
      items ≠ [[]] ∧ (items ≠ [] → readTokens (joined token items) = some items) := by
  unfold read
  by_cases hempty : items = [] ∨ items = [[]]
  · rw [if_pos ((join_eq_nil hshow hseparates).mpr hempty)]
    rcases hempty with rfl | rfl <;> simp
  · rw [if_neg (fun h => hempty ((join_eq_nil hshow hseparates).mp h)),tokenise_join hshow hseparates]
    rw [not_or] at hempty
    exact ⟨fun h => ⟨hempty.2,fun _ => h⟩,fun h => h.2 hempty.1⟩

end Texts

end LatexCore.Foundation.TexText
