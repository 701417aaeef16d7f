import Mathlib.Algebra.Order.BigOperators.Group.List
import Mathlib.Algebra.Order.Ring.Nat
import Mathlib.Data.List.Basic
import Mathlib.Tactic.Common

/-! # Lines and offsets of texts

A position in a text is counted in bytes of UTF-8 by one party and in code units of
UTF-16 by another, and an editor ends a line at a line feed, at a carriage return or
at both in a row, each of which is one unit in its document. The two counts agree on
ASCII only.
-/
namespace LatexCore.Foundation

def utf16Size (c : Char) : ℕ := if c.toNat < 0x10000 then 1 else 2

def utf8Bytes (text : List Char) : ℕ := (text.map Char.utf8Size).sum

def utf16Units (text : List Char) : ℕ := (text.map utf16Size).sum

def Ascii (text : List Char) : Prop := ∀ c ∈ text, c.utf8Size = 1

instance (text : List Char) : Decidable (Ascii text) := List.decidableBAll (Char.utf8Size · = 1) text

@[simp] theorem utf8Bytes_nil : utf8Bytes [] = 0 := rfl

@[simp] theorem utf16Units_nil : utf16Units [] = 0 := rfl

@[simp] theorem utf8Bytes_cons (c : Char) (text : List Char) :
    utf8Bytes (c :: text) = c.utf8Size + utf8Bytes text := by simp [utf8Bytes]

@[simp] theorem utf16Units_cons (c : Char) (text : List Char) :
    utf16Units (c :: text) = utf16Size c + utf16Units text := by simp [utf16Units]

@[simp] theorem utf8Bytes_append (text more : List Char) :
    utf8Bytes (text ++ more) = utf8Bytes text + utf8Bytes more := by simp [utf8Bytes]

@[simp] theorem utf16Units_append (text more : List Char) :
    utf16Units (text ++ more) = utf16Units text + utf16Units more := by simp [utf16Units]

theorem utf16Size_pos (c : Char) : 0 < utf16Size c := by
  unfold utf16Size
  split <;> omega

theorem utf16Size_cases (c : Char) : (c.utf8Size = 1 ∧ utf16Size c = 1) ∨ utf16Size c < c.utf8Size := by
  have hsize : c.utf8Size = if c.val ≤ 0x7F then 1 else if c.val ≤ 0x7FF then 2 else if c.val ≤ 0xFFFF then 3 else 4 :=
    rfl
  have hvalue : c.toNat = c.val.toNat := rfl
  simp only [UInt32.le_iff_toNat_le] at hsize
  have h1 : (0x7F : UInt32).toNat = 0x7F := rfl
  have h2 : (0x7FF : UInt32).toNat = 0x7FF := rfl
  have h3 : (0xFFFF : UInt32).toNat = 0xFFFF := rfl
  rw [h1,h2,h3,← hvalue] at hsize
  unfold utf16Size
  split at hsize
  · left
    refine ⟨hsize,?_⟩
    rw [if_pos (by omega)]
  · right
    split at hsize
    · rw [if_pos (by omega)]
      omega
    · split at hsize
      · rw [if_pos (by omega)]
        omega
      · rw [if_neg (by omega)]
        omega

theorem utf16Units_eq_zero {text : List Char} : utf16Units text = 0 ↔ text = [] := by
  cases text with
  | nil => simp
  | cons c text =>
    have := utf16Size_pos c
    simp only [utf16Units_cons,reduceCtorEq,iff_false]
    omega

theorem utf16Units_le (text : List Char) : utf16Units text ≤ utf8Bytes text := by
  induction text with
  | nil => exact le_rfl
  | cons c text ih =>
    rw [utf16Units_cons,utf8Bytes_cons]
    rcases utf16Size_cases c with ⟨h,h'⟩ | h <;> omega

theorem utf16Units_eq_iff {text : List Char} : utf8Bytes text = utf16Units text ↔ Ascii text := by
  induction text with
  | nil => simp [Ascii]
  | cons c text ih =>
    have hle := utf16Units_le text
    rw [Ascii,List.forall_mem_cons,← Ascii,← ih,utf16Units_cons,utf8Bytes_cons]
    rcases utf16Size_cases c with ⟨h,h'⟩ | h
    · omega
    · have hpos := utf16Size_pos c
      omega

/-! ## Lines -/

inductive LineEnd
  | lf | crlf | cr
deriving DecidableEq

def LineEnd.text : LineEnd → List Char
  | .lf => ['\n']
  | .crlf => ['\r','\n']
  | .cr => ['\r']

structure Split where
  ended : List (List Char × LineEnd)
  last : List Char

def Split.cons (c : Char) : Split → Split
  | ⟨[],last⟩ => ⟨[],c :: last⟩
  | ⟨(line,finish) :: more,last⟩ => ⟨(c :: line,finish) :: more,last⟩

def Split.ends (finish : LineEnd) (s : Split) : Split := ⟨([],finish) :: s.ended,s.last⟩

def splitLines : List Char → Split
  | [] => ⟨[],[]⟩
  | '\n' :: text => (splitLines text).ends .lf
  | '\r' :: '\n' :: text => (splitLines text).ends .crlf
  | '\r' :: text => (splitLines text).ends .cr
  | c :: text => (splitLines text).cons c

def editorLines (text : List Char) : List (List Char) :=
  (splitLines text).ended.map Prod.fst ++ [(splitLines text).last]

def lineUnits (lines : List (List Char)) : ℕ := (lines.map (fun line => utf16Units line + 1)).sum

def editorOffset (text : List Char) : ℕ :=
  lineUnits ((splitLines text).ended.map Prod.fst) + utf16Units (splitLines text).last

/-- A text is not cut between a carriage return and its line feed. -/
def CleanCut (text more : List Char) : Prop := ¬(text.getLast? = some '\r' ∧ more.head? = some '\n')

/-- The first line of a text that goes on after another one. -/
def Split.first (s : Split) : List Char := (s.ended.map Prod.fst).headD s.last

/-- The lines of a text after the lines of another. -/
def Split.append (s t : Split) : Split :=
  match t with
  | ⟨[],last⟩ => ⟨s.ended,s.last ++ last⟩
  | ⟨(line,finish) :: more,last⟩ => ⟨s.ended ++ (s.last ++ line,finish) :: more,last⟩

theorem CleanCut.tail {c : Char} {text more : List Char} (h : CleanCut (c :: text) more) : CleanCut text more := by
  rintro ⟨hlast,hhead⟩
  cases text with
  | nil => cases hlast
  | cons d text => exact h ⟨by rw [List.getLast?_cons_cons]; exact hlast,hhead⟩

theorem Split.append_ends (finish : LineEnd) (s t : Split) :
    (s.append t).ends finish = (s.ends finish).append t := by
  obtain ⟨ended,last⟩ := t
  cases ended <;> rfl

theorem Split.append_cons (c : Char) (s t : Split) : (s.append t).cons c = (s.cons c).append t := by
  obtain ⟨ended,last⟩ := t
  obtain ⟨ended',last'⟩ := s
  cases ended <;> cases ended' <;> rfl

theorem splitLines_cons {c : Char} {text : List Char} (hlf : c ≠ '\n') (hcr : c ≠ '\r') :
    splitLines (c :: text) = (splitLines text).cons c :=
  splitLines.eq_5 c text hlf (fun _ h _ => hcr h) hcr

theorem splitLines_append {text more : List Char} (h : CleanCut text more) :
    splitLines (text ++ more) = (splitLines text).append (splitLines more) := by
  induction text using splitLines.induct with
  | case1 =>
    rw [List.nil_append,splitLines]
    rcases splitLines more with ⟨_ | ⟨_,_⟩,_⟩ <;> rfl
  | case2 text ih =>
    rw [List.cons_append,splitLines,splitLines,ih h.tail,Split.append_ends]
  | case3 text ih =>
    rw [List.cons_append,List.cons_append,splitLines,splitLines,ih h.tail.tail,Split.append_ends]
  | case4 text hnot ih =>
    have hnot' : ∀ rest, text ++ more = '\n' :: rest → False := by
      intro rest hrest
      cases text with
      | nil => exact h ⟨rfl,by rw [List.nil_append] at hrest; rw [hrest]; rfl⟩
      | cons d text => exact hnot text (congrArg (· :: text) (List.cons.inj hrest).1)
    rw [List.cons_append,splitLines.eq_4 _ hnot',splitLines.eq_4 _ hnot,ih h.tail,Split.append_ends]
  | case5 c text hlf hcrlf hcr ih =>
    rw [List.cons_append,splitLines_cons hlf hcr,splitLines_cons hlf hcr,ih h.tail,Split.append_cons]

/-- The lines that follow the first one. -/
def Split.rest (s : Split) : List (List Char) :=
  match s.ended with
  | [] => []
  | _ :: more => more.map Prod.fst ++ [s.last]

theorem editorLines_append {text more : List Char} (h : CleanCut text more) :
    editorLines (text ++ more) = (splitLines text).ended.map Prod.fst ++
      ((splitLines text).last ++ (splitLines more).first) :: (splitLines more).rest := by
  rw [editorLines,splitLines_append h]
  rcases splitLines more with ⟨_ | ⟨⟨line,finish⟩,ended⟩,last⟩
  · simp [Split.append,Split.first,Split.rest]
  · simp [Split.append,Split.first,Split.rest]

@[simp] theorem lineUnits_append (lines more : List (List Char)) :
    lineUnits (lines ++ more) = lineUnits lines + lineUnits more := by simp [lineUnits]

@[simp] theorem lineUnits_cons (line : List Char) (lines : List (List Char)) :
    lineUnits (line :: lines) = utf16Units line + 1 + lineUnits lines := by simp [lineUnits]

@[simp] theorem lineUnits_nil : lineUnits [] = 0 := rfl

/-- The units of a text are those of its parts. -/
theorem editorOffset_append {text more : List Char} (h : CleanCut text more) :
    editorOffset (text ++ more) = editorOffset text + editorOffset more := by
  rw [editorOffset,editorOffset,editorOffset,splitLines_append h]
  rcases splitLines more with ⟨_ | ⟨⟨line,finish⟩,ended⟩,last⟩
  · simp [Split.append]
    omega
  · simp [Split.append]
    omega

theorem splitLines_plain {text : List Char} (h : ∀ c ∈ text, c ≠ '\n' ∧ c ≠ '\r') :
    splitLines text = ⟨[],text⟩ := by
  induction text with
  | nil => rfl
  | cons c text ih =>
    obtain ⟨⟨hlf,hcr⟩,htext⟩ := List.forall_mem_cons.mp h
    rw [splitLines_cons hlf hcr,ih htext]
    rfl

theorem editorOffset_cons (c : Char) (text : List Char) (h : CleanCut [c] text) :
    editorOffset (c :: text) = editorOffset [c] + editorOffset text := by
  rw [← List.singleton_append,editorOffset_append h]

/-- Without line feeds every character has its own units, a carriage return one as a line end. -/
theorem editorOffset_of_not_mem {text : List Char} (h : '\n' ∉ text) : editorOffset text = utf16Units text := by
  induction text with
  | nil => rfl
  | cons c text ih =>
    obtain ⟨hc,htext⟩ := not_or.mp (mt List.mem_cons.mpr h)
    have hclean : CleanCut [c] text := by
      rintro ⟨-,hhead⟩
      exact htext (List.mem_of_mem_head? hhead)
    rw [editorOffset_cons c text hclean,ih htext,utf16Units_cons]
    by_cases hcr : c = '\r'
    · subst hcr
      rfl
    · rw [editorOffset,splitLines_cons (Ne.symm hc) hcr]
      simp [splitLines,Split.cons]

theorem first_takeWhile (text : List Char) :
    (splitLines text).first = text.takeWhile (fun c => c != '\n' && c != '\r') := by
  induction text using splitLines.induct with
  | case1 => rfl
  | case2 text ih => rfl
  | case3 text ih => rfl
  | case4 text hnot ih =>
    rw [splitLines.eq_4 _ hnot]
    rfl
  | case5 c text hlf hcrlf hcr ih =>
    have hplain : (c != '\n' && c != '\r') = true := by simp [show c ≠ '\n' from hlf,show c ≠ '\r' from hcr]
    rw [splitLines_cons hlf hcr,List.takeWhile_cons,if_pos hplain,← ih]
    rcases splitLines text with ⟨_ | ⟨⟨line,finish⟩,ended⟩,last⟩ <;> rfl

theorem CleanCut.of_append {text middle more : List Char} (h : CleanCut text (middle ++ more)) :
    CleanCut text middle := by
  rintro ⟨hlast,hhead⟩
  exact h ⟨hlast,by rw [List.head?_append,hhead]; rfl⟩

theorem splitLines_append_plain {text middle : List Char} (hclean : CleanCut text middle)
    (h : ∀ c ∈ middle, c ≠ '\n' ∧ c ≠ '\r') :
    splitLines (text ++ middle) = ⟨(splitLines text).ended,(splitLines text).last ++ middle⟩ := by
  rw [splitLines_append hclean,splitLines_plain h]
  rfl

theorem join_splitLines (text : List Char) :
    (splitLines text).ended.flatMap (fun line => line.1 ++ line.2.text) ++ (splitLines text).last = text := by
  induction text using splitLines.induct with
  | case1 => rfl
  | case2 text ih => exact congrArg ('\n' :: ·) ih
  | case3 text ih => exact congrArg (fun text => '\r' :: '\n' :: text) ih
  | case4 text hnot ih =>
    rw [splitLines.eq_4 _ hnot]
    exact congrArg ('\r' :: ·) ih
  | case5 c text hlf hcrlf hcr ih =>
    rw [splitLines_cons hlf hcr]
    refine Eq.trans ?_ (congrArg (c :: ·) ih)
    rcases splitLines text with ⟨_ | ⟨⟨line,finish⟩,ended⟩,last⟩ <;> rfl

theorem plain_last (text : List Char) : ∀ c ∈ (splitLines text).last, c ≠ '\n' ∧ c ≠ '\r' := by
  induction text using splitLines.induct with
  | case1 => simp [splitLines]
  | case2 text ih => exact ih
  | case3 text ih => exact ih
  | case4 text hnot ih =>
    rw [splitLines.eq_4 _ hnot]
    exact ih
  | case5 c text hlf hcrlf hcr ih =>
    rw [splitLines_cons hlf hcr]
    generalize splitLines text = s at ih
    rcases s with ⟨_ | ⟨⟨line,finish⟩,ended⟩,last⟩
    · exact List.forall_mem_cons.mpr ⟨⟨hlf,hcr⟩,ih⟩
    · exact ih

def Split.rows (s : Split) : ℕ := s.ended.countP (fun line => line.2 ≠ .cr)

theorem Split.rows_ends (finish : LineEnd) (s : Split) :
    (s.ends finish).rows = s.rows + if finish = .cr then 0 else 1 := by
  rw [Split.rows,Split.rows,Split.ends,List.countP_cons]
  cases finish <;> rfl

theorem Split.rows_cons (c : Char) (s : Split) : (s.cons c).rows = s.rows := by
  rcases s with ⟨_ | ⟨⟨line,finish⟩,ended⟩,last⟩ <;> rfl

theorem rows_eq_count (text : List Char) : (splitLines text).rows = text.count '\n' := by
  induction text using splitLines.induct with
  | case1 => rfl
  | case2 text ih =>
    rw [splitLines,Split.rows_ends,ih,List.count_cons_self]
    rfl
  | case3 text ih =>
    rw [splitLines,Split.rows_ends,ih,List.count_cons_of_ne (by decide),List.count_cons_self]
    rfl
  | case4 text hnot ih =>
    rw [splitLines.eq_4 _ hnot,Split.rows_ends,ih,List.count_cons_of_ne (by decide)]
    rfl
  | case5 c text hlf hcrlf hcr ih =>
    rw [splitLines_cons hlf hcr,Split.rows_cons,ih,List.count_cons_of_ne hlf]

theorem last_eq_nil {text : List Char} (h : text = [] ∨ text.getLast? = some '\n') : (splitLines text).last = [] := by
  rcases h with rfl | h
  · rfl
  · by_contra hne
    rw [← join_splitLines text,List.getLast?_append_of_ne_nil _ hne] at h
    exact (plain_last text '\n' (List.mem_of_getLast? h)).1 rfl

def Split.Fed (s : Split) : Prop := ∀ line ∈ s.ended, line.2 ≠ .cr

theorem Split.rows_le (s : Split) : s.rows ≤ s.ended.length := List.countP_le_length

theorem Split.rows_eq_iff (s : Split) : s.rows = s.ended.length ↔ s.Fed := by
  rw [Split.rows,List.countP_eq_length,Split.Fed]
  simp

theorem Split.Fed.before_last {text : List Char} (h : (splitLines text).Fed) :
    ∃ before, text = before ++ (splitLines text).last ∧ (before = [] ∨ ∃ more, before = more ++ ['\n']) := by
  refine ⟨_,(join_splitLines text).symm,?_⟩
  rcases List.eq_nil_or_concat (splitLines text).ended with hnil | ⟨ended,⟨line,finish⟩,hended⟩
  · rw [hnil]
    exact .inl rfl
  · right
    have hfinish := h (line,finish) (by rw [hended]; simp)
    rw [hended,List.concat_eq_append,List.flatMap_append,List.flatMap_singleton]
    cases finish with
    | lf => exact ⟨_,(List.append_assoc _ _ _).symm⟩
    | crlf => exact ⟨ended.flatMap (fun line => line.1 ++ line.2.text) ++ (line ++ ['\r']),by simp [LineEnd.text]⟩
    | cr => exact absurd rfl hfinish

/-- A line before the last one ends before the end of the text. -/
theorem lineUnits_take_lt {lines : List (List Char)} {i : ℕ} (h : i < lines.length) :
    lineUnits (lines.take i) + utf16Units lines[i] < lineUnits lines := by
  have hsplit := List.take_append_drop i lines
  have hdrop := List.drop_eq_getElem_cons h
  have hunits := congrArg lineUnits hsplit
  rw [lineUnits_append,hdrop,lineUnits_cons] at hunits
  omega

end LatexCore.Foundation
