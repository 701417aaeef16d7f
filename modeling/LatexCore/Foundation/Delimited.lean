import Mathlib.Tactic.Common

/-! # Delimited texts

A scanner reads symbols one by one from its rest state. A delimiter counts only where
the scanner is at rest, so a text is contained in what the delimiter ends exactly if
the delimiter never counts in it and the scanner is at rest after it.
-/
namespace LatexCore.Foundation

structure Scanner (α σ : Type*) where
  rest : σ
  step : σ → α → Option σ

namespace Scanner
variable {α σ : Type*} [DecidableEq α] [DecidableEq σ] (m : Scanner α σ) (stop : α)

/-- The state after a text in which the delimiter does not count. -/
def free : σ → List α → Option σ
  | s,[] => some s
  | s,c :: text => if s = m.rest ∧ c = stop then none else (m.step s c).bind (fun t => free t text)

def Contained (text : List α) : Prop := m.free stop m.rest text = some m.rest

instance (text : List α) : Decidable (m.Contained stop text) :=
  inferInstanceAs (Decidable (m.free stop m.rest text = some m.rest))

/-- The text up to the first delimiter that counts, and what follows it. -/
def upTo : σ → List α → Option (List α × List α)
  | _,[] => none
  | s,c :: text =>
    if s = m.rest ∧ c = stop then some ([],text)
    else (m.step s c).bind (fun t => (upTo t text).map (fun found => (c :: found.1,found.2)))

/-- The texts between the delimiters that count; the scanner ends at rest. -/
def pieces : σ → List α → Option (List (List α))
  | s,[] => if s = m.rest then some [[]] else none
  | s,c :: text =>
    if s = m.rest ∧ c = stop then (pieces m.rest text).map ([] :: ·)
    else (m.step s c).bind (fun t => (pieces t text).map (fun found => (c :: found.headD []) :: found.tail))

variable {m stop}

theorem free_append (s : σ) (text more : List α) :
    m.free stop s (text ++ more) = (m.free stop s text).bind (fun t => m.free stop t more) := by
  induction text generalizing s with
  | nil => rfl
  | cons c text ih =>
    rw [List.cons_append,free,free]
    split
    · rfl
    · rw [Option.bind_assoc]
      exact congrArg _ (funext fun t => ih t)

theorem free_cons {s : σ} {c : α} {text : List α} (h : c ≠ stop) :
    m.free stop s (c :: text) = (m.step s c).bind (fun t => m.free stop t text) := by
  rw [free,if_neg fun hstop => h hstop.2]

theorem free_cons_of_ne {s : σ} {c : α} {text : List α} (h : s ≠ m.rest) :
    m.free stop s (c :: text) = (m.step s c).bind (fun t => m.free stop t text) := by
  rw [free,if_neg fun hstop => h hstop.1]

theorem Contained.append {text more : List α} (h : m.Contained stop text) (h' : m.Contained stop more) :
    m.Contained stop (text ++ more) := by
  rw [Contained,free_append,h]
  exact h'

theorem contained_nil : m.Contained stop [] := rfl

/-- The delimiter has no part in the state that is reached. -/
theorem free_foldlM {s t : σ} {text : List α} (h : m.free stop s text = some t) : text.foldlM m.step s = some t := by
  induction text generalizing s with
  | nil => exact h
  | cons c text ih =>
    rw [free] at h
    split at h
    · cases h
    · obtain ⟨u,hstep,hfree⟩ := Option.bind_eq_some_iff.mp h
      rw [List.foldlM_cons,hstep]
      exact ih hfree

theorem Contained.of_append {stop' : α} {text more : List α} (h : m.Contained stop (text ++ more))
    (h' : m.Contained stop' text) : m.Contained stop text ∧ m.Contained stop more := by
  rw [Contained,free_append] at h
  obtain ⟨t,htext,hmore⟩ := Option.bind_eq_some_iff.mp h
  have hrest : t = m.rest := Option.some.inj ((free_foldlM htext).symm.trans (free_foldlM h'))
  subst hrest
  exact ⟨htext,hmore⟩

theorem upTo_eq_some {s : σ} {text content after : List α} :
    m.upTo stop s text = some (content,after) ↔
      text = content ++ stop :: after ∧ m.free stop s content = some m.rest := by
  induction text generalizing s content with
  | nil => simp [upTo]
  | cons c text ih =>
    rw [upTo]
    split
    · next hstop =>
      obtain ⟨rfl,rfl⟩ := hstop
      rw [Option.some.injEq,Prod.mk.injEq]
      constructor
      · rintro ⟨rfl,rfl⟩
        exact ⟨rfl,rfl⟩
      · rintro ⟨htext,hfree⟩
        cases content with
        | nil => exact ⟨rfl,(List.cons.inj htext).2⟩
        | cons d content =>
          obtain ⟨rfl,-⟩ := List.cons.inj htext
          rw [free,if_pos ⟨rfl,rfl⟩] at hfree
          cases hfree
    · next hstop =>
      simp only [Option.bind_eq_some_iff,Option.map_eq_some_iff,Prod.exists,Prod.mk.injEq]
      constructor
      · rintro ⟨t,hstep,content,_,hfound,rfl,rfl⟩
        obtain ⟨rfl,hfree⟩ := ih.mp hfound
        refine ⟨rfl,?_⟩
        rw [free,if_neg hstop,hstep]
        exact hfree
      · rintro ⟨htext,hfree⟩
        cases content with
        | nil =>
          obtain ⟨rfl,-⟩ := List.cons.inj htext
          exact absurd ⟨Option.some.inj hfree,rfl⟩ hstop
        | cons d content =>
          obtain ⟨rfl,hrest⟩ := List.cons.inj htext
          rw [free,if_neg hstop] at hfree
          obtain ⟨t,hstep,hfree⟩ := Option.bind_eq_some_iff.mp hfree
          exact ⟨t,hstep,content,after,ih.mpr ⟨hrest,hfree⟩,rfl,rfl⟩

/-- A delimited text is read up to its delimiter exactly if it is contained. -/
theorem upTo_append_iff {content after : List α} :
    m.upTo stop m.rest (content ++ stop :: after) = some (content,after) ↔ m.Contained stop content :=
  upTo_eq_some.trans ⟨And.right,fun h => ⟨rfl,h⟩⟩

theorem pieces_ne_nil (s : σ) (text : List α) : m.pieces stop s text ≠ some [] := by
  intro h
  cases text with
  | nil =>
    rw [pieces] at h
    split at h <;> cases h
  | cons c text =>
    rw [pieces] at h
    split at h
    · obtain ⟨found,-,hfound⟩ := Option.map_eq_some_iff.mp h
      cases hfound
    · simp only [Option.bind_eq_some_iff,Option.map_eq_some_iff] at h
      obtain ⟨_,-,found,-,hfound⟩ := h
      cases hfound

theorem pieces_cons_eq_some {s : σ} {text first : List α} {more : List (List α)} :
    m.pieces stop s text = some (first :: more) ↔
      text = first ++ more.flatMap (stop :: ·) ∧ m.free stop s first = some m.rest ∧
        ∀ piece ∈ more, m.Contained stop piece := by
  induction text generalizing s first more with
  | nil =>
    rw [pieces]
    split
    · next hrest =>
      subst hrest
      rw [Option.some.injEq,List.cons.injEq]
      constructor
      · rintro ⟨rfl,rfl⟩
        exact ⟨rfl,rfl,by simp⟩
      · rintro ⟨htext,-,-⟩
        obtain ⟨rfl,hmore⟩ := List.append_eq_nil_iff.mp htext.symm
        cases more with
        | nil => exact ⟨rfl,rfl⟩
        | cons piece more => simp at hmore
    · next hrest =>
      refine ⟨fun h => (by cases h),?_⟩
      rintro ⟨htext,hfree,-⟩
      obtain ⟨rfl,-⟩ := List.append_eq_nil_iff.mp htext.symm
      exact absurd (Option.some.inj hfree) hrest
  | cons c text ih =>
    rw [pieces]
    split
    · next hstop =>
      obtain ⟨rfl,rfl⟩ := hstop
      rw [Option.map_eq_some_iff]
      constructor
      · rintro ⟨found,hfound,hsame⟩
        obtain ⟨rfl,rfl⟩ := List.cons.inj hsame
        cases found with
        | nil => exact absurd hfound (pieces_ne_nil _ _)
        | cons piece found =>
          obtain ⟨rfl,hfree,hothers⟩ := ih.mp hfound
          exact ⟨rfl,rfl,List.forall_mem_cons.mpr ⟨hfree,hothers⟩⟩
      · rintro ⟨htext,hfree,hothers⟩
        cases first with
        | nil =>
          cases more with
          | nil => simp at htext
          | cons piece more =>
            rw [List.forall_mem_cons] at hothers
            exact ⟨_,ih.mpr ⟨(List.cons.inj htext).2,hothers⟩,rfl⟩
        | cons d first =>
          obtain ⟨rfl,-⟩ := List.cons.inj htext
          rw [free,if_pos ⟨rfl,rfl⟩] at hfree
          cases hfree
    · next hstop =>
      simp only [Option.bind_eq_some_iff,Option.map_eq_some_iff]
      constructor
      · rintro ⟨t,hstep,found,hfound,hsame⟩
        cases found with
        | nil => exact absurd hfound (pieces_ne_nil _ _)
        | cons piece found =>
          obtain ⟨rfl,rfl⟩ := List.cons.inj hsame
          obtain ⟨rfl,hfree,hothers⟩ := ih.mp hfound
          refine ⟨rfl,?_,hothers⟩
          rw [free,if_neg hstop,hstep]
          exact hfree
      · rintro ⟨htext,hfree,hothers⟩
        cases first with
        | nil =>
          have hrest : s = m.rest := Option.some.inj hfree
          cases more with
          | nil => simp at htext
          | cons piece more =>
            obtain ⟨rfl,-⟩ := List.cons.inj htext
            exact absurd ⟨hrest,rfl⟩ hstop
        | cons d first =>
          obtain ⟨rfl,hrest⟩ := List.cons.inj htext
          rw [free,if_neg hstop] at hfree
          obtain ⟨t,hstep,hfree⟩ := Option.bind_eq_some_iff.mp hfree
          exact ⟨t,hstep,_,ih.mpr ⟨hrest,hfree,hothers⟩,rfl⟩

theorem pieces_append {s : σ} {text after : List α} (h : m.free stop s text = some m.rest) :
    m.pieces stop s (text ++ stop :: after) = (m.pieces stop m.rest after).map (text :: ·) := by
  induction text generalizing s with
  | nil => rw [List.nil_append,pieces,if_pos ⟨Option.some.inj h,rfl⟩]
  | cons c text ih =>
    rw [free] at h
    split at h
    · cases h
    · next hstop =>
      obtain ⟨t,hstep,hfree⟩ := Option.bind_eq_some_iff.mp h
      rw [List.cons_append,pieces,if_neg hstop,hstep,Option.bind_some,ih hfree,Option.map_map]
      rfl

theorem pieces_ended {texts : List (List α)} (h : ∀ text ∈ texts, m.Contained stop text) :
    m.pieces stop m.rest (texts.flatMap (· ++ [stop])) = some (texts ++ [[]]) := by
  induction texts with
  | nil => exact if_pos rfl
  | cons text texts ih =>
    obtain ⟨htext,htexts⟩ := List.forall_mem_cons.mp h
    rw [List.flatMap_cons,List.append_assoc,List.singleton_append,pieces_append htext,ih htexts]
    rfl

theorem pieces_intercalate {first : List α} {more : List (List α)} (hfirst : m.Contained stop first)
    (hmore : ∀ text ∈ more, m.Contained stop text) :
    m.pieces stop m.rest ([stop].intercalate (first :: more)) = some (first :: more) := by
  induction more generalizing first with
  | nil => exact pieces_cons_eq_some.mpr ⟨by simp,hfirst,by simp⟩
  | cons next more ih =>
    obtain ⟨hnext,hmore⟩ := List.forall_mem_cons.mp hmore
    rw [List.intercalate_cons_cons,List.append_assoc,List.singleton_append,pieces_append hfirst,ih hnext hmore]
    rfl

end Scanner

/-! ## Comma-separated values

A field in double quotes holds any text, with each of its double quotes written twice; another field
is the text itself. Each record ends with a line feed.
-/
namespace Csv

def scanner : Scanner Char Bool := ⟨false,fun quoted c => some (if c = '"' then !quoted else quoted)⟩

def double (text : List Char) : List Char := text.flatMap (fun c => if c = '"' then ['"','"'] else [c])

def quote (text : List Char) : List Char := '"' :: (double text ++ ['"'])

/-- What follows the opening quote of a field. -/
def readQuoted : List Char → Option (List Char)
  | [] => none
  | ['"'] => some []
  | '"' :: '"' :: text => (readQuoted text).map ('"' :: ·)
  | c :: text => if c = '"' then none else (readQuoted text).map (c :: ·)

def readField : List Char → Option (List Char)
  | '"' :: text => readQuoted text
  | text => if '"' ∈ text then none else some text

def readRecord (text : List Char) : Option (List (List Char)) :=
  (scanner.pieces ',' false text).bind (fun fields => fields.mapM readField)

def read (text : List Char) : Option (List (List (List Char))) :=
  (scanner.pieces '\n' false text).bind (fun records =>
    if records.getLast? = some [] then records.dropLast.mapM readRecord else none)

def record (fields : List (List Char)) : List Char := [','].intercalate fields

def Written (value text : List Char) : Prop :=
  text = quote value ∨ text = value ∧ ∀ c ∈ value, c ≠ '"' ∧ c ≠ ',' ∧ c ≠ '\n'

/-- A value with a field that is written for it. -/
structure Cell where
  value : List Char
  text : List Char
  written : Written value text

theorem double_quote (text : List Char) : double ('"' :: text) = '"' :: '"' :: double text := rfl

theorem double_cons {c : Char} (h : c ≠ '"') (text : List Char) : double (c :: text) = c :: double text := by
  simp [double,h]

theorem readQuoted_cons {c : Char} (h : c ≠ '"') (text : List Char) :
    readQuoted (c :: text) = (readQuoted text).map (c :: ·) := by
  cases text <;> simp [readQuoted,h]

theorem readQuoted_double (text : List Char) : readQuoted (double text ++ ['"']) = some text := by
  induction text with
  | nil => rfl
  | cons c text ih =>
    by_cases hc : c = '"'
    · subst hc
      rw [double_quote,List.cons_append,List.cons_append,readQuoted,ih]
      rfl
    · rw [double_cons hc,List.cons_append,readQuoted_cons hc,ih]
      rfl

theorem free_double {stop : Char} (h : '"' ≠ stop) (text : List Char) :
    scanner.free stop true (double text) = some true := by
  induction text with
  | nil => rfl
  | cons c text ih =>
    by_cases hc : c = '"'
    · subst hc
      rw [double_quote,Scanner.free_cons_of_ne (by decide)]
      exact (Scanner.free_cons h).trans ih
    · rw [double_cons hc,Scanner.free_cons_of_ne (by decide)]
      simp only [scanner,if_neg hc]
      exact ih

theorem contained_quote {stop : Char} (h : '"' ≠ stop) (text : List Char) :
    scanner.Contained stop (quote text) := by
  rw [Scanner.Contained,quote,Scanner.free_cons h]
  change scanner.free stop true (double text ++ ['"']) = some false
  rw [Scanner.free_append,free_double h]
  exact Scanner.free_cons_of_ne (by decide)

theorem contained_of_bare {stop : Char} {text : List Char} (h : ∀ c ∈ text, c ≠ '"' ∧ c ≠ stop) :
    scanner.Contained stop text := by
  induction text with
  | nil => exact Scanner.contained_nil
  | cons c text ih =>
    obtain ⟨⟨hquote,hstop⟩,htext⟩ := List.forall_mem_cons.mp h
    rw [Scanner.Contained,Scanner.free_cons hstop]
    have hstep : scanner.step scanner.rest c = some scanner.rest := by simp [scanner,hquote]
    rw [hstep]
    exact ih htext

theorem Cell.contained (cell : Cell) :
    scanner.Contained ',' cell.text ∧ scanner.Contained '\n' cell.text := by
  obtain ⟨value,text,rfl | ⟨rfl,hbare⟩⟩ := cell
  · exact ⟨contained_quote (by decide) _,contained_quote (by decide) _⟩
  · exact ⟨contained_of_bare fun c hc => ⟨(hbare c hc).1,(hbare c hc).2.1⟩,
      contained_of_bare fun c hc => ⟨(hbare c hc).1,(hbare c hc).2.2⟩⟩

theorem Cell.reads (cell : Cell) : readField cell.text = some cell.value := by
  obtain ⟨value,text,rfl | ⟨rfl,hbare⟩⟩ := cell
  · exact readQuoted_double value
  · have hquote : '"' ∉ text := fun hc => (hbare _ hc).1 rfl
    cases text with
    | nil => rfl
    | cons c text =>
      have hc : ∀ rest, c :: text = '"' :: rest → False := by
        intro rest hsame
        rw [hsame] at hquote
        exact hquote List.mem_cons_self
      exact (readField.eq_2 _ hc).trans (if_neg hquote)

theorem contained_record {fields : List (List Char)} (h : ∀ field ∈ fields, scanner.Contained '\n' field) :
    scanner.Contained '\n' (record fields) := by
  induction fields with
  | nil => exact Scanner.contained_nil
  | cons field fields ih =>
    obtain ⟨hfield,hfields⟩ := List.forall_mem_cons.mp h
    cases fields with
    | nil =>
      rw [record,List.intercalate_singleton]
      exact hfield
    | cons next fields =>
      rw [record,List.intercalate_cons_cons]
      exact (hfield.append (by decide)).append (ih hfields)

theorem mapM_map {α β γ : Type*} {f : α → Option β} {g : γ → α} {value : γ → β} {items : List γ}
    (h : ∀ item ∈ items, f (g item) = some (value item)) : (items.map g).mapM f = some (items.map value) := by
  induction items with
  | nil => rfl
  | cons item items ih =>
    obtain ⟨hitem,hitems⟩ := List.forall_mem_cons.mp h
    rw [List.map_cons,List.mapM_cons,hitem,ih hitems]
    rfl

theorem readRecord_record {row : List Cell} (h : row ≠ []) :
    readRecord (record (row.map Cell.text)) = some (row.map Cell.value) := by
  cases row with
  | nil => exact absurd rfl h
  | cons cell row =>
    have hpieces := Scanner.pieces_intercalate cell.contained.1 (List.forall_mem_map.mpr
      fun (cell : Cell) (_ : cell ∈ row) => cell.contained.1)
    have hreads := mapM_map fun (c : Cell) (_ : c ∈ cell :: row) => c.reads
    exact (congrArg (Option.bind · _) hpieces).trans hreads

theorem read_rows {rows : List (List Cell)} (h : ∀ row ∈ rows, row ≠ []) :
    read (rows.flatMap (fun row => record (row.map Cell.text) ++ ['\n'])) =
      some (rows.map (fun row => row.map Cell.value)) := by
  have hlines : ∀ line ∈ rows.map (fun row => record (row.map Cell.text)),
      scanner.Contained '\n' line := by
    intro line hline
    obtain ⟨row,_,rfl⟩ := List.mem_map.mp hline
    exact contained_record (List.forall_mem_map.mpr fun cell _ => cell.contained.2)
  have hpieces := Scanner.pieces_ended hlines
  rw [List.flatMap_map] at hpieces
  refine (congrArg (Option.bind · _) hpieces).trans ?_
  rw [Option.bind_some,List.getLast?_concat,if_pos rfl,List.dropLast_concat]
  exact mapM_map fun row hrow => readRecord_record (h row hrow)

end Csv
end LatexCore.Foundation
