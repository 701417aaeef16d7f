import LatexCore.TexIndex.Tlpdb

/-! # Lines, blocks and paragraphs

A text holds lines, each ended by `\n` or `\r\n`. The reader of a package database
rewrites the line ends, cuts the text at double newlines and reads the lines of each
block. Up to blank lines the blocks are the paragraphs of the text, the runs of lines
between blank lines, whatever the line ends and the number of blank lines, so reading
a text is reading its paragraphs.
-/
namespace LatexCore.TexIndex
open Core Foundation

/-! ## Lines -/

def IsLine (text : List Char) : Prop := '\n' ∉ text ∧ text.getLast? ≠ some '\r'

instance (text : List Char) : Decidable (IsLine text) := inferInstanceAs (Decidable (_ ∧ _))

def IsLineEnd (text : List Char) : Prop := text = ['\n'] ∨ text = ['\r','\n']

instance (text : List Char) : Decidable (IsLineEnd text) := inferInstanceAs (Decidable (_ ∨ _))

/-- The text is these lines; the last one is not ended, and may be empty. -/
inductive Written : List (List Char) → List Char → Prop
  | last {line : List Char} (hline : IsLine line) : Written [line] line
  | line {line lineEnd text : List Char} {rest : List (List Char)} (hline : IsLine line)
      (hend : IsLineEnd lineEnd) (hrest : Written rest text) :
      Written (line :: rest) (line ++ lineEnd ++ text)

/-- The runs of lines between blank lines. -/
def paragraphs (written : List (List Char)) : List (List (List Char)) :=
  (written.splitOn []).filter (· ≠ [])

variable {line text : List Char} {written : List (List Char)}

theorem IsLine.tail {c : Char} (h : IsLine (c :: text)) : IsLine text := by
  refine ⟨fun hmem => h.1 (List.mem_cons_of_mem _ hmem),fun hlast => h.2 ?_⟩
  rw [List.getLast?_cons,hlast]
  rfl

theorem isLine_nil : IsLine [] := ⟨by simp,by simp⟩

theorem IsLine.head {c : Char} (h : IsLine (c :: text)) :
    c ≠ '\n' ∧ (c = '\r' → ∃ d rest, text = d :: rest ∧ d ≠ '\n') := by
  refine ⟨fun hc => h.1 (by simp [hc]),fun hc => ?_⟩
  cases text with
  | nil => exact absurd (by simp [hc]) h.2
  | cons d rest => exact ⟨d,rest,rfl,fun hd => h.1 (by simp [hd])⟩

theorem replaceCrlf_line (h : IsLine line) (text : List Char) :
    replaceCrlf (line ++ '\n' :: text) = line ++ '\n' :: replaceCrlf text := by
  induction line with
  | nil => rfl
  | cons c line ih =>
    have hrest := ih h.tail
    rw [List.cons_append,replaceCrlf,hrest]
    · rfl
    · intro rest hc hrest
      obtain ⟨d,later,rfl,hd⟩ := h.head.2 hc
      exact hd (List.cons.inj hrest).1

theorem replaceCrlf_line_crlf (h : IsLine line) (text : List Char) :
    replaceCrlf (line ++ '\r' :: '\n' :: text) = line ++ '\n' :: replaceCrlf text := by
  induction line with
  | nil => rfl
  | cons c line ih =>
    have hrest := ih h.tail
    rw [List.cons_append,replaceCrlf,hrest]
    · rfl
    · intro rest hc hrest
      obtain ⟨d,later,rfl,hd⟩ := h.head.2 hc
      exact hd (List.cons.inj hrest).1

theorem replaceCrlf_last (h : IsLine line) : replaceCrlf line = line := by
  induction line with
  | nil => rfl
  | cons c line ih =>
    rw [replaceCrlf,ih h.tail]
    intro rest hc hrest
    obtain ⟨d,later,rfl,hd⟩ := h.head.2 hc
    exact hd (List.cons.inj hrest).1

theorem lines_line (h : IsLine line) (text : List Char) :
    lines (line ++ '\n' :: text) = line :: lines text := by
  induction line with
  | nil => rfl
  | cons c line ih =>
    have hrest := ih h.tail
    rw [List.cons_append,lines,hrest]
    · intro hc
      exact absurd hc h.head.1
    · intro rest hc hrest
      obtain ⟨d,later,rfl,hd⟩ := h.head.2 hc
      exact hd (List.cons.inj hrest).1

theorem Written.ne_nil (h : Written written text) : written ≠ [] := by
  cases h <;> simp

/-- The lines with this end after each but the last. -/
def endedBy (lineEnd : List Char) : List (List Char) → List Char
  | [] => []
  | [line] => line
  | line :: rest => line ++ lineEnd ++ endedBy lineEnd rest

theorem endedBy_cons {lineEnd : List Char} (hwritten : written ≠ []) :
    endedBy lineEnd (line :: written) = line ++ lineEnd ++ endedBy lineEnd written := by
  obtain ⟨first,rest,rfl⟩ := List.exists_cons_of_ne_nil hwritten
  rfl

theorem written_endedBy {lineEnd : List Char} (hend : IsLineEnd lineEnd) (hwritten : written ≠ [])
    (hlines : ∀ line ∈ written, IsLine line) : Written written (endedBy lineEnd written) := by
  induction written with
  | nil => exact absurd rfl hwritten
  | cons line rest ih =>
    rw [List.forall_mem_cons] at hlines
    by_cases hrest : rest = []
    · subst hrest
      exact .last hlines.1
    · rw [endedBy_cons hrest]
      exact .line hlines.1 hend (ih hrest hlines.2)

/-- The text with every line end a `\n`. -/
def unixText (written : List (List Char)) : List Char := endedBy ['\n'] written

theorem unixText_last (line : List Char) : unixText [line] = line := rfl

theorem unixText_cons (hwritten : written ≠ []) :
    unixText (line :: written) = line ++ '\n' :: unixText written := by
  rw [unixText,endedBy_cons hwritten]
  simp [unixText]

theorem Written.isLine (h : Written written text) : ∀ line ∈ written, IsLine line := by
  induction h with
  | last hline => simpa using hline
  | line hline _ _ ih => exact List.forall_mem_cons.mpr ⟨hline,ih⟩

theorem Written.replaceCrlf (h : Written written text) : replaceCrlf text = unixText written := by
  induction h with
  | last hline => exact replaceCrlf_last hline
  | line hline hend hrest ih =>
    rw [unixText_cons hrest.ne_nil,← ih,List.append_assoc]
    rcases hend with rfl | rfl
    · exact replaceCrlf_line hline _
    · exact replaceCrlf_line_crlf hline _

/-! ## Blocks and paragraphs -/

theorem blocks_ne_nil (text : List Char) : blocks text ≠ [] := by
  fun_induction blocks text with
  | case1 => simp
  | case2 => simp
  | case3 c rest _ ih => simpa using ih

theorem blocks_line (h : IsLine line) (text : List Char) :
    blocks (line ++ text) = (blocks text).modifyHead (line ++ ·) := by
  induction line with
  | nil =>
    obtain ⟨first,rest,hblocks⟩ := List.exists_cons_of_ne_nil (blocks_ne_nil text)
    simp [hblocks]
  | cons c line ih =>
    obtain ⟨first,rest,hblocks⟩ := List.exists_cons_of_ne_nil (blocks_ne_nil text)
    rw [List.cons_append,blocks,ih h.tail,hblocks]
    · rfl
    · intro later hc
      exact absurd hc h.head.1

/-- A blank line changes nothing at the head of a block. -/
def trimmed (block : List (List Char)) : List (List Char) := block.dropWhile (· = [])

/-- What the lines of blocks say. -/
def tidy (found : List (List (List Char))) : List (List (List Char)) :=
  (found.map trimmed).filter (· ≠ [])

theorem tidy_cons (block : List (List Char)) (found : List (List (List Char))) :
    tidy (block :: found) = (if trimmed block = [] then [] else [trimmed block]) ++ tidy found := by
  by_cases hempty : trimmed block = []
  · simp [tidy,hempty]
  · simp [tidy,hempty]

theorem trimmed_blank (block : List (List Char)) : trimmed ([] :: block) = trimmed block := by
  simp [trimmed]

theorem trimmed_line (hline : line ≠ []) (block : List (List Char)) :
    trimmed (line :: block) = line :: block := by
  simp [trimmed,hline]

def blockLines (written : List (List Char)) : List (List (List Char)) :=
  (blocks (unixText written)).map lines

theorem blockLines_last (hline : IsLine line) :
    blockLines [line] = [if line = [] then [] else [line]] := by
  have hblocks := blocks_line hline []
  rw [List.append_nil] at hblocks
  rw [blockLines,unixText_last,hblocks,← lines_of_not_mem hline.1]
  simp [blocks]

theorem blockLines_blank (hline : IsLine line) (hwritten : written ≠ []) :
    blockLines (line :: [] :: written) = lines line :: blockLines written := by
  rw [blockLines,unixText_cons (by simp),unixText_cons hwritten,blocks_line hline,List.nil_append,blocks]
  simp [blockLines]

theorem blockLines_line {next : List Char} (hline : IsLine line) (hnext : IsLine next) (hne : next ≠ []) :
    blockLines (line :: next :: written) =
      (blockLines (next :: written)).modifyHead (line :: ·) := by
  obtain ⟨first,rest,hblocks⟩ := List.exists_cons_of_ne_nil (blocks_ne_nil (unixText (next :: written)))
  obtain ⟨c,later,hunix⟩ : ∃ c later, unixText (next :: written) = c :: later ∧ c ≠ '\n' := by
    obtain ⟨c,rest,rfl⟩ := List.exists_cons_of_ne_nil hne
    cases written with
    | nil => exact ⟨c,rest,rfl,hnext.head.1⟩
    | cons second others => exact ⟨c,_,rfl,hnext.head.1⟩
  rw [blockLines,blockLines,unixText_cons (by simp),blocks_line hline,blocks,hblocks]
  · simp [lines_line hline]
  · intro others _ hc
    rw [hunix.1] at hc
    exact absurd (List.cons.inj hc).1 hunix.2

theorem blockLines_ended (hline : IsLine line) : blockLines [line,[]] = [[line]] := by
  rw [blockLines,unixText_cons (by simp),unixText_last,blocks_line hline]
  simp [blocks,lines_line hline,lines]

theorem blockLines_head (hline : IsLine line) (hne : line ≠ []) (hlines : ∀ next ∈ written, IsLine next) :
    ∃ block found, blockLines (line :: written) = (line :: block) :: found := by
  cases written with
  | nil => exact ⟨[],[],by rw [blockLines_last hline,if_neg hne]⟩
  | cons next rest =>
    rw [List.forall_mem_cons] at hlines
    by_cases hnext : next = []
    · subst hnext
      cases rest with
      | nil => exact ⟨[],[],blockLines_ended hline⟩
      | cons second rest =>
        refine ⟨[],blockLines (second :: rest),?_⟩
        rw [blockLines_blank hline (by simp),lines_of_not_mem hline.1,if_neg hne]
    · obtain ⟨block,found,hblocks⟩ := List.exists_cons_of_ne_nil (l := blockLines (next :: rest))
        (by simp [blockLines,blocks_ne_nil])
      exact ⟨block,found,by rw [blockLines_line hline hlines.1 hnext,hblocks]; rfl⟩

theorem paragraphs_blank (written : List (List Char)) : paragraphs ([] :: written) = paragraphs written := by
  simp [paragraphs,List.splitOn_cons_eq_if_modifyHead]

theorem paragraphs_last (hne : line ≠ []) : paragraphs [line] = [[line]] := by
  simp [paragraphs,List.splitOn_cons_eq_if_modifyHead,hne]

theorem paragraphs_ended (hne : line ≠ []) (written : List (List Char)) :
    paragraphs (line :: [] :: written) = [line] :: paragraphs written := by
  simp [paragraphs,List.splitOn_cons_eq_if_modifyHead,hne]

theorem paragraphs_line {next : List Char} (hline : line ≠ []) (hnext : next ≠ []) :
    paragraphs (line :: next :: written) = (paragraphs (next :: written)).modifyHead (line :: ·) := by
  obtain ⟨first,rest,hsplit⟩ := List.exists_cons_of_ne_nil (List.splitOn_ne_nil [] written)
  simp [paragraphs,List.splitOn_cons_eq_if_modifyHead,hline,hnext,hsplit]

theorem tidy_blockLines : ∀ {written : List (List Char)}, written ≠ [] → (∀ line ∈ written, IsLine line) →
    tidy (blockLines written) = paragraphs written
  | [line],_,h => by
    have hline := h line (by simp)
    rw [blockLines_last hline,tidy_cons]
    by_cases hne : line = []
    · subst hne
      rfl
    · rw [if_neg hne,trimmed_line hne,paragraphs_last hne]
      rfl
  | [line,[]],_,h => by
    have hline := h line (by simp)
    rw [blockLines_ended hline,tidy_cons]
    by_cases hne : line = []
    · subst hne
      rfl
    · rw [trimmed_line hne,paragraphs_ended hne]
      rfl
  | line :: [] :: next :: rest,_,h => by
    have hline := h line (by simp)
    have ih : tidy (blockLines (next :: rest)) = paragraphs (next :: rest) := tidy_blockLines (by simp) (fun l hl =>
      h l (List.mem_cons_of_mem _ (List.mem_cons_of_mem _ hl)))
    rw [blockLines_blank hline (by simp),tidy_cons,ih,lines_of_not_mem hline.1]
    by_cases hne : line = []
    · subst hne
      rw [paragraphs_blank,paragraphs_blank]
      rfl
    · rw [if_neg hne,trimmed_line hne,paragraphs_ended hne]
      rfl
  | line :: (c :: next) :: rest,_,h => by
    have hline := h line (by simp)
    have hnext := h (c :: next) (by simp)
    have ih : tidy (blockLines ((c :: next) :: rest)) = paragraphs ((c :: next) :: rest) :=
      tidy_blockLines (by simp) (fun l hl => h l (List.mem_cons_of_mem _ hl))
    obtain ⟨block,found,hblocks⟩ := blockLines_head hnext (by simp)
      (fun l hl => h l (List.mem_cons_of_mem _ (List.mem_cons_of_mem _ hl)))
    rw [blockLines_line hline hnext (by simp),hblocks,List.modifyHead_cons,tidy_cons]
    rw [hblocks,tidy_cons,trimmed_line (by simp)] at ih
    by_cases hne : line = []
    · subst hne
      rw [trimmed_blank,trimmed_line (by simp),paragraphs_blank]
      exact ih
    · rw [trimmed_line hne,paragraphs_line hne (by simp),← ih]
      rfl

/-! ## Reading paragraphs -/

def readParagraph (s : Database) (paragraph : List (List Char)) : Except TlpdbError Database :=
  if paragraph.all (fun line => line.all isWhitespace) then pure s
  else do
    let fields ← paragraph.foldlM readLine .unread
    addRecord s fields

theorem all_isWhitespace_lines (text : List Char) :
    text.all isWhitespace = (lines text).all (fun line => line.all isWhitespace) := by
  have hlf : isWhitespace '\n' = true := by decide
  have hcr : isWhitespace '\r' = true := by decide
  fun_induction lines text with
  | case1 => rfl
  | case2 rest ih => simp [ih,hlf]
  | case3 rest ih => simp [ih,hlf,hcr]
  | case4 c rest _ _ hrest ih => simp [ih,hrest]
  | case5 c rest _ _ line later hrest ih => simp [ih,hrest,Bool.and_assoc]

theorem readBlock_eq (s : Database) (block : List Char) : readBlock s block = readParagraph s (lines block) := by
  rw [readBlock,readParagraph,all_isWhitespace_lines]

theorem readLine_blank : readLine .unread [] = .ok .unread := rfl

theorem readParagraph_trimmed (s : Database) (paragraph : List (List Char)) :
    readParagraph s (trimmed paragraph) = readParagraph s paragraph := by
  induction paragraph with
  | nil => rfl
  | cons line paragraph ih =>
    by_cases hline : line = []
    · subst hline
      have hskip : readParagraph s ([] :: paragraph) = readParagraph s paragraph := by
        unfold readParagraph
        rw [List.foldlM_cons,readLine_blank]
        rfl
      rw [trimmed_blank,ih,hskip]
    · rw [trimmed_line hline]

theorem foldlM_tidy (found : List (List (List Char))) (s : Database) :
    (tidy found).foldlM readParagraph s = found.foldlM readParagraph s := by
  induction found generalizing s with
  | nil => rfl
  | cons block found ih =>
    rw [tidy_cons,List.foldlM_cons,← readParagraph_trimmed]
    by_cases hempty : trimmed block = []
    · rw [if_pos hempty,hempty,List.nil_append,ih]
      rfl
    · rw [if_neg hempty,List.singleton_append,List.foldlM_cons]
      congr 1
      funext next
      exact ih next

theorem Written.readTlpdb (h : Written written text) :
    readTlpdb text = (paragraphs written).foldlM readParagraph .empty := by
  rw [TexIndex.readTlpdb,h.replaceCrlf,← tidy_blockLines h.ne_nil h.isLine,foldlM_tidy,blockLines,
    List.foldlM_map]
  congr 1
  funext s block
  exact readBlock_eq s block

/-! ## Two texts -/

inductive Joined (first second : List Char) : List Char → Prop
  | ended {blank : List Char} (hfirst : first = [] ∨ first.getLast? = some '\n') (hblank : IsLineEnd blank) :
      Joined first second (first ++ blank ++ second)
  | unended {lineEnd blank : List Char} (hend : IsLineEnd lineEnd) (hblank : IsLineEnd blank) :
      Joined first second (first ++ lineEnd ++ blank ++ second)

theorem Written.append {first second : List (List Char)} {text lineEnd later : List Char}
    (hfirst : Written first text) (hend : IsLineEnd lineEnd) (hsecond : Written second later) :
    Written (first ++ second) (text ++ lineEnd ++ later) := by
  induction hfirst with
  | last hline => exact .line hline hend hsecond
  | line hline hends _ ih =>
    have hwritten := Written.line hline hends ih
    simpa using hwritten

theorem Written.last_blank {text : List Char} (h : Written written text)
    (hended : text = [] ∨ text.getLast? = some '\n') : ∃ init, written = init ++ [[]] := by
  induction h with
  | @last line hline =>
    rcases hended with rfl | hlast
    · exact ⟨[],rfl⟩
    · exact absurd (List.mem_of_getLast? hlast) hline.1
  | @line line lineEnd text rest hline hend hrest ih =>
    have htext : text = [] ∨ text.getLast? = some '\n' := by
      by_cases hempty : text = []
      · exact .inl hempty
      · rcases hended with hnone | hlast
        · simp_all
        · rw [List.getLast?_append_of_ne_nil _ hempty] at hlast
          exact .inr hlast
    obtain ⟨init,rfl⟩ := ih htext
    exact ⟨line :: init,rfl⟩

theorem paragraphs_append (first second : List (List Char)) :
    paragraphs (first ++ [] :: second) = paragraphs first ++ paragraphs second := by
  simp [paragraphs,List.splitOn_append_cons_self]

theorem Joined.paragraphs {first second text : List Char} {lines later : List (List Char)}
    (h : Joined first second text) (hfirst : Written lines first) (hsecond : Written later second) :
    ∃ written, Written written text ∧
      TexIndex.paragraphs written = TexIndex.paragraphs lines ++ TexIndex.paragraphs later := by
  cases h with
  | unended hend hblank =>
    refine ⟨lines ++ [] :: later,?_,paragraphs_append lines later⟩
    have hrest := hfirst.append hend (Written.line isLine_nil hblank hsecond)
    simpa using hrest
  | ended hended hblank =>
    obtain ⟨init,rfl⟩ := hfirst.last_blank hended
    refine ⟨init ++ [] :: later,?_,?_⟩
    · have hrest := hfirst.append hblank hsecond
      simpa using hrest
    · have hnone : TexIndex.paragraphs [] = [] := rfl
      rw [paragraphs_append,paragraphs_append,hnone,List.append_nil]

end LatexCore.TexIndex
