import LatexCore.Foundation.Delimited
import Mathlib.Data.List.Basic
import Mathlib.Data.List.Intervals

/-! # Fragments of TeX

A backslash takes away the meaning of the character after it and a percent sign hides
the rest of its line. What a reader makes of a printed fragment is the fragment itself
exactly if every argument is contained in its delimiters.
-/
namespace LatexCore.Foundation
namespace Tex

instance decidableForallChar {p : Char → Prop} [DecidablePred p] (text : List Char) : Decidable (∀ c ∈ text, p c) :=
  List.decidableBAll p text

/-! ## The scanners -/

inductive Mode
  | plain | escaped | comment
deriving DecidableEq

def step : Mode × ℕ → Char → Option (Mode × ℕ)
  | (.plain,depth),c =>
    if c = '\\' then some (.escaped,depth)
    else if c = '\x7b' then some (.plain,depth + 1)
    else if c = '\x7d' then if depth = 0 then none else some (.plain,depth - 1)
    else if c = '%' then some (.comment,depth)
    else some (.plain,depth)
  | (.escaped,depth),_ => some (.plain,depth)
  | (.comment,depth),c => some (if c = '\n' then .plain else .comment,depth)

def scanner : Scanner Char (Mode × ℕ) := ⟨(.plain,0),step⟩

theorem step_deeper {mode mode' : Mode} {depth depth' : ℕ} {c : Char} (h : step (mode,depth) c = some (mode',depth')) :
    step (mode,depth + 1) c = some (mode',depth' + 1) := by
  cases mode with
  | plain =>
    simp only [step] at h ⊢
    split at h
    · next hc => simp_all
    · next hbackslash =>
      rw [if_neg hbackslash]
      split at h
      · next hc => simp_all
      · next hopen =>
        rw [if_neg hopen]
        split at h
        · next hc =>
          split at h
          · cases h
          · next hdepth =>
            rw [if_pos hc,if_neg (Nat.succ_ne_zero depth)]
            obtain ⟨rfl,rfl⟩ := Prod.mk.inj (Option.some.inj h)
            rw [Nat.sub_add_cancel (Nat.pos_of_ne_zero hdepth),Nat.add_sub_cancel]
        · next hclose =>
          rw [if_neg hclose]
          split at h
          · next hc => simp_all
          · next hc => simp_all
  | escaped =>
    obtain ⟨rfl,rfl⟩ := Prod.mk.inj (Option.some.inj h)
    rfl
  | comment =>
    obtain ⟨rfl,rfl⟩ := Prod.mk.inj (Option.some.inj h)
    rfl

/-- What a group contains holds no delimiter that counts outside of the group. -/
theorem free_deeper {stop stop' : Char} {mode mode' : Mode} {depth depth' : ℕ} {text : List Char}
    (h : scanner.free stop (mode,depth) text = some (mode',depth')) :
    scanner.free stop' (mode,depth + 1) text = some (mode',depth' + 1) := by
  induction text generalizing mode depth with
  | nil =>
    obtain ⟨rfl,rfl⟩ := Prod.mk.inj (Option.some.inj h)
    rfl
  | cons c text ih =>
    rw [Scanner.free] at h
    split at h
    · cases h
    · obtain ⟨⟨mode'',depth''⟩,hstep,hfree⟩ := Option.bind_eq_some_iff.mp h
      have hdeeper : ((mode,depth + 1) : Mode × ℕ) ≠ scanner.rest := by
        intro hrest
        cases congrArg Prod.snd hrest
      have hstep' : scanner.step (mode,depth + 1) c = some (mode'',depth'' + 1) := step_deeper hstep
      rw [Scanner.free_cons_of_ne hdeeper,hstep',Option.bind_some]
      exact ih hfree

theorem contained_group {stop : Char} {content : List Char} (hstop : stop ≠ '\x7b')
    (h : scanner.Contained '\x7d' content) : scanner.Contained stop ('\x7b' :: (content ++ ['\x7d'])) := by
  have hinside : scanner.free stop (.plain,1) content = some (.plain,1) := free_deeper h
  rw [Scanner.Contained,Scanner.free_cons (Ne.symm hstop)]
  have hopen : scanner.step scanner.rest '\x7b' = some (.plain,1) := rfl
  rw [hopen,Option.bind_some,Scanner.free_append,hinside,Option.bind_some,Scanner.free_cons_of_ne (by decide)]
  rfl

/-! ## Pieces -/

/-- A piece of a fragment at its outer level. -/
inductive Piece
  | char (c : Char)
  | call (name : List Char)
  | enter (name : List Char)
  | leave (name : List Char)
  | group (content : List Char)
  | bracket (content : List Char)
deriving DecidableEq

def beginName : List Char := ['b','e','g','i','n']

def endName : List Char := ['e','n','d']

def Piece.print : Piece → List Char
  | .char c => [c]
  | .call name => '\\' :: name
  | .enter name => '\\' :: (beginName ++ '\x7b' :: (name ++ ['\x7d']))
  | .leave name => '\\' :: (endName ++ '\x7b' :: (name ++ ['\x7d']))
  | .group content => '\x7b' :: (content ++ ['\x7d'])
  | .bracket content => '[' :: (content ++ [']'])

def print (pieces : List Piece) : List Char := pieces.flatMap Piece.print

/-- The letters of a control word, or a control symbol. -/
def commandName : List Char → Option (List Char × List Char)
  | [] => none
  | c :: text =>
    if c.isAlpha then some (c :: text.takeWhile Char.isAlpha,text.dropWhile Char.isAlpha) else some ([c],text)

def readArgument (stop : Char) (text : List Char) : Option (List Char × List Char) :=
  scanner.upTo stop scanner.rest text

def readGroup : List Char → Option (List Char × List Char)
  | [] => none
  | c :: text => if c = '\x7b' then readArgument '\x7d' text else none

def readCommand (text : List Char) : Option (Piece × List Char) :=
  (commandName text).bind fun command =>
    if command.1 = beginName then (readGroup command.2).map (fun found => (.enter found.1,found.2))
    else if command.1 = endName then (readGroup command.2).map (fun found => (.leave found.1,found.2))
    else some (.call command.1,command.2)

/-- The first piece; outside of an argument nothing is closed, and there are no comments. -/
def readPiece : List Char → Option (Piece × List Char)
  | [] => none
  | c :: text =>
    if c = '\\' then readCommand text
    else if c = '\x7b' then (readArgument '\x7d' text).map (fun found => (.group found.1,found.2))
    else if c = '[' then (readArgument ']' text).map (fun found => (.bracket found.1,found.2))
    else if c = '\x7d' ∨ c = '%' then none
    else some (.char c,text)

def readPieces : ℕ → List Char → Option (List Piece)
  | _,[] => some []
  | 0,_ :: _ => none
  | n + 1,c :: text =>
    (readPiece (c :: text)).bind (fun found => (readPieces n found.2).map (found.1 :: ·))

def readFragment (text : List Char) : Option (List Piece) := readPieces text.length text

/-- The argument of the piece does not end before its delimiter. -/
def Piece.Contained : Piece → Prop
  | .char _ => True
  | .call _ => True
  | .enter name => scanner.Contained '\x7d' name
  | .leave name => scanner.Contained '\x7d' name
  | .group content => scanner.Contained '\x7d' content
  | .bracket content => scanner.Contained ']' content

def Ends (name : List Char) (after : List Char) : Prop :=
  (∃ c, name = [c] ∧ c.isAlpha = false) ∨
    name ≠ [] ∧ (∀ c ∈ name, c.isAlpha = true) ∧ ∀ c ∈ after.head?, c.isAlpha = false

/-- The piece is told from the text that follows it. -/
def Piece.Regular : Piece → List Char → Prop
  | .char c,_ => c ≠ '\\' ∧ c ≠ '\x7b' ∧ c ≠ '[' ∧ c ≠ '\x7d' ∧ c ≠ '%'
  | .call name,after => Ends name after ∧ name ≠ beginName ∧ name ≠ endName
  | _,_ => True

theorem commandName_append {name after : List Char} (h : Ends name after) :
    commandName (name ++ after) = some (name,after) := by
  rcases h with ⟨c,rfl,hc⟩ | ⟨hne,hletters,hafter⟩
  · simp [commandName,hc]
  · cases name with
    | nil => exact absurd rfl hne
    | cons c name =>
      obtain ⟨hc,hname⟩ := List.forall_mem_cons.mp hletters
      have hdrop : after.dropWhile Char.isAlpha = after ∧ after.takeWhile Char.isAlpha = [] := by
        cases after with
        | nil => exact ⟨rfl,rfl⟩
        | cons d after =>
          have hd := hafter d rfl
          simp [hd]
      rw [List.cons_append,commandName,if_pos hc,List.takeWhile_append_of_pos hname,
        List.dropWhile_append_of_pos hname,hdrop.1,hdrop.2,List.append_nil]

theorem map_readArgument {stop : Char} {content after after' : List Char} {f : List Char → Piece}
    (hf : f.Injective) : (readArgument stop (content ++ stop :: after)).map (fun found => (f found.1,found.2)) =
      some (f content,after') ↔ scanner.Contained stop content ∧ after = after' := by
  constructor
  · intro h
    obtain ⟨found,hfound,hpiece⟩ := Option.map_eq_some_iff.mp h
    obtain ⟨hcontent,rfl⟩ := Prod.mk.inj hpiece
    obtain ⟨htext,hfree⟩ := Scanner.upTo_eq_some.mp hfound
    rw [hf hcontent] at htext hfree
    exact ⟨hfree,(List.cons.inj (List.append_cancel_left htext)).2⟩
  · rintro ⟨h,rfl⟩
    have hfound : readArgument stop (content ++ stop :: after) = some (content,after) := Scanner.upTo_append_iff.mpr h
    rw [hfound]
    rfl

theorem ends_group {name after : List Char} (hne : name ≠ []) (h : ∀ c ∈ name, c.isAlpha = true) :
    Ends name ('\x7b' :: after) :=
  .inr ⟨hne,h,fun c hc => by cases hc; rfl⟩

theorem readPiece_append {piece : Piece} {after after' : List Char} (h : piece.Regular after) :
    readPiece (piece.print ++ after) = some (piece,after') ↔ piece.Contained ∧ after = after' := by
  cases piece with
  | char c =>
    obtain ⟨hbackslash,hopen,hbracket,hclose,hpercent⟩ := h
    rw [Piece.print,List.singleton_append,readPiece,if_neg hbackslash,if_neg hopen,if_neg hbracket,
      if_neg (not_or.mpr ⟨hclose,hpercent⟩)]
    simp [Piece.Contained]
  | call name =>
    obtain ⟨hends,hbegin,hend⟩ := h
    rw [Piece.print,List.cons_append,readPiece,if_pos rfl,readCommand,commandName_append hends,Option.bind_some,
      if_neg hbegin,if_neg hend]
    simp [Piece.Contained]
  | enter name =>
    have hname : commandName (beginName ++ '\x7b' :: (name ++ '\x7d' :: after)) =
        some (beginName,'\x7b' :: (name ++ '\x7d' :: after)) :=
      commandName_append (ends_group (by decide) (by decide))
    have htext : (Piece.enter name).print ++ after = '\\' :: (beginName ++ '\x7b' :: (name ++ '\x7d' :: after)) := by
      simp [Piece.print]
    rw [htext,readPiece,if_pos rfl,readCommand,hname,Option.bind_some,if_pos rfl]
    exact map_readArgument fun a b hab => Piece.enter.inj hab
  | leave name =>
    have hname : commandName (endName ++ '\x7b' :: (name ++ '\x7d' :: after)) =
        some (endName,'\x7b' :: (name ++ '\x7d' :: after)) :=
      commandName_append (ends_group (by decide) (by decide))
    have htext : (Piece.leave name).print ++ after = '\\' :: (endName ++ '\x7b' :: (name ++ '\x7d' :: after)) := by
      simp [Piece.print]
    rw [htext,readPiece,if_pos rfl,readCommand,hname,Option.bind_some,
      if_neg (show ¬endName = beginName by decide),if_pos rfl]
    exact map_readArgument fun a b hab => Piece.leave.inj hab
  | group content =>
    have htext : (Piece.group content).print ++ after = '\x7b' :: (content ++ '\x7d' :: after) := by
      simp [Piece.print]
    rw [htext,readPiece,if_neg (by decide),if_pos rfl]
    exact map_readArgument fun a b hab => Piece.group.inj hab
  | bracket content =>
    have htext : (Piece.bracket content).print ++ after = '[' :: (content ++ ']' :: after) := by
      simp [Piece.print]
    rw [htext,readPiece,if_neg (by decide),if_neg (by decide),if_pos rfl]
    exact map_readArgument fun a b hab => Piece.bracket.inj hab

/-- The pieces are told from each other. -/
def Regular : List Piece → Prop
  | [] => True
  | piece :: pieces => piece.Regular (print pieces) ∧ Regular pieces

theorem print_cons (piece : Piece) (pieces : List Piece) : print (piece :: pieces) = piece.print ++ print pieces := rfl

theorem print_append (pieces more : List Piece) : print (pieces ++ more) = print pieces ++ print more :=
  List.flatMap_append

theorem Piece.print_ne_nil (piece : Piece) : piece.print ≠ [] := by
  cases piece <;> exact List.cons_ne_nil _ _

theorem readPieces_print {pieces : List Piece} (h : Regular pieces) {n : ℕ} (hn : pieces.length ≤ n) :
    readPieces n (print pieces) = some pieces ↔ ∀ piece ∈ pieces, piece.Contained := by
  induction pieces generalizing n with
  | nil =>
    have hread : readPieces n (print []) = some [] := by cases n <;> rfl
    simp [hread]
  | cons piece pieces ih =>
    obtain ⟨hpiece,hpieces⟩ := h
    obtain ⟨n,rfl⟩ : ∃ m, n = m + 1 := Nat.exists_eq_add_of_le' (Nat.le_trans (Nat.succ_pos _) hn)
    obtain ⟨c,text,htext⟩ := List.exists_cons_of_ne_nil (List.append_ne_nil_of_left_ne_nil piece.print_ne_nil
      (print pieces))
    rw [print_cons,htext,readPieces,← htext,List.forall_mem_cons,← ih hpieces (Nat.le_of_succ_le_succ hn)]
    simp only [Option.bind_eq_some_iff,Option.map_eq_some_iff,List.cons.injEq]
    constructor
    · rintro ⟨⟨_,after⟩,hread,_,hrest,rfl,rfl⟩
      obtain ⟨hcontained,rfl⟩ := (readPiece_append hpiece).mp hread
      exact ⟨hcontained,hrest⟩
    · rintro ⟨hcontained,hrest⟩
      exact ⟨(piece,print pieces),(readPiece_append hpiece).mpr ⟨hcontained,rfl⟩,pieces,hrest,rfl,rfl⟩

theorem length_le_print (pieces : List Piece) : pieces.length ≤ (print pieces).length := by
  induction pieces with
  | nil => exact Nat.zero_le _
  | cons piece pieces ih =>
    have hpos := List.length_pos_iff.mpr piece.print_ne_nil
    rw [print_cons,List.length_append,List.length_cons]
    omega

theorem readFragment_print {pieces : List Piece} (h : Regular pieces) :
    readFragment (print pieces) = some pieces ↔ ∀ piece ∈ pieces, piece.Contained :=
  readPieces_print h (length_le_print pieces)

/-! ## Braces -/

/-- Every brace of the text that TeX counts has its partner, and no comment or escape is left open. -/
def Balanced (text : List Char) : Prop := text.foldlM scanner.step scanner.rest = some scanner.rest

theorem Balanced.append {text more : List Char} (h : Balanced text) (h' : Balanced more) : Balanced (text ++ more) := by
  rw [Balanced,List.foldlM_append,h]
  exact h'

theorem balanced_char {c : Char} (h : c ≠ '\\' ∧ c ≠ '\x7b' ∧ c ≠ '\x7d' ∧ c ≠ '%') : Balanced [c] := by
  obtain ⟨hbackslash,hopen,hclose,hpercent⟩ := h
  have hstep : scanner.step scanner.rest c = some scanner.rest := by
    have hplain : step (.plain,0) c = some (.plain,0) := by
      rw [step,if_neg hbackslash,if_neg hopen,if_neg hclose,if_neg hpercent]
    exact hplain
  rw [Balanced,List.foldlM_cons,hstep]
  rfl

theorem balanced_letters {text : List Char} (h : ∀ c ∈ text, c.isAlpha = true) : Balanced text := by
  induction text with
  | nil => rfl
  | cons c text ih =>
    obtain ⟨hc,htext⟩ := List.forall_mem_cons.mp h
    have hfirst : Balanced [c] := by
      refine balanced_char ⟨?_,?_,?_,?_⟩ <;>
      · rintro rfl
        cases hc
    exact hfirst.append (ih htext)

theorem balanced_command {name after : List Char} (h : Ends name after) : Balanced ('\\' :: name) := by
  have hescape : ∀ c text, Balanced text → Balanced ('\\' :: c :: text) := by
    intro c text htext
    have hescaped : Balanced ['\\',c] := rfl
    exact hescaped.append htext
  rcases h with ⟨c,rfl,-⟩ | ⟨hne,hletters,-⟩
  · exact hescape c [] rfl
  · cases name with
    | nil => exact absurd rfl hne
    | cons c name => exact hescape c name (balanced_letters (List.forall_mem_cons.mp hletters).2)

theorem balanced_group {content : List Char} (h : scanner.Contained '\x7d' content) :
    Balanced ('\x7b' :: (content ++ ['\x7d'])) := by
  have hgroup : scanner.Contained ',' ('\x7b' :: (content ++ ['\x7d'])) := contained_group (by decide) h
  exact Scanner.free_foldlM hgroup

theorem balanced_piece {piece : Piece} {after : List Char} (h : piece.Regular after) (hpiece : piece.Contained) :
    Balanced piece.print := by
  have hname : ∀ name, name ≠ [] → (∀ c ∈ name, c.isAlpha = true) → Balanced ('\\' :: name) := by
    intro name hne hletters
    have hends : Ends name [] := .inr ⟨hne,hletters,fun c hc => (by cases hc)⟩
    exact balanced_command hends
  cases piece with
  | char c => exact balanced_char ⟨h.1,h.2.1,h.2.2.2.1,h.2.2.2.2⟩
  | call name => exact balanced_command h.1
  | enter name => exact (hname beginName (by decide) (by decide)).append (balanced_group hpiece)
  | leave name => exact (hname endName (by decide) (by decide)).append (balanced_group hpiece)
  | group content => exact balanced_group hpiece
  | bracket content =>
    have hcontent : Balanced content := Scanner.free_foldlM hpiece
    have hopen : Balanced ['['] := balanced_char (by decide)
    have hclose : Balanced [']'] := balanced_char (by decide)
    exact hopen.append (hcontent.append hclose)

theorem balanced_print {pieces : List Piece} (h : Regular pieces) (hpieces : ∀ piece ∈ pieces, piece.Contained) :
    Balanced (print pieces) := by
  induction pieces with
  | nil => rfl
  | cons piece pieces ih =>
    obtain ⟨hpiece,hmore⟩ := List.forall_mem_cons.mp hpieces
    exact (balanced_piece h.1 hpiece).append (ih h.2 hmore)

/-! ## Joined lists -/

section Joined
variable {α β : Type*} {x : α}

theorem mem_intercalate {sep : List α} {lists : List (List α)} (h : x ∈ sep.intercalate lists) :
    x ∈ sep ∨ ∃ list ∈ lists, x ∈ list := by
  induction lists with
  | nil => cases h
  | cons list lists ih =>
    cases lists with
    | nil =>
      rw [List.intercalate_singleton] at h
      exact .inr ⟨list,List.mem_singleton_self _,h⟩
    | cons next lists =>
      rw [List.intercalate_cons_cons,List.append_assoc,List.mem_append,List.mem_append] at h
      rcases h with h | h | h
      · exact .inr ⟨list,List.mem_cons_self,h⟩
      · exact .inl h
      · rcases ih h with hsep | ⟨list',hlist,hmem⟩
        · exact .inl hsep
        · exact .inr ⟨list',List.mem_cons_of_mem _ hlist,hmem⟩

theorem mem_intercalate_of_mem {sep : List α} {lists : List (List α)} {list : List α} (hlist : list ∈ lists)
    (h : x ∈ list) : x ∈ sep.intercalate lists := by
  induction lists with
  | nil => cases hlist
  | cons first lists ih =>
    cases lists with
    | nil =>
      rw [List.intercalate_singleton]
      rwa [List.mem_singleton.mp hlist] at h
    | cons next lists =>
      rw [List.intercalate_cons_cons,List.append_assoc,List.mem_append,List.mem_append]
      rcases List.mem_cons.mp hlist with rfl | hlist
      · exact .inl h
      · exact .inr (.inr (ih hlist))

theorem map_intercalate (f : α → β) (sep : List α) (lists : List (List α)) :
    (sep.intercalate lists).map f = (sep.map f).intercalate (lists.map (List.map f)) := by
  induction lists with
  | nil => rfl
  | cons list lists ih =>
    cases lists with
    | nil => simp
    | cons next lists =>
      rw [List.intercalate_cons_cons,List.map_append,List.map_append,ih,List.map_cons,List.map_cons,List.map_cons,
        List.intercalate_cons_cons]

end Joined

/-! ## Environments and lines -/

def follow (opened : List (List Char)) : Piece → Option (List (List Char))
  | .enter name => some (name :: opened)
  | .leave name => if opened.head? = some name then some opened.tail else none
  | _ => some opened

/-- Every environment is left before those around it. -/
def Nested (pieces : List Piece) : Prop := pieces.foldlM follow [] = some []

instance (pieces : List Piece) : Decidable (Nested pieces) :=
  inferInstanceAs (Decidable (pieces.foldlM follow [] = some []))

theorem foldlM_follow_append (opened : List (List Char)) (pieces more : List Piece) :
    (pieces ++ more).foldlM follow opened =
      (pieces.foldlM follow opened).bind (fun opened => more.foldlM follow opened) :=
  List.foldlM_append

theorem regular_append {pieces more : List Piece} (h : Regular pieces) (h' : Regular more)
    (hmore : ∀ c ∈ (print more).head?, c.isAlpha = false) : Regular (pieces ++ more) := by
  induction pieces with
  | nil => exact h'
  | cons piece pieces ih =>
    obtain ⟨hpiece,hpieces⟩ := h
    refine ⟨?_,ih hpieces⟩
    cases piece with
    | call name =>
      obtain ⟨hends,hname⟩ := hpiece
      refine ⟨?_,hname⟩
      rcases hends with hsymbol | ⟨hne,hletters,hafter⟩
      · exact .inl hsymbol
      · refine .inr ⟨hne,hletters,?_⟩
        rw [show print (pieces.append more) = print pieces ++ print more from print_append pieces more]
        cases hprint : print pieces with
        | nil => exact hmore
        | cons c text =>
          rw [hprint] at hafter
          exact hafter
    | _ => exact hpiece

def newline : List Piece := [.char '\n']

def joined (lines : List (List Piece)) : List Piece := newline.intercalate lines

theorem joined_cons {line : List Piece} {lines : List (List Piece)} (h : lines ≠ []) :
    joined (line :: lines) = line ++ newline ++ joined lines := List.intercalate_cons_of_ne_nil h

theorem print_joined (lines : List (List Piece)) : print (joined lines) = ['\n'].intercalate (lines.map print) := by
  induction lines with
  | nil => rfl
  | cons line lines ih =>
    cases lines with
    | nil => rw [joined,List.intercalate_singleton,List.map_cons,List.map_nil,List.intercalate_singleton]
    | cons next lines =>
      rw [joined_cons (List.cons_ne_nil _ _),print_append,print_append,ih,List.map_cons,List.map_cons,
        List.map_cons,List.intercalate_cons_cons]
      rfl

theorem regular_joined {lines : List (List Piece)} (h : ∀ line ∈ lines, Regular line) : Regular (joined lines) := by
  induction lines with
  | nil => trivial
  | cons line lines ih =>
    obtain ⟨hline,hlines⟩ := List.forall_mem_cons.mp h
    cases lines with
    | nil =>
      rw [joined,List.intercalate_singleton]
      exact hline
    | cons next lines =>
      rw [joined_cons (List.cons_ne_nil _ _),List.append_assoc]
      refine regular_append hline ⟨⟨by decide,by decide,by decide,by decide,by decide⟩,ih hlines⟩ ?_
      intro c hc
      cases hc
      rfl

theorem foldlM_follow_joined (opened : List (List Char)) (lines : List (List Piece)) :
    (joined lines).foldlM follow opened = lines.foldlM (fun opened line => line.foldlM follow opened) opened := by
  induction lines generalizing opened with
  | nil => rfl
  | cons line lines ih =>
    cases lines with
    | nil =>
      rw [joined,List.intercalate_singleton,List.foldlM_cons]
      exact (bind_pure _).symm
    | cons next lines =>
      rw [joined_cons (List.cons_ne_nil _ _),List.append_assoc,foldlM_follow_append,List.foldlM_cons]
      refine congrArg _ (funext fun opened => ?_)
      exact ih opened

end Tex
end LatexCore.Foundation
