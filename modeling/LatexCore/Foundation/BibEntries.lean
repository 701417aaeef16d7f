import LatexCore.Foundation.Delimited
import Mathlib.Data.List.Basic

/-! # Entries of BibTeX

BibTeX counts every brace, also one after a backslash. A printed entry is read back
exactly if the braces of every field are balanced.
-/
namespace LatexCore.Foundation
namespace Bib

def braceStep (depth : ℕ) (c : Char) : Option ℕ :=
  if c = '\x7b' then some (depth + 1)
  else if c = '\x7d' then if depth = 0 then none else some (depth - 1)
  else some depth

/-- The braces that BibTeX counts. -/
def braces : Scanner Char ℕ := ⟨0,braceStep⟩

structure Field where
  name : List Char
  value : List Char
deriving DecidableEq

structure Entry where
  kind : List Char
  key : List Char
  fields : List Field
deriving DecidableEq

/-! ## The reader -/

def skipSpace (text : List Char) : List Char := text.dropWhile Char.isWhitespace

def expect (c : Char) (text : List Char) : Option (List Char) :=
  if (skipSpace text).head? = some c then some (skipSpace text).tail else none

def isKey (c : Char) : Bool := !(c == ',' || c == '\x7b' || c == '\x7d' || c.isWhitespace)

def readName (isName : Char → Bool) (text : List Char) : Option (List Char × List Char) :=
  let name := (skipSpace text).takeWhile isName
  if name = [] then none else some (name,(skipSpace text).dropWhile isName)

def readField (text : List Char) : Option (Field × List Char) := do
  let name ← readName Char.isAlpha text
  let value ← expect '=' name.2
  let content ← expect '\x7b' value
  let found ← braces.upTo '\x7d' 0 content
  pure (⟨name.1,found.1⟩,found.2)

/-- The fields up to the end of the entry, and what follows it. -/
def readFields : ℕ → List Char → Option (List Field × List Char)
  | 0,_ => none
  | n + 1,text =>
    (expect '\x7d' text).elim
      ((readField text).bind (fun field => (expect ',' field.2).elim
        ((expect '\x7d' field.2).map (fun after => ([field.1],after)))
        (fun more => (readFields n more).map (fun found => (field.1 :: found.1,found.2)))))
      (fun after => some ([],after))

def readEntry (text : List Char) : Option Entry := do
  let kind ← expect '@' text
  let kind ← readName Char.isAlpha kind
  let key ← expect '\x7b' kind.2
  let key ← readName isKey key
  let fields ← expect ',' key.2
  let found ← readFields (text.length + 1) fields
  if skipSpace found.2 = [] then pure ⟨kind.1,key.1,found.1⟩ else none

/-! ## Printed entries -/

def printField (field : Field) : List Char :=
  ' ' :: ' ' :: (field.name ++ ' ' :: '=' :: ' ' :: '\x7b' :: (field.value ++ ['\x7d']))

def printFields (fields : List Field) : List Char :=
  '\n' :: ([',','\n'].intercalate (fields.map printField) ++ ['\n','\x7d'])

def printEntry (entry : Entry) : List Char :=
  '@' :: (entry.kind ++ '\x7b' :: (entry.key ++ ',' :: printFields entry.fields))

structure Named (isName : Char → Bool) (name : List Char) : Prop where
  nonempty : name ≠ []
  chars : ∀ c ∈ name, isName c = true ∧ c.isWhitespace = false

structure Entry.Regular (entry : Entry) : Prop where
  kind : Named Char.isAlpha entry.kind
  key : Named isKey entry.key
  fields : ∀ field ∈ entry.fields, Named Char.isAlpha field.name

theorem expect_cons {c : Char} {text : List Char} (h : c.isWhitespace = false) : expect c (c :: text) = some text := by
  have hskip : skipSpace (c :: text) = c :: text := by
    rw [skipSpace,List.dropWhile_cons_of_neg (by simp [h])]
  rw [expect,hskip]
  exact if_pos rfl

theorem expect_space {c d : Char} {text : List Char} (h : d.isWhitespace = true) :
    expect c (d :: text) = expect c text := by
  have hskip : skipSpace (d :: text) = skipSpace text := by
    rw [skipSpace,List.dropWhile_cons_of_pos h]
    rfl
  rw [expect,expect,hskip]

theorem expect_cons_of_ne {c d : Char} {text : List Char} (h : d.isWhitespace = false) (hne : d ≠ c) :
    expect c (d :: text) = none := by
  have hskip : skipSpace (d :: text) = d :: text := by
    rw [skipSpace,List.dropWhile_cons_of_neg (by simp [h])]
  rw [expect,hskip]
  exact if_neg fun hd => hne (Option.some.inj hd)

theorem readName_append {isName : Char → Bool} {name : List Char} {c : Char} {after : List Char}
    (h : Named isName name) (hc : isName c = false) :
    readName isName (name ++ c :: after) = some (name,c :: after) := by
  have hskip : skipSpace (name ++ c :: after) = name ++ c :: after := by
    cases hname : name with
    | nil => exact absurd hname h.nonempty
    | cons d name' =>
      have hd := (h.chars d (hname ▸ List.mem_cons_self)).2
      rw [List.cons_append,skipSpace,List.dropWhile_cons_of_neg (by simp [hd])]
  have htake : (name ++ c :: after).takeWhile isName = name := by
    rw [List.takeWhile_append_of_pos (fun d hd => (h.chars d hd).1),List.takeWhile_cons_of_neg (by simp [hc]),
      List.append_nil]
  have hdrop : (name ++ c :: after).dropWhile isName = c :: after := by
    rw [List.dropWhile_append_of_pos (fun d hd => (h.chars d hd).1),List.dropWhile_cons_of_neg (by simp [hc])]
  rw [readName,hskip,htake,hdrop]
  exact if_neg h.nonempty

theorem readName_space {isName : Char → Bool} {c : Char} {text : List Char} (h : c.isWhitespace = true) :
    readName isName (c :: text) = readName isName text := by
  have hskip : skipSpace (c :: text) = skipSpace text := by
    rw [skipSpace,List.dropWhile_cons_of_pos h]
    rfl
  rw [readName,readName,hskip]

theorem readField_append {field : Field} {after after' : List Char} (h : Named Char.isAlpha field.name) :
    readField ('\n' :: (printField field ++ after)) = some (field,after') ↔
      braces.Contained '\x7d' field.value ∧ after = after' := by
  have hname : readName Char.isAlpha ('\n' :: (printField field ++ after)) =
      some (field.name,' ' :: '=' :: ' ' :: '\x7b' :: (field.value ++ '\x7d' :: after)) := by
    rw [readName_space (by decide),printField,List.cons_append,List.cons_append,readName_space (by decide),
      readName_space (by decide),List.append_assoc]
    simpa using readName_append h (by decide)
  rw [readField,hname]
  simp only [Option.bind_eq_bind,Option.bind_some]
  rw [expect_space (by decide),expect_cons (by decide),Option.bind_some,expect_space (by decide),
    expect_cons (by decide),Option.bind_some]
  constructor
  · intro hread
    obtain ⟨⟨value,rest⟩,hfound,hfield⟩ := Option.bind_eq_some_iff.mp hread
    obtain ⟨hvalue,rfl⟩ := Prod.mk.inj (Option.some.inj hfield)
    obtain rfl : value = field.value := congrArg Field.value hvalue
    obtain ⟨htext,hfree⟩ := Scanner.upTo_eq_some.mp hfound
    exact ⟨hfree,(List.cons.inj (List.append_cancel_left htext)).2⟩
  · rintro ⟨hvalue,rfl⟩
    have hfound : braces.upTo '\x7d' 0 (field.value ++ '\x7d' :: after) = some (field.value,after) :=
      Scanner.upTo_append_iff.mpr hvalue
    rw [hfound]
    rfl

theorem printFields_singleton (field : Field) :
    printFields [field] = '\n' :: (printField field ++ ['\n','\x7d']) := by
  rw [printFields,List.map_cons,List.map_nil,List.intercalate_singleton]

theorem printFields_cons_cons (field next : Field) (fields : List Field) :
    printFields (field :: next :: fields) = '\n' :: (printField field ++ ',' :: printFields (next :: fields)) := by
  rw [printFields,printFields,List.map_cons,List.map_cons,List.intercalate_cons_cons]
  simp

theorem expect_field {c : Char} {field : Field} {after : List Char} (h : Named Char.isAlpha field.name)
    (hc : c.isAlpha = false) : expect c ('\n' :: (printField field ++ after)) = none := by
  rw [expect_space (by decide),printField,List.cons_append,List.cons_append,expect_space (by decide),
    expect_space (by decide)]
  cases hname : field.name with
  | nil => exact absurd hname h.nonempty
  | cons d name =>
    obtain ⟨hd,hspace⟩ := h.chars d (hname ▸ List.mem_cons_self)
    rw [List.cons_append,List.cons_append,expect_cons_of_ne hspace]
    rintro rfl
    rw [hd] at hc
    cases hc

theorem readFields_cons {n : ℕ} {field : Field} {fields : List Field} {after rest : List Char}
    (h : Named Char.isAlpha field.name) :
    readFields (n + 1) ('\n' :: (printField field ++ after)) = some (field :: fields,rest) ↔
      braces.Contained '\x7d' field.value ∧
        (expect ',' after).elim ((expect '\x7d' after).map (fun after => ([field],after)))
          (fun more => (readFields n more).map (fun found => (field :: found.1,found.2))) =
            some (field :: fields,rest) := by
  rw [readFields,expect_field h (by decide),Option.elim_none]
  constructor
  · intro hread
    obtain ⟨⟨field',after'⟩,hfield,hrest⟩ := Option.bind_eq_some_iff.mp hread
    have hfirst : field' = field := by
      dsimp only at hrest
      cases hmore : expect ',' after' with
      | none =>
        rw [hmore,Option.elim_none] at hrest
        obtain ⟨_,-,hlist⟩ := Option.map_eq_some_iff.mp hrest
        exact (List.cons.inj (Prod.mk.inj hlist).1).1
      | some more =>
        rw [hmore,Option.elim_some] at hrest
        obtain ⟨_,-,hlist⟩ := Option.map_eq_some_iff.mp hrest
        exact (List.cons.inj (Prod.mk.inj hlist).1).1
    subst hfirst
    obtain ⟨hvalue,rfl⟩ := (readField_append h).mp hfield
    exact ⟨hvalue,hrest⟩
  · rintro ⟨hvalue,hrest⟩
    rw [(readField_append h).mpr ⟨hvalue,rfl⟩,Option.bind_some]
    exact hrest

theorem readFields_print {fields : List Field} (h : ∀ field ∈ fields, Named Char.isAlpha field.name) {n : ℕ}
    (hn : fields.length < n) {rest : List Char} : readFields n (printFields fields) = some (fields,rest) ↔
      (∀ field ∈ fields, braces.Contained '\x7d' field.value) ∧ rest = [] := by
  induction fields generalizing n with
  | nil =>
    obtain ⟨n,rfl⟩ : ∃ m, n = m + 1 := Nat.exists_eq_add_of_le' hn
    have hend : expect '\x7d' (printFields []) = some [] := rfl
    rw [readFields,hend]
    simp [eq_comm]
  | cons field fields ih =>
    obtain ⟨n,rfl⟩ : ∃ m, n = m + 1 := Nat.exists_eq_add_of_le' (Nat.lt_of_le_of_lt (Nat.zero_le _) hn)
    obtain ⟨hfield,hfields⟩ := List.forall_mem_cons.mp h
    rw [List.forall_mem_cons,and_assoc]
    cases fields with
    | nil =>
      have hcomma : expect ',' ['\n','\x7d'] = none := rfl
      have hclose : expect '\x7d' ['\n','\x7d'] = some [] := rfl
      rw [printFields_singleton,readFields_cons hfield,hcomma,Option.elim_none,hclose]
      simp [eq_comm]
    | cons next fields =>
      have hcomma : expect ',' (',' :: printFields (next :: fields)) = some (printFields (next :: fields)) :=
        expect_cons (by decide)
      rw [printFields_cons_cons,readFields_cons hfield,hcomma,Option.elim_some,
        ← ih hfields (Nat.lt_of_succ_lt_succ hn)]
      refine and_congr_right fun _ => ?_
      constructor
      · intro hread
        obtain ⟨⟨found,after⟩,hfound,hlist⟩ := Option.map_eq_some_iff.mp hread
        obtain ⟨hfirst,rfl⟩ := Prod.mk.inj hlist
        obtain rfl := (List.cons.inj hfirst).2
        exact hfound
      · intro hread
        rw [hread]
        rfl

theorem length_le_printFields (fields : List Field) : fields.length ≤ (printFields fields).length := by
  induction fields with
  | nil => exact Nat.zero_le _
  | cons field fields ih =>
    cases fields with
    | nil => exact Nat.succ_le_succ (Nat.zero_le _)
    | cons next fields =>
      rw [List.length_cons] at ih
      simp only [printFields_cons_cons,List.length_cons,List.length_append]
      omega

theorem readEntry_print {entry : Entry} (h : entry.Regular) :
    readEntry (printEntry entry) = some entry ↔ ∀ field ∈ entry.fields, braces.Contained '\x7d' field.value := by
  have hkind : readName Char.isAlpha (entry.kind ++ '\x7b' :: (entry.key ++ ',' :: printFields entry.fields)) =
      some (entry.kind,'\x7b' :: (entry.key ++ ',' :: printFields entry.fields)) := readName_append h.kind (by decide)
  have hkey : readName isKey (entry.key ++ ',' :: printFields entry.fields) =
      some (entry.key,',' :: printFields entry.fields) := readName_append h.key (by decide)
  have hlength : entry.fields.length < (printEntry entry).length + 1 := by
    have hfields := length_le_printFields entry.fields
    simp only [printEntry,List.length_cons,List.length_append]
    omega
  rw [readEntry]
  generalize (printEntry entry).length + 1 = n at hlength
  rw [printEntry,expect_cons (by decide)]
  simp only [Option.bind_eq_bind,Option.bind_some]
  rw [hkind,Option.bind_some,expect_cons (by decide),Option.bind_some,hkey,Option.bind_some,expect_cons (by decide),
    Option.bind_some]
  constructor
  · intro hread
    obtain ⟨⟨fields,rest⟩,hfound,hentry⟩ := Option.bind_eq_some_iff.mp hread
    dsimp only at hentry
    split at hentry
    · have hfields : fields = entry.fields := congrArg Entry.fields (Option.some.inj hentry)
      subst hfields
      exact ((readFields_print h.fields hlength).mp hfound).1
    · cases hentry
  · intro hall
    rw [(readFields_print h.fields hlength).mpr ⟨hall,rfl⟩]
    rfl

end Bib
end LatexCore.Foundation
