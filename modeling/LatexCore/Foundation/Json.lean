import LatexCore.Foundation.Value
import Mathlib.Data.List.TakeDrop

/-! # Compact JSON

The compact text of a structured value and a parser of such texts. The parser
reads one value in front of any continuation that cannot extend a number, and
what the printer prints parses back to the value it was printed from. Bytes are
the UTF-8 encoding of the text.
-/
namespace LatexCore.Foundation.Json

/-- A character inside a string literal. -/
def escape (c : Char) : List Char :=
  if c = '"' then ['\\','"']
  else if c = '\\' then ['\\','\\']
  else if c = '\x08' then ['\\','b']
  else if c = '\t' then ['\\','t']
  else if c = '\n' then ['\\','n']
  else if c = '\x0c' then ['\\','f']
  else if c = '\r' then ['\\','r']
  else if c.toNat < 32 then
    ['\\','u','0','0',Nat.digitChar (c.toNat / 16),Nat.digitChar (c.toNat % 16)]
  else [c]

def printString (s : String) : List Char := '"' :: (s.toList.flatMap escape ++ ['"'])

def printInt (i : ℤ) : List Char :=
  if i < 0 then '-' :: Nat.toDigits 10 i.natAbs else Nat.toDigits 10 i.natAbs

/-- What follows the elements already printed: the others, each after a comma, and the bracket. -/
def printMore (close : Char) : List (List Char) → List Char
  | [] => [close]
  | text :: rest => ',' :: (text ++ printMore close rest)

def printAll (close : Char) : List (List Char) → List Char
  | [] => [close]
  | text :: rest => text ++ printMore close rest

mutual
def print : Value → List Char
  | .null => ['n','u','l','l']
  | .bool true => ['t','r','u','e']
  | .bool false => ['f','a','l','s','e']
  | .num value => printInt value
  | .str value => printString value
  | .arr items => '[' :: printAll ']' (printItems items)
  | .obj fields => '{' :: printAll '}' (printFields fields)
def printItems : List Value → List (List Char)
  | [] => []
  | v :: rest => print v :: printItems rest
def printFields : List (String × Value) → List (List Char)
  | [] => []
  | field :: rest => printField field :: printFields rest
def printField : String × Value → List Char
  | (name,v) => printString name ++ ':' :: print v
end

def hexValue (c : Char) : Option ℕ := (List.range 16).find? (fun d => Nat.digitChar d == c)

/-- The rest of a string literal, its opening quote read. -/
def parseChars : List Char → Option (List Char × List Char)
  | '"' :: rest => some ([],rest)
  | '\\' :: '"' :: rest => (parseChars rest).map (fun p => ('"' :: p.1,p.2))
  | '\\' :: '\\' :: rest => (parseChars rest).map (fun p => ('\\' :: p.1,p.2))
  | '\\' :: '/' :: rest => (parseChars rest).map (fun p => ('/' :: p.1,p.2))
  | '\\' :: 'b' :: rest => (parseChars rest).map (fun p => ('\x08' :: p.1,p.2))
  | '\\' :: 't' :: rest => (parseChars rest).map (fun p => ('\t' :: p.1,p.2))
  | '\\' :: 'n' :: rest => (parseChars rest).map (fun p => ('\n' :: p.1,p.2))
  | '\\' :: 'f' :: rest => (parseChars rest).map (fun p => ('\x0c' :: p.1,p.2))
  | '\\' :: 'r' :: rest => (parseChars rest).map (fun p => ('\r' :: p.1,p.2))
  | '\\' :: 'u' :: '0' :: '0' :: a :: b :: rest =>
    match hexValue a, hexValue b with
    | some high, some low =>
      (parseChars rest).map (fun p => (Char.ofNat (16 * high + low) :: p.1,p.2))
    | _, _ => none
  | '\\' :: _ => none
  | c :: rest => (parseChars rest).map (fun p => (c :: p.1,p.2))
  | [] => none

def parseNumber (negative : Bool) (chars : List Char) : Option (Value × List Char) :=
  match chars.span Char.isDigit with
  | ([],_) => none
  | (digits,rest) =>
    let n : ℤ := Nat.ofDigitChars 10 digits 0
    some (.num (if negative then -n else n),rest)

variable {α : Type}

def parseMore (element : List Char → Option (α × List Char)) (close : Char) :
    ℕ → List Char → Option (List α × List Char)
  | n + 1, c :: chars =>
    if c = close then some ([],chars)
    else if c = ',' then
      match element chars with
      | some (a,rest) => (parseMore element close n rest).map (fun p => (a :: p.1,p.2))
      | none => none
    else none
  | _, _ => none

def parseAll (element : List Char → Option (α × List Char)) (close : Char) (n : ℕ) :
    List Char → Option (List α × List Char)
  | [] => none
  | c :: chars =>
    if c = close then some ([],chars)
    else
      match element (c :: chars) with
      | some (a,rest) => (parseMore element close n rest).map (fun p => (a :: p.1,p.2))
      | none => none

def parseField (value : List Char → Option (Value × List Char)) :
    List Char → Option ((String × Value) × List Char)
  | '"' :: chars =>
    match parseChars chars with
    | some (name,':' :: rest) => (value rest).map (fun p => ((String.ofList name,p.1),p.2))
    | _ => none
  | _ => none

/-- One value; the number bounds the depth and the length of what is read. -/
def parse : ℕ → List Char → Option (Value × List Char)
  | 0, _ => none
  | n + 1, chars =>
    match chars with
    | 'n' :: 'u' :: 'l' :: 'l' :: rest => some (.null,rest)
    | 't' :: 'r' :: 'u' :: 'e' :: rest => some (.bool true,rest)
    | 'f' :: 'a' :: 'l' :: 's' :: 'e' :: rest => some (.bool false,rest)
    | '"' :: rest => (parseChars rest).map (fun p => (.str (String.ofList p.1),p.2))
    | '[' :: rest => (parseAll (parse n) ']' n rest).map (fun p => (.arr p.1,p.2))
    | '{' :: rest => (parseAll (parseField (parse n)) '}' n rest).map (fun p => (.obj p.1,p.2))
    | '-' :: rest => parseNumber true rest
    | _ => parseNumber false chars

def toVec (v : Value) : List UInt8 := (String.ofList (print v)).toUTF8.data.toList

/-- The whole input is one value. -/
def fromSlice (bytes : List UInt8) : Option Value :=
  match String.fromUTF8? ⟨bytes.toArray⟩ with
  | none => none
  | some text =>
    match parse text.toList.length text.toList with
    | some (v,[]) => some v
    | _ => none

/-- A continuation that does not go on with a number. -/
def Ended (rest : List Char) : Prop := ∀ c ∈ rest.head?, c.isDigit = false

theorem hexValue_digitChar : ∀ d < 16, hexValue (Nat.digitChar d) = some d := by decide

theorem parseChars_escape (c : Char) (rest : List Char) :
    parseChars (escape c ++ rest) = (parseChars rest).map (fun p => (c :: p.1,p.2)) := by
  unfold escape
  split
  · next h =>
    subst h
    simp [parseChars]
  · next hquote =>
    split
    · next h =>
      subst h
      simp [parseChars]
    · next hslash =>
      split_ifs with hb ht hn hf hr hcontrol
      · subst hb
        simp [parseChars]
      · subst ht
        simp [parseChars]
      · subst hn
        simp [parseChars]
      · subst hf
        simp [parseChars]
      · subst hr
        simp [parseChars]
      · have hhigh := hexValue_digitChar (c.toNat / 16) (by omega)
        have hlow := hexValue_digitChar (c.toNat % 16) (by omega)
        have hc : 16 * (c.toNat / 16) + c.toNat % 16 = c.toNat := Nat.div_add_mod ..
        simp only [List.cons_append,List.nil_append,parseChars,hhigh,hlow,hc,Char.ofNat_toNat]
      · rw [List.singleton_append,parseChars.eq_def]
        split <;> simp_all

theorem parseChars_print (chars rest : List Char) :
    parseChars (chars.flatMap escape ++ '"' :: rest) = some (chars,rest) := by
  induction chars with
  | nil => rfl
  | cons c chars ih =>
    rw [List.flatMap_cons,List.append_assoc,parseChars_escape,ih]
    rfl

theorem parseNumber_toDigits (negative : Bool) (n : ℕ) {rest : List Char} (h : Ended rest) :
    parseNumber negative (Nat.toDigits 10 n ++ rest) =
      some (.num (if negative then -n else n),rest) := by
  have hdigits : ∀ c ∈ Nat.toDigits 10 n, c.isDigit = true := fun c hc =>
    Nat.isDigit_of_mem_toDigits (by decide) (by decide) hc
  have hspan : (Nat.toDigits 10 n ++ rest).span Char.isDigit = (Nat.toDigits 10 n,rest) := by
    rw [List.span_eq_takeWhile_dropWhile,List.takeWhile_append_of_pos hdigits,
      List.dropWhile_append_of_pos hdigits]
    cases rest with
    | nil => simp
    | cons c rest =>
      have hc : c.isDigit = false := h c rfl
      simp [hc]
  unfold parseNumber
  rw [hspan]
  split
  · next heq =>
    rw [Prod.mk.injEq] at heq
    exact absurd heq.1 Nat.toDigits_ne_nil
  · next digits tail _ heq =>
    cases heq
    rw [Nat.ofDigitChars_ten_toDigits]

theorem ended_cons {c : Char} (h : c.isDigit = false) (rest : List Char) : Ended (c :: rest) := by
  intro d hd
  cases hd
  exact h

theorem parseMore_print {element : List Char → Option (α × List Char)} {close : Char}
    (hcomma : close ≠ ',') (hdigit : close.isDigit = false) {items : List (α × List Char)} {n : ℕ}
    (hitems : ∀ p ∈ items, ∀ rest, Ended rest → element (p.2 ++ rest) = some (p.1,rest))
    (hlength : (printMore close (items.map Prod.snd)).length ≤ n) (rest : List Char) :
    parseMore element close n (printMore close (items.map Prod.snd) ++ rest) =
      some (items.map Prod.fst,rest) := by
  induction items generalizing n with
  | nil =>
    cases n with
    | zero => simp [printMore] at hlength
    | succ n => simp [printMore,parseMore]
  | cons p items ih =>
    cases n with
    | zero => simp [printMore] at hlength
    | succ n =>
      have hrest : Ended (printMore close (items.map Prod.snd) ++ rest) := by
        cases items with
        | nil => exact ended_cons hdigit _
        | cons q items => exact ended_cons (by decide) _
      have helement := hitems p (List.mem_cons_self ..) _ hrest
      simp only [List.map_cons,printMore,List.length_cons,List.length_append] at hlength
      have htail := ih (n := n) (fun q hq => hitems q (List.mem_cons_of_mem _ hq)) (by omega)
      simp only [List.map_cons,printMore,List.cons_append,List.append_assoc,parseMore]
      rw [if_neg (Ne.symm hcomma),if_pos trivial,helement]
      simp only
      rw [htail]
      rfl

theorem parseAll_print (element : List Char → Option (α × List Char)) {close : Char}
    (hcomma : close ≠ ',') (hdigit : close.isDigit = false) (items : List (α × List Char)) {n : ℕ}
    (hitems : ∀ p ∈ items, ∀ rest, Ended rest → element (p.2 ++ rest) = some (p.1,rest))
    (hheads : ∀ p ∈ items, ∃ c text, p.2 = c :: text ∧ c ≠ close)
    (hlength : (printAll close (items.map Prod.snd)).length ≤ n) (rest : List Char) :
    parseAll element close n (printAll close (items.map Prod.snd) ++ rest) =
      some (items.map Prod.fst,rest) := by
  cases items with
  | nil => simp [printAll,parseAll]
  | cons p items =>
    obtain ⟨c,text,hp,hc⟩ := hheads p (List.mem_cons_self ..)
    have hrest : Ended (printMore close (items.map Prod.snd) ++ rest) := by
      cases items with
      | nil => exact ended_cons hdigit _
      | cons q items => exact ended_cons (by decide) _
    have helement := hitems p (List.mem_cons_self ..) _ hrest
    simp only [List.map_cons,printAll,List.length_append] at hlength
    have htail := parseMore_print hcomma hdigit (n := n)
      (fun q hq => hitems q (List.mem_cons_of_mem _ hq)) (by omega) rest
    rw [hp,List.cons_append] at helement
    simp only [List.map_cons,printAll,List.append_assoc]
    rw [hp,List.cons_append,parseAll,if_neg hc,helement]
    simp only
    rw [htail]
    rfl

theorem parse_printInt (n : ℕ) (i : ℤ) {rest : List Char} (h : Ended rest) :
    parse (n + 1) (printInt i ++ rest) = some (.num i,rest) := by
  unfold printInt
  split
  · next hneg =>
    rw [List.cons_append,parse,parseNumber_toDigits true _ h]
    have habs : -((i.natAbs : ℕ) : ℤ) = i := by omega
    simp only [if_true,habs]
  · next hpos =>
    have habs : ((i.natAbs : ℕ) : ℤ) = i := by omega
    have hnumber := parseNumber_toDigits false i.natAbs h
    simp only [habs,Bool.false_eq_true,if_false] at hnumber
    cases hdigits : Nat.toDigits 10 i.natAbs with
    | nil => exact absurd hdigits Nat.toDigits_ne_nil
    | cons d digits =>
      have hd : d.isDigit = true := Nat.isDigit_of_mem_toDigits (by decide) (by decide)
        (show d ∈ Nat.toDigits 10 i.natAbs by rw [hdigits]; exact List.mem_cons_self ..)
      rw [hdigits,List.cons_append] at hnumber
      rw [List.cons_append,parse]
      · exact hnumber
      all_goals
        intro _ heq
        obtain ⟨rfl,_⟩ := List.cons.inj heq
        revert hd
        decide

theorem print_head (v : Value) : ∃ c text, print v = c :: text ∧ c ≠ ']' := by
  cases v with
  | null => exact ⟨_,_,rfl,by decide⟩
  | bool value =>
    cases value with
    | true => exact ⟨_,_,rfl,by decide⟩
    | false => exact ⟨_,_,rfl,by decide⟩
  | num value =>
    rw [print,printInt]
    split
    · exact ⟨_,_,rfl,by decide⟩
    · cases hdigits : Nat.toDigits 10 value.natAbs with
      | nil => exact absurd hdigits Nat.toDigits_ne_nil
      | cons d digits =>
        refine ⟨d,digits,rfl,?_⟩
        rintro rfl
        have hd : ']'.isDigit = true := Nat.isDigit_of_mem_toDigits (by decide) (by decide)
          (show ']' ∈ Nat.toDigits 10 value.natAbs by rw [hdigits]; exact List.mem_cons_self ..)
        exact absurd hd (by decide)
  | str value => exact ⟨_,_,rfl,by decide⟩
  | arr items => exact ⟨_,_,rfl,by decide⟩
  | obj fields => exact ⟨_,_,rfl,by decide⟩

theorem printField_head (field : String × Value) : ∃ c text, printField field = c :: text ∧ c ≠ '}' := by
  refine ⟨'"',field.1.toList.flatMap escape ++ '"' :: ':' :: print field.2,?_,by decide⟩
  rw [printField,printString]
  simp

theorem printItems_eq (items : List Value) : printItems items = items.map print := by
  induction items with
  | nil => rfl
  | cons v items ih => rw [printItems,ih,List.map_cons]

theorem printFields_eq (fields : List (String × Value)) :
    printFields fields = fields.map printField := by
  induction fields with
  | nil => rfl
  | cons field fields ih => rw [printFields,ih,List.map_cons]

theorem length_le_printAll (close : Char) {texts : List (List Char)} {text : List Char}
    (h : text ∈ texts) : text.length ≤ (printAll close texts).length := by
  have hmore : ∀ texts : List (List Char), text ∈ texts →
      text.length ≤ (printMore close texts).length := by
    intro texts
    induction texts with
    | nil =>
      intro hmem
      cases hmem
    | cons first rest ih =>
      intro hmem
      simp only [printMore,List.length_cons,List.length_append]
      rcases List.mem_cons.1 hmem with rfl | hmem
      · omega
      · have := ih hmem
        omega
  cases texts with
  | nil => cases h
  | cons first rest =>
    simp only [printAll,List.length_append]
    rcases List.mem_cons.1 h with rfl | h
    · omega
    · have := hmore rest h
      omega

/-- The texts of the elements, read one after another. -/
theorem parse_arr {items : List Value} {n : ℕ}
    (hitems : ∀ v ∈ items, ∀ rest, Ended rest → parse n (print v ++ rest) = some (v,rest))
    (hlength : (printAll ']' (items.map print)).length ≤ n) (rest : List Char) :
    parse (n + 1) (print (.arr items) ++ rest) = some (.arr items,rest) := by
  have hsnd : (items.map (fun v => (v,print v))).map Prod.snd = items.map print := by
    rw [List.map_map]
    rfl
  have hfst : (items.map (fun v => (v,print v))).map Prod.fst = items := by
    rw [List.map_map]
    exact List.map_id _
  have hall := parseAll_print (parse n) (show ']' ≠ ',' by decide) (by decide)
    (items.map (fun v => (v,print v))) (n := n)
    (by
      intro p hp
      obtain ⟨v,hv,rfl⟩ := List.mem_map.1 hp
      exact hitems v hv)
    (by
      intro p hp
      obtain ⟨v,hv,rfl⟩ := List.mem_map.1 hp
      exact print_head v)
    (by rw [hsnd]; exact hlength) rest
  rw [hsnd,hfst] at hall
  rw [print,printItems_eq,List.cons_append,parse,hall]
  rfl

theorem parseField_print {value : List Char → Option (Value × List Char)} {field : String × Value}
    {rest : List Char} (h : value (print field.2 ++ rest) = some (field.2,rest)) :
    parseField value (printField field ++ rest) = some (field,rest) := by
  have htext : printField field ++ rest =
      '"' :: (field.1.toList.flatMap escape ++ '"' :: ':' :: (print field.2 ++ rest)) := by
    rw [printField,printString]
    simp
  rw [htext,parseField,parseChars_print]
  simp only
  rw [h,String.ofList_toList]
  rfl

theorem parse_obj {fields : List (String × Value)} {n : ℕ}
    (hfields : ∀ field ∈ fields, ∀ rest, Ended rest →
      parse n (print field.2 ++ rest) = some (field.2,rest))
    (hlength : (printAll '}' (fields.map printField)).length ≤ n) (rest : List Char) :
    parse (n + 1) (print (.obj fields) ++ rest) = some (.obj fields,rest) := by
  have hsnd : (fields.map (fun f => (f,printField f))).map Prod.snd = fields.map printField := by
    rw [List.map_map]
    rfl
  have hfst : (fields.map (fun f => (f,printField f))).map Prod.fst = fields := by
    rw [List.map_map]
    exact List.map_id _
  have hall := parseAll_print (parseField (parse n)) (show '}' ≠ ',' by decide) (by decide)
    (fields.map (fun f => (f,printField f))) (n := n)
    (by
      intro p hp rest hrest
      obtain ⟨field,hfield,rfl⟩ := List.mem_map.1 hp
      exact parseField_print (hfields field hfield rest hrest))
    (by
      intro p hp
      obtain ⟨field,hfield,rfl⟩ := List.mem_map.1 hp
      exact printField_head field)
    (by rw [hsnd]; exact hlength) rest
  rw [hsnd,hfst] at hall
  rw [print,printFields_eq,List.cons_append,parse,hall]
  rfl

theorem length_printField (field : String × Value) :
    (print field.2).length ≤ (printField field).length := by
  rw [printField,List.length_append,List.length_cons]
  omega

def Reads (v : Value) : Prop :=
  ∀ n, (print v).length ≤ n → ∀ rest, Ended rest → parse n (print v ++ rest) = some (v,rest)

mutual
theorem reads : ∀ v : Value, Reads v
  | .null => by
    intro n hn rest _
    cases n with
    | zero => simp [print] at hn
    | succ n => rfl
  | .bool value => by
    intro n hn rest _
    cases n with
    | zero => cases value <;> simp [print] at hn
    | succ n => cases value <;> rfl
  | .num value => by
    intro n hn rest hrest
    cases n with
    | zero =>
      obtain ⟨c,text,htext,_⟩ := print_head (.num value)
      rw [htext] at hn
      simp at hn
    | succ n =>
      rw [print]
      exact parse_printInt n value hrest
  | .str value => by
    intro n hn rest _
    cases n with
    | zero => simp [print,printString] at hn
    | succ n =>
      rw [print,printString,List.cons_append,List.append_assoc,parse]
      rw [List.singleton_append,parseChars_print]
      simp [String.ofList_toList]
  | .arr items => by
    intro n hn rest _
    have hitems := readsItems items
    rw [print,printItems_eq,List.length_cons] at hn
    cases n with
    | zero => omega
    | succ n =>
      refine parse_arr (fun v hv rest hrest => hitems v hv n ?_ rest hrest) (by omega) rest
      have := length_le_printAll ']' (List.mem_map_of_mem (f := print) hv)
      omega
  | .obj fields => by
    intro n hn rest _
    have hfields := readsFields fields
    rw [print,printFields_eq,List.length_cons] at hn
    cases n with
    | zero => omega
    | succ n =>
      refine parse_obj (fun field hf rest hrest => hfields field hf n ?_ rest hrest) (by omega) rest
      have hle := length_le_printAll '}' (List.mem_map_of_mem (f := printField) hf)
      have hvalue := length_printField field
      omega
theorem readsItems : ∀ items : List Value, ∀ v ∈ items, Reads v
  | [] => by simp
  | v :: items => by
    intro w hw
    rcases List.mem_cons.1 hw with heq | hw
    · exact heq ▸ reads v
    · exact readsItems items w hw
theorem readsFields : ∀ fields : List (String × Value), ∀ field ∈ fields, Reads field.2
  | [] => by simp
  | (name,v) :: fields => by
    intro field hfield
    rcases List.mem_cons.1 hfield with heq | hfield
    · exact heq ▸ reads v
    · exact readsFields fields field hfield
end

/-- Printing and parsing back. -/
theorem fromSlice_toVec (v : Value) : fromSlice (toVec v) = some v := by
  have hbytes : String.fromUTF8? ⟨(toVec v).toArray⟩ = some (String.ofList (print v)) := by
    unfold toVec String.fromUTF8?
    rw [Array.toArray_toList]
    exact dif_pos (String.ofList (print v)).isValidUTF8
  have hparse := reads v (print v).length (le_refl _) [] (by simp [Ended])
  rw [List.append_nil] at hparse
  unfold fromSlice
  rw [hbytes]
  simp only [String.toList_ofList]
  rw [hparse]

/-! ## Evaluation

The same bytes and the same values, written so that the kernel evaluates them without the string
library: a text of one byte per character is read off and checked by encoding it again. -/

def toBytes (v : Value) : List UInt8 := (print v).flatMap String.utf8EncodeChar

def fromBytes (bytes : List UInt8) : Option Value :=
  let chars := bytes.map (fun b => Char.ofNat b.toNat)
  if chars.flatMap String.utf8EncodeChar = bytes then
    match parse chars.length chars with
    | some (v,[]) => some v
    | _ => none
  else fromSlice bytes

theorem toBytes_eq (v : Value) : toBytes v = toVec v := by
  simp [toBytes,toVec,List.utf8Encode]

theorem fromBytes_toBytes (v : Value) : fromBytes (toBytes v) = some v := by
  unfold fromBytes
  dsimp only
  split
  · next h =>
    have hchars : (toBytes v).map (fun b => Char.ofNat b.toNat) = print v := by
      have hencoded : (String.ofList ((toBytes v).map (fun b => Char.ofNat b.toNat))).toByteArray =
          (String.ofList (print v)).toByteArray := by
        rw [String.toByteArray_ofList,String.toByteArray_ofList,List.utf8Encode,List.utf8Encode,h]
        rfl
      exact String.ofList_injective (String.toByteArray_inj.mp hencoded)
    have hparse := reads v (print v).length (le_refl _) [] (by simp [Ended])
    rw [List.append_nil] at hparse
    rw [hchars,hparse]
  · rw [toBytes_eq]
    exact fromSlice_toVec v

end LatexCore.Foundation.Json
