import Mathlib.Data.List.DropRight
import Mathlib.Tactic.Common
import Mathlib.Data.Int.Notation

/-! # Scanning texts

The pieces of the Rust string library that the readers use, on the characters of a
text: lines, splitting at a separator, decimal integers and the whitespace at the ends.
-/
namespace LatexCore.Core

/-- `str::lines`: a line ends before `\n` or `\r\n`, and the last one may lack its end. -/
def lines : List Char → List (List Char)
  | [] => []
  | '\n' :: rest => [] :: lines rest
  | '\r' :: '\n' :: rest => [] :: lines rest
  | c :: rest =>
    match lines rest with
    | [] => [[c]]
    | line :: later => (c :: line) :: later

def splitOnce (separator : Char) (text : List Char) : Option (List Char × List Char) :=
  match text.span (· != separator) with
  | (_,[]) => none
  | (head,_ :: tail) => some (head,tail)

def stripPrefix : List Char → List Char → Option (List Char)
  | [],text => some text
  | _ :: _,[] => none
  | c :: head,d :: text => if c = d then stripPrefix head text else none

def stripSuffix (tail text : List Char) : Option (List Char) :=
  (stripPrefix tail.reverse text.reverse).map List.reverse

/-- `str::find` of a pattern: what is before it and what is after it. -/
def splitAtText (pattern : List Char) : List Char → Option (List Char × List Char)
  | [] => if pattern = [] then some ([],[]) else none
  | c :: text =>
    match stripPrefix pattern (c :: text) with
    | some after => some ([],after)
    | none => (splitAtText pattern text).map (fun found => (c :: found.1,found.2))

def rsplitOnce (separator : Char) (text : List Char) : Option (List Char × List Char) :=
  (splitOnce separator text.reverse).map (fun found => (found.2.reverse,found.1.reverse))

/-- `str::from_utf8`. -/
def decodeUtf8 (bytes : List UInt8) : Option (List Char) :=
  (String.fromUTF8? ⟨bytes.toArray⟩).map String.toList

def encodeUtf8 (text : List Char) : List UInt8 := text.flatMap String.utf8EncodeChar

def digitsValue (digits : List Char) : ℕ :=
  digits.foldl (fun n c => 10 * n + (c.toNat - '0'.toNat)) 0

def parseDigits (text : List Char) : Option ℕ :=
  if text ≠ [] ∧ text.all Char.isDigit then some (digitsValue text) else none

/-- `str::parse` for an unsigned integer type with the given greatest value. -/
def parseUnsigned (greatest : ℕ) (text : List Char) : Option ℕ :=
  (parseDigits ((stripPrefix ['+'] text).getD text)).filter (· ≤ greatest)

/-- `str::parse` for a signed integer type. -/
def parseSigned (least greatest : ℤ) (text : List Char) : Option ℤ :=
  match stripPrefix ['-'] text with
  | some digits => ((parseDigits digits).map (fun n => -(n : ℤ))).filter (least ≤ ·)
  | none => ((parseDigits ((stripPrefix ['+'] text).getD text)).map (fun n => (n : ℤ))).filter (· ≤ greatest)

theorem lines_of_not_mem {text : List Char} (h : '\n' ∉ text) :
    lines text = if text = [] then [] else [text] := by
  induction text with
  | nil => rfl
  | cons c text ih =>
    rw [List.mem_cons,not_or] at h
    have htext := ih h.2
    rw [if_neg (by simp)]
    unfold lines
    split
    · next heq => cases heq
    · next rest heq => exact absurd (List.cons.inj heq).1.symm h.1
    · next rest heq =>
      have hmem : '\n' ∈ text := by simp [(List.cons.inj heq).2]
      exact absurd hmem h.2
    · next d rest hne hnr heq =>
      obtain ⟨rfl,rfl⟩ := List.cons.inj heq
      rw [htext]
      by_cases hempty : text = []
      · simp [hempty]
      · simp [hempty]

theorem stripPrefix_eq_some {head text rest : List Char} :
    stripPrefix head text = some rest ↔ text = head ++ rest := by
  induction head generalizing text with
  | nil => simp [stripPrefix,eq_comm]
  | cons c head ih =>
    cases text with
    | nil => simp [stripPrefix]
    | cons d text =>
      by_cases hcd : c = d
      · simp [stripPrefix,hcd,ih]
      · simp [stripPrefix,hcd,Ne.symm hcd]

theorem splitAtText_eq_some {pattern text before after : List Char}
    (h : splitAtText pattern text = some (before,after)) : text = before ++ pattern ++ after := by
  induction text generalizing before with
  | nil =>
    by_cases hpattern : pattern = []
    · subst hpattern
      obtain ⟨rfl,rfl⟩ : [] = before ∧ [] = after := by simpa [splitAtText] using h
      rfl
    · simp [splitAtText,hpattern] at h
  | cons c text ih =>
    unfold splitAtText at h
    split at h
    · next rest hstrip =>
      obtain ⟨rfl,rfl⟩ : [] = before ∧ rest = after := by simpa using h
      exact stripPrefix_eq_some.mp hstrip
    · obtain ⟨⟨head,tail⟩,hfound,hpair⟩ := Option.map_eq_some_iff.mp h
      obtain ⟨rfl,rfl⟩ : c :: head = before ∧ tail = after := by simpa using hpair
      rw [ih hfound]
      rfl

/-- The pattern occurs nowhere before the place found. -/
theorem splitAtText_first {pattern text before after : List Char}
    (h : splitAtText pattern text = some (before,after)) {early late : List Char}
    (hocc : text = early ++ pattern ++ late) : before.length ≤ early.length := by
  induction text generalizing before early with
  | nil =>
    have hlength := congrArg List.length (splitAtText_eq_some h)
    simp only [List.length_nil,List.length_append] at hlength
    omega
  | cons c text ih =>
    unfold splitAtText at h
    split at h
    · obtain ⟨rfl,-⟩ : [] = before ∧ _ := by simpa using h
      exact Nat.zero_le _
    · next hstrip =>
      obtain ⟨⟨head,tail⟩,hfound,hpair⟩ := Option.map_eq_some_iff.mp h
      obtain ⟨rfl,rfl⟩ : c :: head = before ∧ tail = after := by simpa using hpair
      cases early with
      | nil => exact absurd (stripPrefix_eq_some.mpr hocc) (by simp [hstrip])
      | cons d early =>
        have htext : text = early ++ pattern ++ late := (List.cons.inj hocc).2
        exact Nat.succ_le_succ (ih hfound htext)

theorem splitAtText_eq_none {pattern text : List Char} :
    splitAtText pattern text = none ↔ ∀ before after, text ≠ before ++ pattern ++ after := by
  induction text with
  | nil =>
    by_cases hpattern : pattern = []
    · subst hpattern
      simp [splitAtText]
    · simp [splitAtText,hpattern]
  | cons c text ih =>
    unfold splitAtText
    split
    · next rest hstrip =>
      have hocc := stripPrefix_eq_some.mp hstrip
      simp only [reduceCtorEq,false_iff,not_forall,not_not]
      exact ⟨[],rest,hocc⟩
    · next hstrip =>
      rw [Option.map_eq_none_iff,ih]
      constructor
      · intro h before after hocc
        cases before with
        | nil => exact absurd (stripPrefix_eq_some.mpr hocc) (by simp [hstrip])
        | cons d before => exact h before after (List.cons.inj hocc).2
      · intro h before after hocc
        exact h (c :: before) after (congrArg _ hocc)

theorem decode_encode (text : List Char) : decodeUtf8 (encodeUtf8 text) = some text := by
  have hbytes : (⟨(encodeUtf8 text).toArray⟩ : ByteArray) = (String.ofList text).toByteArray := by
    rw [String.toByteArray_ofList,List.utf8Encode]
    exact ByteArray.ext (by simp [encodeUtf8])
  have hvalid : String.fromUTF8? (String.ofList text).toByteArray = some (String.ofList text) := by
    unfold String.fromUTF8?
    exact dif_pos (String.ofList text).isValidUTF8
  rw [decodeUtf8,hbytes,hvalid,Option.map_some,String.toList_ofList]

theorem stripSuffix_eq_some {tail text rest : List Char} :
    stripSuffix tail text = some rest ↔ text = rest ++ tail := by
  have hstrip : stripSuffix tail text = some rest ↔
      ∃ back, text.reverse = tail.reverse ++ back ∧ back.reverse = rest := by
    simp [stripSuffix,stripPrefix_eq_some]
  rw [hstrip]
  constructor
  · rintro ⟨back,hback,rfl⟩
    have htext := congrArg List.reverse hback
    simpa using htext
  · rintro rfl
    exact ⟨rest.reverse,by simp,by simp⟩

/-! ## Bytes of a text -/

theorem or_ne_of_lt {a b c : UInt8} (h : c < b) : a ||| b ≠ c := by
  intro hor
  have hle : b.toNat ≤ (a ||| b).toNat := by
    rw [UInt8.toNat_or]
    exact Nat.right_le_or
  rw [hor] at hle
  exact absurd (UInt8.lt_iff_toNat_lt.mp h) (Nat.not_lt.mpr hle)

theorem eq_of_mem_encodeChar {c d : Char} (hc : c.utf8Size = 1)
    (h : c.val.toUInt8 ∈ String.utf8EncodeChar d) : d = c := by
  have hbound := UInt32.le_iff_toNat_le.mp (Char.utf8Size_eq_one_iff.mp hc)
  have hbyte : c.val.toUInt8.toNat = c.val.toNat := by
    rw [UInt32.toNat_toUInt8]
    exact Nat.mod_eq_of_lt (hbound.trans_lt (by decide))
  have hlow : c.val.toUInt8 < 128 := by
    rw [UInt8.lt_iff_toNat_lt,hbyte]
    exact Nat.lt_succ_of_le hbound
  have hhigh : ∀ a b : UInt8, 128 ≤ b → c.val.toUInt8 ≠ a ||| b := by
    intro a b hb
    exact (or_ne_of_lt (UInt8.lt_of_lt_of_le hlow hb)).symm
  rcases d.utf8Size_eq with hd | hd | hd | hd
  · rw [String.utf8EncodeChar_eq_singleton hd,List.mem_singleton] at h
    have hbound' := UInt32.le_iff_toNat_le.mp (Char.utf8Size_eq_one_iff.mp hd)
    have hsame := congrArg UInt8.toNat h
    rw [hbyte,UInt32.toNat_toUInt8,Nat.mod_eq_of_lt (hbound'.trans_lt (by decide))] at hsame
    exact Char.ext (UInt32.toNat_inj.mp hsame.symm)
  · rw [String.utf8EncodeChar_eq_cons_cons hd] at h
    simp only [List.mem_cons,List.not_mem_nil,or_false] at h
    rcases h with h | h <;> exact absurd h (hhigh _ _ (by decide))
  · rw [String.utf8EncodeChar_eq_cons_cons_cons hd] at h
    simp only [List.mem_cons,List.not_mem_nil,or_false] at h
    rcases h with h | h | h <;> exact absurd h (hhigh _ _ (by decide))
  · rw [String.utf8EncodeChar_eq_cons_cons_cons_cons hd] at h
    simp only [List.mem_cons,List.not_mem_nil,or_false] at h
    rcases h with h | h | h | h <;> exact absurd h (hhigh _ _ (by decide))

theorem encodeUtf8_append (text more : List Char) :
    encodeUtf8 (text ++ more) = encodeUtf8 text ++ encodeUtf8 more := List.flatMap_append

theorem encodeUtf8_eq_nil {text : List Char} : encodeUtf8 text = [] ↔ text = [] := by
  cases text with
  | nil => simp [encodeUtf8]
  | cons c text =>
    have hlength := c.utf8Size_pos
    rw [← String.length_utf8EncodeChar] at hlength
    simp [encodeUtf8,List.ne_nil_of_length_pos hlength]

theorem encodeUtf8_split {c : Char} (hc : c.utf8Size = 1) {text : List Char} {before after : List UInt8}
    (h : encodeUtf8 text = before ++ c.val.toUInt8 :: after) :
    ∃ early late, text = early ++ c :: late ∧ encodeUtf8 early = before ∧ encodeUtf8 late = after := by
  induction text generalizing before with
  | nil => simp [encodeUtf8] at h
  | cons d text ih =>
    have hcons : encodeUtf8 (d :: text) = String.utf8EncodeChar d ++ encodeUtf8 text := rfl
    rw [hcons] at h
    have hlonger : ∀ more, before = String.utf8EncodeChar d ++ more →
        encodeUtf8 text = more ++ c.val.toUInt8 :: after →
        ∃ early late, d :: text = early ++ c :: late ∧ encodeUtf8 early = before ∧
          encodeUtf8 late = after := by
      intro more hbefore hmore
      obtain ⟨early,late,htext,hearly,hlate⟩ := ih hmore
      refine ⟨d :: early,late,by rw [htext,List.cons_append],?_,hlate⟩
      rw [hbefore,← hearly]
      rfl
    rcases List.append_eq_append_iff.mp h with ⟨more,hbefore,hmore⟩ | ⟨more,henc,hmore⟩
    · exact hlonger more hbefore hmore
    · cases more with
      | nil => exact hlonger [] (by simpa using henc.symm) (by simpa using hmore.symm)
      | cons b more =>
        obtain ⟨rfl,hafter⟩ := List.cons.inj hmore
        have hd : d = c := eq_of_mem_encodeChar hc (by rw [henc]; simp)
        rw [hd,String.utf8EncodeChar_eq_singleton hc] at henc
        cases before with
        | nil =>
          obtain ⟨-,rfl⟩ := List.cons.inj henc
          exact ⟨[],text,by rw [hd]; rfl,rfl,hafter.symm⟩
        | cons b before => simp at henc

/-! ## Whitespace -/

def isWhitespace (c : Char) : Bool :=
  let n := c.toNat
  (9 ≤ n && n ≤ 13) || n == 0x20 || n == 0x85 || n == 0xa0 || n == 0x1680 ||
    (0x2000 ≤ n && n ≤ 0x200a) || n == 0x2028 || n == 0x2029 || n == 0x202f || n == 0x205f ||
    n == 0x3000

def trim (text : String) : String :=
  String.ofList (((text.toList.dropWhile isWhitespace).reverse.dropWhile isWhitespace).reverse)

theorem trim_trim (text : String) : trim (trim text) = trim text := by
  have htrim : ∀ text, trim text =
      String.ofList ((text.toList.dropWhile isWhitespace).rdropWhile isWhitespace) := fun _ => rfl
  let rest := text.toList.dropWhile isWhitespace
  have hpart : rest.rdropWhile isWhitespace <+: rest :=
    List.rdropWhile_prefix isWhitespace rest
  have hfirst : (rest.rdropWhile isWhitespace).dropWhile isWhitespace = rest.rdropWhile isWhitespace := by
    rw [List.dropWhile_eq_self_iff]
    intro hlength
    have hrest := List.dropWhile_eq_self_iff.mp (List.dropWhile_idempotent isWhitespace text.toList)
      (hlength.trans_le hpart.length_le)
    rwa [hpart.getElem hlength]
  rw [htrim (trim text),htrim text,String.toList_ofList,hfirst,List.rdropWhile_idempotent]

end LatexCore.Core
