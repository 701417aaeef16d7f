import Mathlib.Data.List.Find
import LatexCore.Imports.Verdicts

/-! # Two spellings of an upload

A UUID can be spelled in upper case, without hyphens or in braces, and an integer with a
sign or leading zeros. Two lines that differ in such spellings only give rows with the
same error, if any, and the same cells but for these spellings; the columns that no check
reads as a UUID or an integer are the same.
-/
namespace LatexCore.Imports
open Core Foundation
open Institution (InstitutionError)

variable {texts : Texts} {limits : ImportLimits} {mode : ImportMode} {dataset : Dataset} {column : String}

def SameText (texts : Texts) (dataset : Dataset) (column text other : String) : Prop :=
  text ≠ "" ∧ other ≠ "" ∧
    (column ∈ dataset.spec.uuids ∧ (∃ id, texts.parseUuid text = some id ∧ texts.parseUuid other = some id) ∨
      column ∈ dataset.spec.integers ∧ ∃ n, texts.parseI32 text = some n ∧ texts.parseI32 other = some n)

def SameValue (texts : Texts) (dataset : Dataset) (column cell other : String) : Prop :=
  trim cell = trim other ∨ SameText texts dataset column (trim cell) (trim other)

/-- The lines differ in the spelling of UUIDs and integers only. -/
structure Respelled (texts : Texts) (line other : Line) : Prop where
  dataset : line.dataset = other.dataset
  headers : line.headers = other.headers
  formulaError : line.formulaError = other.formulaError
  cells : List.Forall₂ (fun cell cell' : String × String => cell.1 = cell'.1 ∧
      SameValue texts line.dataset (trim cell.1) cell.2 cell'.2)
    (line.headers.zip line.record) (other.headers.zip other.record)

/-- A row of an upload with the row in its place of an upload that differs in spelling only. -/
structure Twin (texts : Texts) (limits : ImportLimits) (mode : ImportMode) where
  rowNumber : ℕ
  uploadIndex : ℕ
  line : Line
  other : Line
  row : SourceRow
  otherRow : SourceRow
  respelled : Respelled texts line other
  valid : validateHeaders line.dataset line.headers limits mode = .ok ()
  read : sourceRow texts line.dataset rowNumber line.headers line.record line.formulaError limits mode
    uploadIndex = .ok row
  otherRead : sourceRow texts other.dataset rowNumber other.headers other.record other.formulaError limits mode
    uploadIndex = .ok otherRow

/-- What two payloads have in a column. -/
def SameCell (texts : Texts) (dataset : Dataset) (column : String) (cell other : Option Value) : Prop :=
  cell = other ∨ ∃ text text', cell = some (.str text) ∧ other = some (.str text') ∧
    SameText texts dataset column text text'

def SamePayload (texts : Texts) (dataset : Dataset) (payload other : Value) : Prop :=
  ∀ column, trim column = column → SameCell texts dataset column (payload.get? column) (other.get? column)

/-! ## Cells of lines -/

theorem sameCell_value {cell other : String} (h : SameValue texts dataset column cell other) :
    SameCell texts dataset column (some (cellValue cell)) (some (cellValue other)) := by
  rcases h with hsame | hspelled
  · left
    rw [cellValue,cellValue,hsame]
  · have hne := hspelled.1
    have hne' := hspelled.2.1
    refine .inr ⟨trim cell,trim other,?_,?_,hspelled⟩
    · rw [cellValue,if_neg hne]
    · rw [cellValue,if_neg hne']

theorem samePayload_foldl {cells others : List (String × String)} {payload other : Value}
    (h : List.Forall₂ (fun cell cell' : String × String => cell.1 = cell'.1 ∧
      SameValue texts dataset (trim cell.1) cell.2 cell'.2) cells others)
    (hobject : payload.isObject = true) (hother : other.isObject = true)
    (hsame : SamePayload texts dataset payload other) :
    SamePayload texts dataset
      (cells.foldl (fun payload cell => payload.set cell.1 (cellValue cell.2)) payload)
      (others.foldl (fun payload cell => payload.set cell.1 (cellValue cell.2)) other) := by
  induction h generalizing payload other with
  | nil => exact hsame
  | cons hfirst _ ih =>
    obtain ⟨hheader,hvalue⟩ := hfirst
    refine ih (isObject_set hobject _ _) (isObject_set hother _ _) ?_
    intro column hcolumn
    rw [get?_set hobject,get?_set hother,← hheader]
    split
    · next heq =>
      rw [← heq,hcolumn] at hvalue
      exact sameCell_value hvalue
    · exact hsame column hcolumn

theorem Respelled.payload {line other : Line} (h : Respelled texts line other) :
    SamePayload texts line.dataset line.cells other.cells :=
  samePayload_foldl h.cells rfl rfl (fun _ _ => .inl rfl)

/-! ## Errors -/

theorem unspelled (dataset : Dataset) :
    (∀ column ∈ dataset.spec.emails, column ∉ dataset.spec.uuids ∧ column ∉ dataset.spec.integers) ∧
    (∀ column ∈ ["is_leader","__action","external_team_key"],
      column ∉ dataset.spec.uuids ∧ column ∉ dataset.spec.integers) ∧
    ∀ column ∈ dataset.spec.uuids, column ∉ dataset.spec.integers := by
  cases dataset <;> decide

theorem SameCell.same {cell other : Option Value} (h : SameCell texts dataset column cell other)
    (huuid : column ∉ dataset.spec.uuids) (hinteger : column ∉ dataset.spec.integers) : cell = other := by
  rcases h with hsame | ⟨-,-,-,-,-,-,⟨hmem,-⟩ | ⟨hmem,-⟩⟩
  · exact hsame
  · exact absurd hmem huuid
  · exact absurd hmem hinteger

theorem checked_trim (dataset : Dataset) : ∀ column ∈ dataset.spec.uuids ++ dataset.spec.integers ++
    dataset.spec.emails ++ dataset.spec.required ++ dataset.spec.keys, trim column = column := by
  cases dataset <;> decide

namespace SamePayload
variable {payload other : Value} (h : SamePayload texts dataset payload other)
include h

theorem filled (hcolumn : trim column = column) :
    filledValue payload column = filledValue other column ∨
      ∃ text text', filledValue payload column = some text ∧ filledValue other column = some text' ∧
        SameText texts dataset column text text' := by
  rcases h column hcolumn with hsame | ⟨text,text',htext,htext',hspelled⟩
  · left
    rw [filledValue,textValue,hsame,filledValue,textValue]
  · refine .inr ⟨text,text',?_,?_,hspelled⟩
    · simp [filledValue,textValue,htext,hspelled.1]
    · simp [filledValue,textValue,htext',hspelled.2.1]

theorem same (hcolumn : trim column = column) (huuid : column ∉ dataset.spec.uuids)
    (hinteger : column ∉ dataset.spec.integers) : payload.get? column = other.get? column :=
  (h column hcolumn).same huuid hinteger

theorem text_same (hcolumn : trim column = column) (huuid : column ∉ dataset.spec.uuids)
    (hinteger : column ∉ dataset.spec.integers) : textValue payload column = textValue other column := by
  rw [textValue,h.same hcolumn huuid hinteger,textValue]

theorem requiredError_eq (htrim : ∀ column ∈ requiredOf mode dataset, trim column = column) :
    requiredError mode dataset payload = requiredError mode dataset other := by
  rw [requiredError,requiredError]
  congr 1
  refine List.find?_congr fun column hcolumn => ?_
  rcases h.filled (htrim column hcolumn) with hsame | ⟨text,text',htext,htext',-⟩
  · rw [hsame]
  · rw [htext,htext']
    rfl

theorem uuidError_eq : uuidError texts dataset payload = uuidError texts dataset other := by
  rw [uuidError,uuidError]
  congr 1
  refine List.find?_congr fun column hcolumn => ?_
  rcases h.filled (checked_trim dataset column (by simp [hcolumn])) with
    hsame | ⟨text,text',htext,htext',-,-,⟨-,id,hid,hid'⟩ | ⟨hinteger,-⟩⟩
  · rw [hsame]
  · rw [htext,htext',Option.any_some,Option.any_some,hid,hid']
  · exact absurd hinteger ((unspelled dataset).2.2 column hcolumn)

theorem integerError_eq : integerError texts dataset payload = integerError texts dataset other := by
  rw [integerError,integerError]
  congr 1
  refine List.find?_congr fun column hcolumn => ?_
  rcases h.filled (checked_trim dataset column (by simp [hcolumn])) with
    hsame | ⟨text,text',htext,htext',-,-,⟨huuid,-⟩ | ⟨-,n,hn,hn'⟩⟩
  · rw [hsame]
  · exact absurd hcolumn ((unspelled dataset).2.2 column huuid)
  · rw [htext,htext',Option.any_some,Option.any_some,integerOutside,integerOutside,hn,hn']

theorem emailError_eq :
    (checkEmails payload dataset.spec.emails).1 = (checkEmails other dataset.spec.emails).1 := by
  rcases emails_cases dataset with hemails | ⟨hemails,-⟩
  · rw [hemails]
    rfl
  · have hmem : "email" ∈ dataset.spec.emails := by
      rw [hemails]
      exact List.mem_singleton_self _
    obtain ⟨huuid,hinteger⟩ := (unspelled dataset).1 "email" hmem
    have hsame : filledValue payload "email" = filledValue other "email" := by
      rw [filledValue,h.text_same (by decide) huuid hinteger,filledValue]
    rw [hemails]
    simp only [checkEmails,hsame]
    cases filledValue other "email" with
    | none => rfl
    | some value => cases hvalid : validEmail value <;> simp [hvalid]

theorem leaderError_eq : (checkLeader dataset payload).1 = (checkLeader dataset other).1 := by
  obtain ⟨huuid,hinteger⟩ := (unspelled dataset).2.1 "is_leader" (by simp)
  have hsame : textValue payload "is_leader" = textValue other "is_leader" := h.text_same (by decide) huuid hinteger
  rw [checkLeader,checkLeader,hsame]
  split
  · rfl
  · rfl

theorem cellError_eq : cellError texts mode dataset payload = cellError texts mode dataset other := by
  have htrim : ∀ column ∈ requiredOf mode dataset, trim column = column := by
    intro column hcolumn
    rw [requiredOf] at hcolumn
    split at hcolumn
    · exact checked_trim dataset column (by simp [hcolumn])
    · exact checked_trim dataset column (by simp [hcolumn])
  rw [cellError,h.requiredError_eq htrim,h.uuidError_eq,h.integerError_eq,h.emailError_eq,h.leaderError_eq,cellError]

theorem normalised_same (hcolumn : trim column = column) :
    SameCell texts dataset column (normalised dataset payload column) (normalised dataset other column) := by
  rw [normalised,normalised]
  split
  · next hemail =>
    obtain ⟨huuid,hinteger⟩ := (unspelled dataset).1 column (by simpa using hemail)
    left
    rw [filledValue,h.text_same hcolumn huuid hinteger,filledValue,h.same hcolumn huuid hinteger]
  · split
    · obtain ⟨huuid,hinteger⟩ := (unspelled dataset).2.1 "is_leader" (by simp)
      left
      rw [leaderOf,h.text_same (by decide) huuid hinteger,leaderOf]
    · exact h column hcolumn

end SamePayload

/-! ## Rows -/

structure Counterpart (texts : Texts) (row other : SourceRow) : Prop where
  place : SamePlace row other
  error : row.error = other.error
  payload : SamePayload texts row.dataset row.payload other.payload
  naturalKey : row.naturalKey = naturalKeyOf row.dataset row.payload
  otherKey : other.naturalKey = naturalKeyOf row.dataset other.payload
  raw : Raw row
  otherRaw : Raw other

theorem read_payload {line : Line} {row : SourceRow} {rowNumber uploadIndex : ℕ}
    (h : sourceRow texts line.dataset rowNumber line.headers line.record line.formulaError limits mode uploadIndex =
      .ok row) : row.uploadIndex = uploadIndex ∧ row.rowNumber = rowNumber ∧
      row.error = (line.formulaError.map (fun message => ("FORMULA_IN_KEY",message))).or
        (cellError texts mode line.dataset line.cells) ∧
      ∀ column, row.payload.get? column =
        if passed row.error then normalised line.dataset line.cells column else line.cells.get? column := by
  simp only [sourceRow,bind_ok,pure_ok] at h
  obtain ⟨filled,hfill,rfl⟩ := h
  obtain rfl : filled = line.cells := fillPayload_eq hfill
  refine ⟨rfl,rfl,checkRow_error _ _ _,fun column => ?_⟩
  exact checkRow_get (foldl_object rfl) (formula_not_passed line.formulaError) rfl column

theorem Twin.counterpart (twin : Twin texts limits mode) : Counterpart texts twin.row twin.otherRow := by
  have hvalid : validateHeaders twin.other.dataset twin.other.headers limits mode = .ok () := by
    rw [← twin.respelled.dataset,← twin.respelled.headers]
    exact twin.valid
  have view := rowOf_view ⟨twin.valid,_,_,twin.read⟩
  have otherView := rowOf_view ⟨hvalid,_,_,twin.otherRead⟩
  obtain ⟨hupload,hnumber,herror,hcell⟩ := read_payload twin.read
  obtain ⟨hupload',hnumber',herror',hcell'⟩ := read_payload twin.otherRead
  have hpayload := twin.respelled.payload
  have hsame : twin.row.error = twin.otherRow.error := by
    rw [herror,herror',hpayload.cellError_eq,twin.respelled.dataset,twin.respelled.formulaError]
  refine ⟨⟨hupload.trans hupload'.symm,?_,hnumber.trans hnumber'.symm⟩,hsame,?_,?_,?_,
    ⟨view.object,view.action⟩,⟨otherView.object,otherView.action⟩⟩
  · rw [view.dataset,otherView.dataset,twin.respelled.dataset]
  · rw [view.dataset]
    intro column hcolumn
    rw [hcell,hcell',← hsame,← twin.respelled.dataset]
    split
    · exact hpayload.normalised_same hcolumn
    · exact hpayload column hcolumn
  · rw [view.naturalKey,view.dataset]
  · rw [otherView.naturalKey,view.dataset,twin.respelled.dataset]

namespace Counterpart
variable {row other : SourceRow} (h : Counterpart texts row other)
include h

theorem team : teamOf row = teamOf other := by
  obtain ⟨huuid,hinteger⟩ := (unspelled row.dataset).2.1 "external_team_key" (by simp)
  rw [teamOf,h.payload.text_same (by decide) huuid hinteger,teamOf]

theorem leader : isLeader row = isLeader other := by
  obtain ⟨huuid,hinteger⟩ := (unspelled row.dataset).2.1 "is_leader" (by simp)
  rw [isLeader,h.payload.same (by decide) huuid hinteger,isLeader]

theorem error_code : errorCode row = errorCode other := by
  rw [errorCode,h.error,errorCode]

end Counterpart

/-- The rows of two uploads that differ in spelling only. -/
structure Paired (texts : Texts) (rows others : List SourceRow) : Prop where
  length : rows.length = others.length
  row : ∀ (index : ℕ) (row other : SourceRow), rows[index]? = some row → others[index]? = some other →
    Counterpart texts row other

theorem twins_paired (twins : List (Twin texts limits mode)) :
    Paired texts (twins.map (·.row)) (twins.map (·.otherRow)) := by
  refine ⟨by rw [List.length_map,List.length_map],?_⟩
  intro index row other hrow hother
  rw [List.getElem?_map,Option.map_eq_some_iff] at hrow hother
  obtain ⟨twin,htwin,rfl⟩ := hrow
  obtain ⟨twin',htwin',rfl⟩ := hother
  obtain rfl : twin = twin' := Option.some.inj (htwin.symm.trans htwin')
  exact twin.counterpart

end LatexCore.Imports
