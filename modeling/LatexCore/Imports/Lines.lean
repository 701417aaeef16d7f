import LatexCore.Foundation.Lockstep
import LatexCore.Imports.Cells
import LatexCore.Imports.CrossRows

/-! # Lines of uploaded files

A line is what a file holds of one row: its headers, its cells and whether a key cell
is a formula. The source row of a line has the error of the first check that the cells
fail, and the later checks read its cells as the line has them.
-/
namespace LatexCore.Imports
open Core Foundation
open Institution (InstitutionError)

structure Line where
  dataset : Dataset
  headers : List String
  record : List String
  formulaError : Option String

namespace Line

def cells (line : Line) : Value :=
  (line.headers.zip line.record).foldl (fun payload cell => payload.set cell.1 (cellValue cell.2)) (.obj [])

def Has (line : Line) (column : String) : Prop := column ∈ line.headers.map trim

def key (line : Line) : List (Option String) := line.dataset.spec.keys.map (textValue line.cells)

def pair (line : Line) : String × String :=
  ((textValue line.cells "external_team_key").getD "",(textValue line.cells "writer_order").getD "")

def leads (line : Line) : Bool := leaderOf line.cells

end Line

variable {texts : Texts} {limits : ImportLimits} {mode : ImportMode} {line : Line} {row : SourceRow}

def RowOf (texts : Texts) (limits : ImportLimits) (mode : ImportMode) (line : Line) (row : SourceRow) : Prop :=
  validateHeaders line.dataset line.headers limits mode = .ok () ∧ ∃ rowNumber uploadIndex,
    sourceRow texts line.dataset rowNumber line.headers line.record line.formulaError limits mode uploadIndex =
      .ok row

/-- The rows of an upload are those of its lines. -/
structure Parsed (texts : Texts) (limits : ImportLimits) (mode : ImportMode) (lines : List Line)
    (rows : List SourceRow) : Prop where
  length : lines.length = rows.length
  row : ∀ (index : ℕ) (line : Line) (row : SourceRow), lines[index]? = some line → rows[index]? = some row →
    RowOf texts limits mode line row

/-! ## Errors of a line -/

def cellError (texts : Texts) (mode : ImportMode) (dataset : Dataset) (cells : Value) : Option RowError :=
  (requiredError mode dataset cells).or ((uuidError texts dataset cells).or ((integerError texts dataset cells).or
    ((checkEmails cells dataset.spec.emails).1.or (checkLeader dataset cells).1)))

theorem checkRow_error (dataset : Dataset) (formulaError : Option RowError) (cells : Value) :
    (checkRow texts mode dataset formulaError cells).1 = formulaError.or (cellError texts mode dataset cells) := by
  unfold checkRow cellError
  split
  · next error herror =>
    rw [← Option.or_assoc,← Option.or_assoc,← Option.or_assoc]
    rw [← Option.or_assoc,← Option.or_assoc] at herror
    rw [herror,Option.some_or]
  · next hnone =>
    simp only [Option.or_eq_none_iff] at hnone
    obtain ⟨rfl,hrequired,huuid,hinteger⟩ := hnone
    rw [hrequired,huuid,hinteger]
    simp only [Option.none_or]
    rcases emails_cases dataset with hemails | ⟨-,hwriters⟩
    · rw [hemails]
      rfl
    · split
      · next hsome =>
        obtain ⟨error,herror⟩ := Option.isSome_iff_exists.mp hsome
        rw [herror,Option.some_or]
      · next hsome =>
        have hclean : (checkEmails cells dataset.spec.emails).1 = none := by simpa using hsome
        rw [hclean,checkLeader,if_neg hwriters,checkLeader,if_neg hwriters]
        rfl

theorem checkEmails_object {cells : Value} (hobject : cells.isObject = true) (fields : List String) :
    (checkEmails cells fields).2.isObject = true := by
  induction fields generalizing cells with
  | nil => exact hobject
  | cons field rest ih =>
    unfold checkEmails
    split
    · exact ih hobject
    · split
      · exact ih (isObject_set hobject _ _)
      · exact hobject

theorem checkRow_object {cells : Value} (hobject : cells.isObject = true) (dataset : Dataset)
    (formulaError : Option RowError) : (checkRow texts mode dataset formulaError cells).2.isObject = true := by
  unfold checkRow
  split
  · exact hobject
  · have hemails := checkEmails_object hobject dataset.spec.emails
    dsimp only
    split
    · exact hemails
    · unfold checkLeader
      split
      · exact isObject_set hemails _ _
      · exact hemails

/-- The cells of a line that are filled pass the checks of their columns, and the leader of a Writer
is spelled as a boolean. -/
structure Line.Valid (texts : Texts) (line : Line) : Prop where
  uuid : ∀ field ∈ line.dataset.spec.uuids, ∀ value, filledValue line.cells field = some value →
    (texts.parseUuid value).isSome = true
  integer : ∀ field ∈ line.dataset.spec.integers, ∀ value, filledValue line.cells field = some value →
    integerOutside texts field value = false
  email : ∀ field ∈ line.dataset.spec.emails, ∀ value, filledValue line.cells field = some value →
    validEmail value = true
  leader : line.dataset = .paperTeamWriters →
    asciiLower ((textValue line.cells "is_leader").getD "") ∈ ["true","false","1","0","yes","no"]

theorem uuidError_none {dataset : Dataset} {cells : Value} : uuidError texts dataset cells = none ↔
    ∀ field ∈ dataset.spec.uuids, ∀ value, filledValue cells field = some value →
      (texts.parseUuid value).isSome = true := by
  simp only [uuidError,Option.map_eq_none_iff,List.find?_eq_none,Option.any_eq_true,not_exists,not_and]
  refine forall_congr' fun field => forall_congr' fun _ => forall_congr' fun value => forall_congr' fun _ => ?_
  cases texts.parseUuid value <;> simp

theorem integerError_none {dataset : Dataset} {cells : Value} : integerError texts dataset cells = none ↔
    ∀ field ∈ dataset.spec.integers, ∀ value, filledValue cells field = some value →
      integerOutside texts field value = false := by
  simp only [integerError,Option.map_eq_none_iff,List.find?_eq_none,Option.any_eq_true,not_exists,not_and,
    Bool.not_eq_true]

theorem checkEmails_none (dataset : Dataset) (cells : Value) :
    (checkEmails cells dataset.spec.emails).1 = none ↔
      ∀ field ∈ dataset.spec.emails, ∀ value, filledValue cells field = some value → validEmail value = true := by
  rcases emails_cases dataset with hemails | ⟨hemails,-⟩
  · rw [hemails]
    simp [checkEmails]
  · rw [hemails]
    simp only [checkEmails,List.mem_singleton,forall_eq]
    cases filledValue cells "email" with
    | none => simp
    | some value =>
      cases hvalid : validEmail value <;> simp [hvalid]

theorem checkLeader_none (dataset : Dataset) (cells : Value) : (checkLeader dataset cells).1 = none ↔
    (dataset = .paperTeamWriters →
      asciiLower ((textValue cells "is_leader").getD "") ∈ ["true","false","1","0","yes","no"]) := by
  unfold checkLeader
  split
  · next hwriters =>
    simp only [List.contains_eq_mem,decide_eq_true_eq,ite_eq_left_iff,reduceCtorEq,imp_false,not_not,hwriters,
      forall_const]
  · next hother => simp [hother]

theorem cellError_none (hrequired : requiredError mode line.dataset line.cells = none) :
    cellError texts mode line.dataset line.cells = none ↔ line.Valid texts := by
  rw [cellError,hrequired,Option.none_or,Option.or_eq_none_iff,Option.or_eq_none_iff,Option.or_eq_none_iff,
    uuidError_none,integerError_none,checkEmails_none,checkLeader_none]
  constructor
  · rintro ⟨huuid,hinteger,hemail,hleader⟩
    exact ⟨huuid,hinteger,hemail,hleader⟩
  · rintro ⟨huuid,hinteger,hemail,hleader⟩
    exact ⟨huuid,hinteger,hemail,hleader⟩

/-! ## Rows of lines -/

theorem fillPayload_eq {dataset : Dataset} {rowNumber : ℕ} {payload filled : Value} {cells : List (String × String)}
    (h : fillPayload dataset rowNumber limits payload cells = .ok filled) :
    filled = cells.foldl (fun payload cell => payload.set cell.1 (cellValue cell.2)) payload := by
  induction cells generalizing payload with
  | nil =>
    rw [fillPayload,pure_ok] at h
    exact h.symm
  | cons cell rest ih =>
    simp only [fillPayload,bind_ok] at h
    obtain ⟨_,-,h⟩ := h
    exact ih h

/-- What the later checks read of the row of a line. -/
structure View (texts : Texts) (mode : ImportMode) (line : Line) (row : SourceRow) : Prop where
  dataset : row.dataset = line.dataset
  error : row.error = (line.formulaError.map (fun message => ("FORMULA_IN_KEY",message))).or
    (cellError texts mode line.dataset line.cells)
  object : row.payload.isObject = true
  cell : ∀ column, column ∉ line.dataset.spec.emails → column ≠ "is_leader" →
    row.payload.get? column = line.cells.get? column
  leader : row.error = none → line.dataset = .paperTeamWriters →
    row.payload.get? "is_leader" = some (.bool line.leads)
  column : ∀ column ∈ line.dataset.spec.columns, (line.cells.get? column).isSome = true → line.Has column
  action : row.payload.get? "__action" = none
  naturalKey : row.naturalKey = naturalKeyOf line.dataset row.payload
  required : ∀ column ∈ requiredOf mode line.dataset, line.Has column

theorem trim_column (dataset : Dataset) : ∀ column ∈ dataset.spec.columns, trim column = column := by
  cases dataset <;> decide

theorem no_action (dataset : Dataset) :
    trim "__action" ∉ dataset.spec.columns ∧ "__action" ∉ dataset.spec.emails := by
  cases dataset <;> decide

theorem foldl_column {cells : List (String × String)} {payload : Value} {column : String}
    (hnew : column ∉ cells.map (·.1)) :
    (cells.foldl (fun payload cell => payload.set cell.1 (cellValue cell.2)) payload).get? column =
      payload.get? column := by
  induction cells generalizing payload with
  | nil => rfl
  | cons cell rest ih =>
    rw [List.map_cons,List.mem_cons,not_or] at hnew
    rw [List.foldl_cons,ih hnew.2,Value.get?_set_of_ne hnew.1]

theorem foldl_object {cells : List (String × String)} {payload : Value} (hobject : payload.isObject = true) :
    (cells.foldl (fun payload cell => payload.set cell.1 (cellValue cell.2)) payload).isObject = true := by
  induction cells generalizing payload with
  | nil => exact hobject
  | cons cell rest ih => exact ih (isObject_set hobject _ _)

theorem formula_not_passed (formulaError : Option String) :
    (formulaError.map (fun message => ("FORMULA_IN_KEY",message))).all (fun e => passed (some e) = false) =
      true := by
  cases formulaError <;> simp [passed]

theorem rowOf_view (h : RowOf texts limits mode line row) : View texts mode line row := by
  obtain ⟨hvalid,rowNumber,uploadIndex,hsource⟩ := h
  obtain ⟨filled,hfill,hdataset,-,hchecked,hkey⟩ := sourceRow_ok hsource
  obtain rfl : filled = line.cells := fillPayload_eq hfill
  obtain ⟨-,hcolumns,hrequired⟩ := validateHeaders_ok hvalid
  have hobject : line.cells.isObject = true := foldl_object rfl
  have hget := checkRow_get hobject (formula_not_passed line.formulaError) hchecked.symm
  have herror : row.error = _ := congrArg Prod.fst hchecked
  have hpayload : row.payload = _ := congrArg Prod.snd hchecked
  have hheader : ∀ column, (line.cells.get? column).isSome = true → column ∈ line.headers := by
    intro column hsome
    by_contra hnot
    have hnew : column ∉ (line.headers.zip line.record).map (·.1) := fun hmem =>
      hnot ((zip_fst_sublist _ _).subset hmem)
    rw [Line.cells,foldl_column hnew] at hsome
    simp [Value.get?] at hsome
  have hcell : ∀ column, column ∉ line.dataset.spec.emails → column ≠ "is_leader" →
      row.payload.get? column = line.cells.get? column := by
    intro column hemail hleader
    have hsame : normalised line.dataset line.cells column = line.cells.get? column := by
      have hnot : ¬(line.dataset = .paperTeamWriters ∧ column = "is_leader") := fun h => hleader h.2
      have hcontains : ¬line.dataset.spec.emails.contains column = true := by simpa using hemail
      rw [normalised,if_neg hcontains,if_neg hnot]
    rw [hget column,hsame,ite_self]
  refine ⟨hdataset,?_,?_,hcell,?_,?_,?_,hkey,hrequired⟩
  · rw [herror,checkRow_error]
  · rw [hpayload]
    exact checkRow_object hobject _ _
  · intro hnone hwriters
    rw [hget "is_leader",hnone,if_pos passed_none,normalised,hwriters]
    rfl
  · intro column hcolumn hsome
    exact List.mem_map.mpr ⟨column,hheader column hsome,trim_column _ column hcolumn⟩
  · have hcells : line.cells.get? "__action" = none := by
      by_contra hsome
      exact (no_action line.dataset).1
        (hcolumns "__action" (hheader "__action" (Option.isSome_iff_ne_none.mpr hsome)))
    rw [hcell "__action" (no_action line.dataset).2 (by decide),hcells]

theorem naturalKeyOf_get {dataset : Dataset} {column : String} (hcolumn : column ∈ dataset.spec.keys)
    (payload : Value) : (naturalKeyOf dataset payload).get? column = some ((payload.get? column).getD .null) := by
  have hfind : ∀ columns : List String, column ∈ columns →
      (Value.obj (columns.map (fun key => (key,(payload.get? key).getD .null)))).get? column =
        some ((payload.get? column).getD .null) := by
    intro columns hmem
    induction columns with
    | nil => simp at hmem
    | cons first rest ih =>
      by_cases hfirst : first = column
      · rw [List.map_cons,hfirst]
        exact Value.get?_obj_self column _ _
      · have hrest : column ∈ rest := (List.mem_cons.mp hmem).resolve_left (Ne.symm hfirst)
        rw [List.map_cons,Value.get?_obj_of_ne hfirst]
        exact ih hrest
  exact hfind _ hcolumn

theorem key_column (dataset : Dataset) : ∀ column ∈ dataset.spec.keys,
    column ∉ dataset.spec.emails ∧ column ≠ "is_leader" ∧ column ∈ dataset.spec.columns := by
  cases dataset <;> decide

theorem reference_column (dataset : Dataset) : ∀ reference ∈ checkedReferences dataset,
    reference.1 ∉ dataset.spec.emails ∧ reference.1 ≠ "is_leader" ∧ reference.1 ≠ "__action" := by
  cases dataset <;> decide

namespace View
variable (view : View texts mode line row)
include view

theorem text {column : String} (hemail : column ∉ line.dataset.spec.emails) (hleader : column ≠ "is_leader") :
    textValue row.payload column = textValue line.cells column := by
  rw [textValue,view.cell column hemail hleader,textValue]

theorem keyToken_eq : keyToken row = line.key := by
  rw [keyToken,view.dataset,Line.key]
  refine List.map_congr_left fun column hcolumn => ?_
  obtain ⟨hemail,hleader,-⟩ := key_column line.dataset column hcolumn
  rw [view.naturalKey,naturalKeyOf_get hcolumn,Option.bind_some,← view.text hemail hleader,textValue]
  cases row.payload.get? column <;> rfl

theorem pair_eq (hdataset : line.dataset = .paperTeamWriters ∨ line.dataset = .paperTeams) :
    orderPair row = line.pair := by
  have hemails : line.dataset.spec.emails = [] := by
    rcases hdataset with h | h
    · rw [h]
      rfl
    · rw [h]
      rfl
  have hmem : ∀ column, column ∉ line.dataset.spec.emails := by
    intro column
    rw [hemails]
    exact List.not_mem_nil
  rw [orderPair,teamOf,orderOf,view.text (hmem _) (by decide),view.text (hmem _) (by decide),Line.pair]

theorem error_formula {message : String} (h : line.formulaError = some message) :
    row.error = some ("FORMULA_IN_KEY",message) := by
  rw [view.error,h]
  rfl

theorem error_cells (h : line.formulaError = none) :
    row.error = cellError texts mode line.dataset line.cells := by
  rw [view.error,h]
  rfl

end View

/-! ## Rows of files -/

variable {rows : List SourceRow}

end LatexCore.Imports
