import LatexCore.Imports.Parsing

/-! # Formulas in keys

A row with a formula in a key cell is refused, and a report names the row by its
number in the sheet. The parser counts rows and columns from the first used cell and
looks formulas up by coordinates of the sheet, so both are right exactly if the counts
agree.
-/
namespace LatexCore.Imports
open Core Foundation
open Institution (InstitutionError)

variable {F D : Type} {printing : Printing F D} {texts : Texts} {limits : ImportLimits} {mode : ImportMode}
variable {uploadIndex : ℕ} {sheet : Worksheet F D}

def formulaInKeyCode : String := "FORMULA_IN_KEY"

def errorCode (row : SourceRow) : Option String := row.error.map (·.1)

theorem checkEmails_code (payload : Value) (fields : List String) :
    ((checkEmails payload fields).1.map (·.1)).all (· = "INVALID_EMAIL") = true := by
  induction fields generalizing payload with
  | nil => rfl
  | cons field rest ih =>
    unfold checkEmails
    split
    · exact ih payload
    · split
      · exact ih _
      · rfl

theorem checkLeader_code (dataset : Dataset) (payload : Value) :
    ((checkLeader dataset payload).1.map (·.1)).all (· = "INVALID_BOOLEAN") = true := by
  unfold checkLeader
  split
  · dsimp only
    split <;> rfl
  · rfl

theorem checkRow_formula (dataset : Dataset) (formulaError : Option String) (payload : Value) :
    (checkRow texts mode dataset (formulaError.map (fun message => (formulaInKeyCode,message))) payload).1.map
      (·.1) = some formulaInKeyCode ↔ formulaError.isSome = true := by
  cases formulaError with
  | some message =>
    simp [checkRow]
  | none =>
    refine iff_of_false (fun h => ?_) (by simp)
    have hcode : ∀ {found : Option RowError} {code : String}, (found.map (·.1)).all (· = code) = true →
        code ≠ formulaInKeyCode → found.map (·.1) ≠ some formulaInKeyCode := by
      intro found code hall hne heq
      rw [heq] at hall
      exact hne (by simpa using hall : formulaInKeyCode = code).symm
    unfold checkRow at h
    simp only [Option.map_none,Option.none_or] at h
    split at h
    · next error herror =>
      have hfound : error.1 = formulaInKeyCode := by simpa using h
      cases hrequired : requiredError mode dataset payload with
      | some first =>
        rw [hrequired,Option.some_or,Option.some.injEq] at herror
        subst herror
        obtain ⟨field,-,rfl⟩ := Option.map_eq_some_iff.mp hrequired
        revert hfound
        simp [formulaInKeyCode]
      | none =>
        rw [hrequired,Option.none_or] at herror
        cases huuid : uuidError texts dataset payload with
        | some first =>
          rw [huuid,Option.some_or,Option.some.injEq] at herror
          subst herror
          obtain ⟨field,-,rfl⟩ := Option.map_eq_some_iff.mp huuid
          revert hfound
          simp [formulaInKeyCode]
        | none =>
          rw [huuid,Option.none_or] at herror
          obtain ⟨field,-,rfl⟩ := Option.map_eq_some_iff.mp herror
          revert hfound
          simp [formulaInKeyCode]
    · split at h
      · exact hcode (checkEmails_code payload _) (by decide) h
      · exact hcode (checkLeader_code dataset _) (by decide) h

def KeyFormula (view : SheetView printing limits mode sheet) (index : ℕ) : Prop :=
  ∃ key ∈ view.dataset.spec.keys, ∃ column, (view.headers.map trim)[column]? = some key ∧
    (view.formulas.getValue (view.range.startRow + 1 + index) (view.range.startColumn + column)).any
      (· ≠ "") = true

/-- Exactly the rows with a formula in a key cell are refused for it, and rows are numbered as in
the sheet, from one on. -/
def FormulasRefused (view : SheetView printing limits mode sheet) (rows : List SourceRow) : Prop :=
  ∀ index row, rows[index]? = some row →
    (errorCode row = some formulaInKeyCode ↔ KeyFormula view index) ∧
      row.rowNumber = view.range.startRow + index + 2

/-- The sheet has no row below its headers, or these are in its first row and each row holds a
formula at the positions of the key headers, counted from the first column of the sheet and with
the headers as they are spelled, exactly if a key cell holds one. -/
def Aligned (view : SheetView printing limits mode sheet) : Prop :=
  view.body = [] ∨ view.range.startRow = 0 ∧ ∀ index < view.body.length,
    (formulaInKey view.formulas (keyIndexes view.dataset view.headers) index = true ↔ KeyFormula view index)

theorem formulasRefused_iff (view : SheetView printing limits mode sheet) {rows : List SourceRow}
    (h : parseCells printing texts view.dataset view.headers view.formulas limits mode uploadIndex 0 view.body =
      .ok rows) : FormulasRefused view rows ↔ Aligned view := by
  obtain ⟨hlength,hget⟩ := parseCells_get h
  have hrow : ∀ index row, rows[index]? = some row → row.rowNumber = index + 2 ∧
      (errorCode row = some formulaInKeyCode ↔
        formulaInKey view.formulas (keyIndexes view.dataset view.headers) index = true) := by
    intro index row hindex
    obtain ⟨cells,-,record,-,hsource⟩ := hget index row hindex
    obtain ⟨filled,-,-,hnumber,hchecked,-⟩ := sourceRow_ok hsource
    rw [Nat.zero_add] at hnumber hchecked
    refine ⟨hnumber,?_⟩
    have herror : row.error = _ := congrArg Prod.fst hchecked
    rw [errorCode,herror]
    refine (checkRow_formula view.dataset _ filled).trans ?_
    split <;> simp_all
  constructor
  · intro hrefused
    by_cases hbody : view.body = []
    · exact .inl hbody
    have hfirst : 0 < rows.length := by
      rw [hlength]
      exact List.length_pos_of_ne_nil hbody
    have hsome : rows[0]? = some rows[0] := List.getElem?_eq_getElem hfirst
    have hstart : view.range.startRow = 0 := by
      have hsheet := (hrefused 0 _ hsome).2
      have hparsed := (hrow 0 _ hsome).1
      omega
    refine .inr ⟨hstart,fun index hindex => ?_⟩
    have hin : index < rows.length := by omega
    have hat : rows[index]? = some rows[index] := List.getElem?_eq_getElem hin
    exact (hrow index _ hat).2.symm.trans (hrefused index _ hat).1
  · rintro (hbody | ⟨hstart,haligned⟩) index row hindex
    · have hin : index < rows.length := (List.getElem?_eq_some_iff.mp hindex).1
      rw [hlength,hbody] at hin
      exact absurd hin (Nat.not_lt_zero index)
    · have hin : index < view.body.length := by
        rw [← hlength]
        exact (List.getElem?_eq_some_iff.mp hindex).1
      refine ⟨(hrow index row hindex).2.trans (haligned index hin),?_⟩
      have hparsed := (hrow index row hindex).1
      omega

/-- In an accepted workbook, each worksheet without cells has no row, and in each other one formulas
are refused and rows numbered as in the sheet exactly if it is aligned. -/
theorem formulas_refused_iff (printing : Printing F D) (texts : Texts)
    (workbook : Except String (List (Worksheet F D))) (limits : ImportLimits) (mode : ImportMode)
    (uploadIndex : ℕ) (rows : List SourceRow)
    (accepted : parseXlsx printing texts workbook limits mode uploadIndex = .ok rows) :
    ∃ sheets parts, workbook = .ok sheets ∧ rows = List.flatten parts ∧
      List.Forall₂ (fun sheet part => part = [] ∧ (∃ range, sheet.range = .ok range ∧ range.rows = []) ∨
        ∃ view : SheetView printing limits mode sheet, FormulasRefused view part ↔ Aligned view) sheets parts := by
  obtain ⟨sheets,hworkbook,parts,hrows,hparts⟩ := parseXlsx_ok accepted
  refine ⟨sheets,parts,hworkbook,hrows,hparts.imp ?_⟩
  intro sheet part hpart
  rcases parseWorksheet_ok hpart with hempty | ⟨view,hview⟩
  · exact .inl hempty
  · exact .inr ⟨view,formulasRefused_iff view hview⟩

/-! ## A sheet with an empty first row -/

def noNumbers : Printing Empty Empty := ⟨nofun,nofun,nofun,nofun⟩
def noTexts : Texts := ⟨fun _ => none,fun _ => none,fun _ => none,fun _ => none⟩

/-- Students whose headers are in the given row of the sheet, with a formula for the number of the
only one. -/
def formulaSheet (headerRow : ℕ) : Worksheet Empty Empty where
  name := "students"
  range := .ok ⟨headerRow,0,[[.string "reg_no",.string "name"],[.string "S1",.string "Ann"]]⟩
  formulas := .ok ⟨headerRow + 1,0,[["CONCAT(\"S\",1)"]]⟩

def formulaRow (error : Option RowError) : SourceRow where
  uploadIndex := 0
  dataset := .students
  rowNumber := 2
  naturalKey := .obj [("reg_no",.str "S1")]
  payload := .obj [("reg_no",.str "S1"),("name",.str "Ann")]
  existingPayload := none
  error := error

def formulaView (headerRow : ℕ) : SheetView noNumbers .default .addOnly (formulaSheet headerRow) where
  range := ⟨headerRow,0,[[.string "reg_no",.string "name"],[.string "S1",.string "Ann"]]⟩
  formulas := ⟨headerRow + 1,0,[["CONCAT(\"S\",1)"]]⟩
  headerCells := [.string "reg_no",.string "name"]
  body := [[.string "S1",.string "Ann"]]
  dataset := .students
  headers := ["reg_no","name"]
  hrange := rfl
  hformulas := rfl
  hrows := rfl
  hheaders := rfl
  hname := rfl
  hvalid := by decide

/-- With the headers in the second row of the sheet, the formula is accepted and the row misnumbered. -/
theorem shifted_sheet_accepted :
    parseXlsx noNumbers noTexts (.ok [formulaSheet 1]) .default .addOnly 0 = .ok [formulaRow none] ∧
      KeyFormula (formulaView 1) 0 ∧ ¬FormulasRefused (formulaView 1) [formulaRow none] := by
  refine ⟨rfl,⟨"reg_no",by decide,0,rfl,rfl⟩,fun h => ?_⟩
  have hnumber := (h 0 (formulaRow none) rfl).2
  revert hnumber
  decide

/-- With the headers in the first row, the formula is refused. -/
theorem unshifted_sheet_refused :
    ∃ sheets parts, (.ok [formulaSheet 0] : Except String _) = .ok sheets ∧
      [formulaRow (some (formulaInKeyCode,"formula in identity/key cell"))] = List.flatten parts ∧
      List.Forall₂ (fun sheet part => part = [] ∧ (∃ range, sheet.range = .ok range ∧ range.rows = []) ∨
        ∃ view : SheetView noNumbers .default .addOnly sheet, FormulasRefused view part ↔ Aligned view)
        sheets parts :=
  formulas_refused_iff noNumbers noTexts (.ok [formulaSheet 0]) .default .addOnly 0 _ rfl

end LatexCore.Imports
