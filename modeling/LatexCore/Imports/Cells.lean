import LatexCore.Imports.Formulas

/-! # Cells of accepted files

A header that is spelled as a column puts each cell under that column, trimmed and null
when empty. A row that passes its checks has its emails in lower case and the leader of
a Writer as a boolean; nothing else of a cell is changed, and what comes after reads the
payload.
-/
namespace LatexCore.Imports
open Core Foundation
open Institution (InstitutionError)

variable {F D : Type} {printing : Printing F D} {texts : Texts} {limits : ImportLimits} {mode : ImportMode}
variable {uploadIndex rowNumber : ℕ} {dataset : Dataset}

/-! ## Filling -/

theorem isObject_set {payload : Value} (hobject : payload.isObject = true) (name : String) (value : Value) :
    (payload.set name value).isObject = true := by
  cases payload with
  | obj fields => rw [Value.set]; split <;> rfl
  | _ => simp [Value.isObject,Value.asObj?] at hobject

theorem get?_set {payload : Value} (hobject : payload.isObject = true) (name : String) (value : Value)
    (key : String) : (payload.set name value).get? key = if key = name then some value else payload.get? key := by
  split
  · next hkey =>
    subst hkey
    cases payload with
    | obj fields => exact Value.get?_set_self fields key value
    | _ => simp [Value.isObject,Value.asObj?] at hobject
  · next hkey => exact Value.get?_set_of_ne hkey payload value

theorem fillPayload_ok {cells : List (String × String)} {payload filled : Value}
    (hobject : payload.isObject = true) (hnodup : (cells.map (·.1)).Nodup)
    (h : fillPayload dataset rowNumber limits payload cells = .ok filled) :
    filled.isObject = true ∧ (∀ cell ∈ cells, filled.get? cell.1 = some (cellValue cell.2)) ∧
      ∀ key, key ∉ cells.map (·.1) → filled.get? key = payload.get? key := by
  induction cells generalizing payload with
  | nil =>
    rw [fillPayload,pure_ok] at h
    subst h
    exact ⟨hobject,by simp,fun _ _ => rfl⟩
  | cons cell rest ih =>
    obtain ⟨header,value⟩ := cell
    rw [List.map_cons,List.nodup_cons] at hnodup
    simp only [fillPayload,bind_ok] at h
    obtain ⟨_,-,h⟩ := h
    obtain ⟨hfilled,hcells,hrest⟩ := ih (isObject_set hobject header (cellValue value)) hnodup.2 h
    refine ⟨hfilled,?_,?_⟩
    · intro cell hcell
      rcases List.mem_cons.mp hcell with rfl | hcell
      · rw [hrest header hnodup.1,get?_set hobject,if_pos rfl]
      · exact hcells cell hcell
    · intro key hkey
      rw [List.map_cons,List.mem_cons,not_or] at hkey
      rw [hrest key hkey.2,get?_set hobject,if_neg hkey.1]

/-! ## Checks -/

/-- The checks change the payload of a row without an error, and of one whose leader is refused. -/
def passed (error : Option RowError) : Bool :=
  (error.map (·.1)).all (· = "INVALID_BOOLEAN")

def leaderOf (payload : Value) : Bool :=
  ["true","1","yes"].contains (asciiLower ((textValue payload "is_leader").getD ""))

/-- What the checks of a row without an error leave under a key. -/
def normalised (dataset : Dataset) (payload : Value) (key : String) : Option Value :=
  if dataset.spec.emails.contains key then
    ((filledValue payload key).map (fun text => Value.str (asciiLower text))).or (payload.get? key)
  else if dataset = .paperTeamWriters ∧ key = "is_leader" then some (.bool (leaderOf payload))
  else payload.get? key

theorem emails_cases (dataset : Dataset) : dataset.spec.emails = [] ∨
    dataset.spec.emails = ["email"] ∧ dataset ≠ .paperTeamWriters := by
  cases dataset <;> simp [Dataset.spec]

theorem passed_none : passed none = true := rfl

theorem passed_email {field : String} :
    passed (some ("INVALID_EMAIL",field)) = false := by
  simp [passed]

theorem passed_of_checks {error : RowError} {payload : Value}
    (h : (requiredError mode dataset payload).or
      ((uuidError texts dataset payload).or (integerError texts dataset payload)) = some error) :
    passed (some error) = false := by
  have hcode : error.1 ∈ ["MISSING_VALUE","MALFORMED_UUID","INVALID_INTEGER"] := by
    rw [Option.or_eq_some_iff,Option.or_eq_some_iff] at h
    rcases h with h | ⟨-,h | ⟨-,h⟩⟩
    all_goals
      obtain ⟨field,-,rfl⟩ := Option.map_eq_some_iff.mp h
      simp
  have hne : error.1 ≠ "INVALID_BOOLEAN" := by
    rintro heq
    rw [heq] at hcode
    revert hcode
    decide
  simp [passed,hne]

theorem checkRow_get {filled payload : Value} {error formulaError : Option RowError}
    (hobject : filled.isObject = true) (hformula : formulaError.all (fun e => passed (some e) = false) = true)
    (h : checkRow texts mode dataset formulaError filled = (error,payload)) (key : String) :
    payload.get? key = if passed error then normalised dataset filled key else filled.get? key := by
  unfold checkRow at h
  split at h
  · next found hfound =>
    obtain ⟨rfl,rfl⟩ : some found = error ∧ filled = payload := by simpa using h
    have hnot : passed (some found) = false := by
      rw [Option.or_eq_some_iff] at hfound
      rcases hfound with hfound | ⟨-,hfound⟩
      · rw [hfound] at hformula
        simpa using hformula
      · exact passed_of_checks hfound
    rw [if_neg (by simp [hnot])]
  · rcases emails_cases dataset with hemails | ⟨hemails,hwriters⟩
    · rw [hemails] at h
      simp only [checkEmails,Option.isSome_none,Bool.false_eq_true,if_false] at h
      unfold checkLeader at h
      split at h
      · next hdataset =>
        obtain ⟨rfl,rfl⟩ := Prod.mk.inj h
        have hpassed : ∀ b : Bool, passed (if b = true then none
            else some ("INVALID_BOOLEAN","is_leader must be true or false")) = true := by
          intro b
          cases b <;> rfl
        rw [if_pos (hpassed _),get?_set hobject,normalised,hemails]
        simp [hdataset,leaderOf]
      · next hdataset =>
        obtain ⟨rfl,rfl⟩ := Prod.mk.inj h
        rw [if_pos passed_none,normalised,hemails]
        simp [hdataset]
    · rw [hemails] at h
      cases hfilled : filledValue filled "email" with
      | none =>
        simp only [checkEmails,hfilled,Option.isSome_none,Bool.false_eq_true,if_false,checkLeader,hwriters] at h
        obtain ⟨rfl,rfl⟩ := Prod.mk.inj h
        rw [if_pos passed_none,normalised,hemails]
        by_cases hkey : key = "email"
        · simp [hkey,hfilled]
        · simp [hkey,hwriters]
      | some value =>
        by_cases hvalid : validEmail value = true
        · simp only [checkEmails,hfilled,hvalid,if_true,Option.isSome_none,Bool.false_eq_true,if_false,checkLeader,
            hwriters] at h
          obtain ⟨rfl,rfl⟩ := Prod.mk.inj h
          rw [if_pos passed_none,get?_set hobject,normalised,hemails]
          by_cases hkey : key = "email"
          · simp [hkey,hfilled]
          · simp [hkey,hwriters]
        · simp only [checkEmails,hfilled,hvalid,Bool.false_eq_true,if_false,Option.isSome_some,if_true] at h
          obtain ⟨rfl,rfl⟩ := Prod.mk.inj h
          rw [if_neg (by simp [passed_email])]

theorem normalised_column {payload : Value} {key : String}
    (hfilled : ∀ key, (payload.get? key).isSome = true → key ∈ dataset.spec.columns)
    (h : (normalised dataset payload key).isSome = true) : key ∈ dataset.spec.columns := by
  unfold normalised at h
  split at h
  · next hemail =>
    have hcolumns : ∀ dataset : Dataset, ∀ key ∈ dataset.spec.emails, key ∈ dataset.spec.columns := by
      intro dataset
      cases dataset <;> decide
    exact hcolumns dataset key (by simpa using hemail)
  · split at h
    · next hleader =>
      rw [hleader.1,hleader.2]
      decide
    · exact hfilled key h

/-! ## Files -/

def keptCell (dataset : Dataset) (pass : Bool) (header value : String) : Value :=
  if pass ∧ header ∈ dataset.spec.emails ∧ trim value ≠ "" then .str (asciiLower (trim value))
  else if pass ∧ dataset = .paperTeamWriters ∧ header = "is_leader" then
    .bool (["true","1","yes"].contains (asciiLower (trim value)))
  else cellValue value

structure KeepsCells (dataset : Dataset) (headers record : List String) (row : SourceRow) : Prop where
  cell : ∀ column ∈ headers.zip record,
    row.payload.get? column.1 = some (keptCell dataset (passed row.error) column.1 column.2)
  column : ∀ key, (row.payload.get? key).isSome = true → key ∈ dataset.spec.columns
  key : row.naturalKey = naturalKeyOf dataset row.payload

theorem filledValue_cell {payload : Value} {header value : String}
    (h : payload.get? header = some (cellValue value)) :
    filledValue payload header = if trim value = "" then none else some (trim value) := by
  unfold filledValue textValue
  rw [h,Option.bind_some]
  unfold cellValue
  split
  · rfl
  · next hne => simp [Value.asStr?,hne]

theorem textValue_cell {payload : Value} {header value : String}
    (h : payload.get? header = some (cellValue value)) : (textValue payload header).getD "" = trim value := by
  unfold textValue
  rw [h,Option.bind_some]
  unfold cellValue
  split
  · next hempty => simp [Value.asStr?,hempty]
  · simp [Value.asStr?]

theorem normalised_cell {payload : Value} {header value : String}
    (h : payload.get? header = some (cellValue value)) :
    normalised dataset payload header = some (keptCell dataset true header value) := by
  unfold normalised keptCell
  by_cases hemail : header ∈ dataset.spec.emails
  · rw [if_pos (by simpa using hemail),filledValue_cell h,h]
    have hwriters : dataset ≠ .paperTeamWriters := by
      rintro rfl
      exact absurd hemail (by simp [Dataset.spec])
    by_cases hempty : trim value = ""
    · simp [hempty,hwriters]
    · simp [hempty,hemail]
  · rw [if_neg (by simpa using hemail)]
    by_cases hleader : dataset = .paperTeamWriters ∧ header = "is_leader"
    · rw [if_pos hleader,leaderOf,← hleader.2,textValue_cell h]
      rw [if_neg (fun hkept => hemail hkept.2.1),if_pos ⟨rfl,hleader.1,rfl⟩]
    · rw [if_neg hleader,h]
      simp [hemail,hleader]

theorem zip_fst_sublist (headers record : List String) :
    ((headers.zip record).map (·.1)).Sublist headers := by
  induction headers generalizing record with
  | nil => simp
  | cons header headers ih =>
    cases record with
    | nil => simp
    | cons value record => simpa using ih record

theorem sourceRow_keeps {headers record : List String} {formulaError : Option String} {row : SourceRow}
    (hvalid : validateHeaders dataset headers limits mode = .ok ())
    (htrimmed : ∀ header ∈ headers, trim header = header)
    (h : sourceRow texts dataset rowNumber headers record formulaError limits mode uploadIndex = .ok row) :
    KeepsCells dataset headers record row := by
  obtain ⟨filled,hfill,-,-,hchecked,hkey⟩ := sourceRow_ok h
  obtain ⟨hnodup,hcolumns,-⟩ := validateHeaders_ok hvalid
  have hheaders : headers.map trim = headers := List.map_congr_left htrimmed |>.trans (List.map_id' headers)
  rw [hheaders] at hnodup
  have hsub := zip_fst_sublist headers record
  have hempty : (Value.obj []).isObject = true := rfl
  obtain ⟨hobject,hcells,hrest⟩ := fillPayload_ok hempty (hnodup.sublist hsub) hfill
  have hformula : (formulaError.map (fun message => ("FORMULA_IN_KEY",message))).all
      (fun e => passed (some e) = false) = true := by
    cases formulaError <;> simp [passed]
  have hget := checkRow_get hobject hformula hchecked.symm
  have hfilled : ∀ key, (filled.get? key).isSome = true → key ∈ dataset.spec.columns := by
    intro key hsome
    by_cases hin : key ∈ (headers.zip record).map (·.1)
    · have hheader := hsub.subset hin
      have hcolumn := hcolumns key hheader
      rwa [htrimmed key hheader] at hcolumn
    · rw [hrest key hin] at hsome
      simp [Value.get?] at hsome
  refine ⟨?_,?_,hkey⟩
  · intro column hcolumn
    have hcell := hcells column hcolumn
    rw [hget column.1]
    cases hpass : passed row.error with
    | true => rw [if_pos rfl,normalised_cell hcell]
    | false =>
      rw [if_neg Bool.false_ne_true,hcell]
      simp [keptCell]
  · intro key hsome
    rw [hget key] at hsome
    split at hsome
    · exact normalised_column hfilled hsome
    · exact hfilled key hsome

theorem parseCsv_ok {filename : String} {target : Option String} {file : CsvFile} {rows : List SourceRow}
    (h : parseCsv texts filename target file limits mode uploadIndex = .ok rows) :
    ∃ headers dataset, file.headers = .ok headers ∧ validateHeaders dataset headers limits mode = .ok () ∧
      parseRecords texts dataset headers limits mode uploadIndex 0 file.records = .ok rows := by
  simp only [parseCsv,bind_ok,mapError_ok] at h
  obtain ⟨headers,hheaders,dataset,-,_,hvalid,hrows⟩ := h
  exact ⟨headers,dataset,hheaders,hvalid,hrows⟩

/-- Each data row is a source row that keeps its cells, where the headers are spelled as columns. -/
def RowsKept (dataset : Dataset) (headers : List String) (records : ℕ → List String → Prop)
    (rows : List SourceRow) : Prop :=
  (∀ header ∈ headers, trim header = header) → ∀ (index : ℕ) (row : SourceRow), rows[index]? = some row →
    ∃ record, records index record ∧ row.dataset = dataset ∧ KeepsCells dataset headers record row

/-- Every data row of an accepted file whose headers are spelled as their columns keeps its cells. -/
theorem cells_kept (printing : Printing F D) (texts : Texts) (limits : ImportLimits) (mode : ImportMode)
    (uploadIndex : ℕ) :
    (∀ filename target (file : CsvFile) rows,
      parseCsv texts filename target file limits mode uploadIndex = .ok rows →
      ∃ headers dataset, file.headers = .ok headers ∧ rows.length = file.records.length ∧
        RowsKept dataset headers (fun index record => file.records[index]? = some (.ok record)) rows) ∧
    ∀ workbook rows, parseXlsx printing texts workbook limits mode uploadIndex = .ok rows →
      ∃ sheets parts, workbook = .ok sheets ∧ rows = List.flatten parts ∧
        List.Forall₂ (fun sheet part => part = [] ∧ (∃ range, sheet.range = .ok range ∧ range.rows = []) ∨
          ∃ view : SheetView printing limits mode sheet, part.length = view.body.length ∧
            RowsKept view.dataset view.headers (fun index record => ∃ cells, view.body[index]? = some cells ∧
              cellStrings printing cells = .ok record) part) sheets parts := by
  constructor
  · intro filename target file rows h
    obtain ⟨headers,dataset,hheaders,hvalid,hrows⟩ := parseCsv_ok h
    obtain ⟨hlength,hget⟩ := parseRecords_get hrows
    refine ⟨headers,dataset,hheaders,hlength,fun htrimmed index row hindex => ?_⟩
    obtain ⟨record,hrecord,hsource⟩ := hget index row hindex
    obtain ⟨-,-,hdataset,-⟩ := sourceRow_ok hsource
    exact ⟨record,hrecord,hdataset,sourceRow_keeps hvalid htrimmed hsource⟩
  · intro workbook rows h
    obtain ⟨sheets,hworkbook,parts,hrows,hparts⟩ := parseXlsx_ok h
    refine ⟨sheets,parts,hworkbook,hrows,hparts.imp ?_⟩
    intro sheet part hpart
    rcases parseWorksheet_ok hpart with hempty | ⟨view,hview⟩
    · exact .inl hempty
    obtain ⟨hlength,hget⟩ := parseCells_get hview
    refine .inr ⟨view,hlength,fun htrimmed index row hindex => ?_⟩
    obtain ⟨cells,hcells,record,hrecord,hsource⟩ := hget index row hindex
    obtain ⟨-,-,hdataset,-⟩ := sourceRow_ok hsource
    exact ⟨record,⟨cells,hcells,hrecord⟩,hdataset,sourceRow_keeps view.hvalid htrimmed hsource⟩

/-! ## A file of students -/

def studentFile (header : String) : CsvFile where
  headers := .ok ["reg_no",header,"email"]
  records := [.ok ["S1","Ann ","Ann@Example.edu"]]

def studentRow (header : String) : SourceRow where
  uploadIndex := 0
  dataset := .students
  rowNumber := 2
  naturalKey := .obj [("reg_no",.str "S1")]
  payload := .obj [("reg_no",.str "S1"),(header,.str "Ann"),("email",.str "ann@example.edu")]
  existingPayload := none
  error := none

/-- The email of a row is stored in lower case, and a cell under a header with a blank is stored
under the header. -/
theorem cells_changed :
    parseCsv noTexts "students.csv" none (studentFile " name") .default .addOnly 0 = .ok [studentRow " name"] ∧
      (studentRow " name").payload.get? "email" ≠ some (cellValue "Ann@Example.edu") ∧
      (studentRow " name").payload.get? "name" = none := by
  refine ⟨rfl,?_,rfl⟩
  intro h
  simp [studentRow,Value.get?,cellValue,trim,isWhitespace] at h

theorem student_kept :
    ∃ headers dataset, (studentFile "name").headers = .ok headers ∧
      [studentRow "name"].length = (studentFile "name").records.length ∧
      RowsKept dataset headers (fun index record => (studentFile "name").records[index]? = some (.ok record))
        [studentRow "name"] :=
  (cells_kept noNumbers noTexts .default .addOnly 0).1 "students.csv" none (studentFile "name") _ rfl

end LatexCore.Imports
