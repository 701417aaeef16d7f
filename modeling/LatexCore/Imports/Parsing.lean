import LatexCore.Core.Scan
import LatexCore.Imports.Jobs

/-! # Uploaded files as source rows

A CSV file holds the rows of one dataset and a workbook has a worksheet for each. The
headers are checked against the columns of the dataset, and each row becomes a payload
by header with the first error that its cells give. The libraries that read the two
formats deliver headers and cells; formulas come in a range of their own.
-/
namespace LatexCore.Imports
open Core Foundation
open Institution (InstitutionError)

structure ImportLimits where
  maxUploadBytes : ℕ
  maxWorksheets : ℕ
  maxRowsPerSheet : ℕ
  maxColumns : ℕ
  maxCellCharacters : ℕ

def ImportLimits.default : ImportLimits := ⟨32 * 1024 * 1024,20,100000,128,16384⟩

def requiredOf (mode : ImportMode) (dataset : Dataset) : List String :=
  if mode = .updateOnly ∨ mode = .deleteOnly then dataset.spec.keys else dataset.spec.required

/-! ## Headers -/

def checkColumns (dataset : Dataset) (unique : List String) : List String → Except InstitutionError Unit
  | [] => pure ()
  | value :: rest => do
    ensure (value ≠ "" && !unique.contains value)
      (.invalidInput (dataset.name ++ ": empty or duplicate column " ++ value))
    ensure (dataset.spec.columns.contains value)
      (.invalidInput (dataset.name ++ ": unknown column " ++ value))
    checkColumns dataset (value :: unique) rest

def checkRequired (dataset : Dataset) (values : List String) : List String → Except InstitutionError Unit
  | [] => pure ()
  | required :: rest => do
    ensure (values.contains required)
      (.invalidInput (dataset.name ++ ": missing required column " ++ required))
    checkRequired dataset values rest

def validateHeaders (dataset : Dataset) (headers : List String) (limits : ImportLimits) (mode : ImportMode) :
    Except InstitutionError Unit := do
  let values := headers.map trim
  ensure (values ≠ [] && values.length ≤ limits.maxColumns)
    (.invalidInput (dataset.name ++ ": invalid column count"))
  checkColumns dataset [] values
  checkRequired dataset values (requiredOf mode dataset)

/-! ## Rows -/

def textValue (payload : Value) (field : String) : Option String := (payload.get? field).bind Value.asStr?

/-- The text of a cell that is not empty. -/
def filledValue (payload : Value) (field : String) : Option String :=
  (textValue payload field).filter (· ≠ "")

def asciiLower (text : String) : String := String.ofList (text.toList.map Char.toLower)

def cellValue (value : String) : Value := if trim value = "" then .null else .str (trim value)

def fillPayload (dataset : Dataset) (rowNumber : ℕ) (limits : ImportLimits) (payload : Value) :
    List (String × String) → Except InstitutionError Value
  | [] => pure payload
  | (header,value) :: rest => do
    ensure ((trim value).length ≤ limits.maxCellCharacters)
      (.invalidInput (dataset.name ++ " row " ++ toString rowNumber ++ ": cell character limit exceeded"))
    fillPayload dataset rowNumber limits (payload.set header (cellValue value)) rest

abbrev RowError := String × String

def requiredError (mode : ImportMode) (dataset : Dataset) (payload : Value) : Option RowError :=
  ((requiredOf mode dataset).find? (fun field => (filledValue payload field).isNone)).map
    (fun field => ("MISSING_VALUE","required value " ++ field ++ " is empty"))

def uuidError (texts : Texts) (dataset : Dataset) (payload : Value) : Option RowError :=
  (dataset.spec.uuids.find? (fun field =>
    (filledValue payload field).any (fun value => (texts.parseUuid value).isNone))).map
    (fun field => ("MALFORMED_UUID",field ++ " is not a UUID"))

def integerOutside (texts : Texts) (field value : String) : Bool :=
  match texts.parseI32 value with
  | none => true
  | some number => number < 0 || (field == "writer_order" && number == 0) || (field == "id" && number == 0)

def integerError (texts : Texts) (dataset : Dataset) (payload : Value) : Option RowError :=
  (dataset.spec.integers.find? (fun field => (filledValue payload field).any (integerOutside texts field))).map
    (fun field => ("INVALID_INTEGER",field ++ " is outside its valid range"))

def validEmail (value : String) : Bool :=
  value.utf8ByteSize ≤ 320 && value == trim value && !value.toList.any isWhitespace &&
    (value.toList.splitOn '@').length == 2 &&
    (splitOnce '@' value.toList).any (fun parts => parts.1 ≠ [] && parts.2.contains '.' &&
      parts.2.head? ≠ some '.' && parts.2.getLast? ≠ some '.')

/-- The emails are checked and set to lower case, up to the first that is not one. -/
def checkEmails (payload : Value) : List String → Option RowError × Value
  | [] => (none,payload)
  | field :: rest =>
    match filledValue payload field with
    | none => checkEmails payload rest
    | some value =>
      if validEmail value then checkEmails (payload.set field (.str (asciiLower value))) rest
      else (some ("INVALID_EMAIL",field ++ " is not a normalized email address"),payload)

def checkLeader (dataset : Dataset) (payload : Value) : Option RowError × Value :=
  if dataset = .paperTeamWriters then
    let leader := asciiLower ((textValue payload "is_leader").getD "")
    (if ["true","false","1","0","yes","no"].contains leader then none
      else some ("INVALID_BOOLEAN","is_leader must be true or false"),
      payload.set "is_leader" (.bool (["true","1","yes"].contains leader)))
  else (none,payload)

def checkRow (texts : Texts) (mode : ImportMode) (dataset : Dataset) (formulaError : Option RowError)
    (payload : Value) : Option RowError × Value :=
  match formulaError.or ((requiredError mode dataset payload).or
    ((uuidError texts dataset payload).or (integerError texts dataset payload))) with
  | some error => (some error,payload)
  | none =>
    let (error,payload) := checkEmails payload dataset.spec.emails
    if error.isSome then (error,payload) else checkLeader dataset payload

def naturalKeyOf (dataset : Dataset) (payload : Value) : Value :=
  .obj (dataset.spec.keys.map (fun key => (key,(payload.get? key).getD .null)))

def sourceRow (texts : Texts) (dataset : Dataset) (rowNumber : ℕ) (headers record : List String)
    (formulaError : Option String) (limits : ImportLimits) (mode : ImportMode) (uploadIndex : ℕ) :
    Except InstitutionError SourceRow := do
  let filled ← fillPayload dataset rowNumber limits (.obj []) (headers.zip record)
  let (error,payload) := checkRow texts mode dataset
    (formulaError.map (fun message => ("FORMULA_IN_KEY",message))) filled
  pure {
    uploadIndex := uploadIndex
    dataset := dataset
    rowNumber := rowNumber
    naturalKey := naturalKeyOf dataset payload
    payload := payload
    existingPayload := none
    error := error }

/-! ## CSV files -/

/-- What the CSV library delivers of a file. -/
structure CsvFile where
  headers : Except String (List String)
  records : List (Except String (List String))

def normalizedStem (filename : String) : List Char :=
  (((rsplitOnce '.' filename.toList).map (·.1)).getD filename.toList).map
    (fun c => if c.isAlphanum then c.toLower else '_')

def namedIn (normalized : List Char) (dataset : Dataset) : Bool :=
  (stripPrefix (dataset.name.toList ++ ['_']) normalized).isSome ||
    (stripSuffix ('_' :: dataset.name.toList) normalized).isSome ||
    (splitAtText ('_' :: dataset.name.toList ++ ['_']) normalized).isSome

/-- `Iterator::max_by_key`, which keeps the last of several greatest names. -/
def longestName : List Dataset → Option Dataset
  | [] => none
  | dataset :: rest =>
    match longestName rest with
    | none => some dataset
    | some best => if best.name.length < dataset.name.length then some dataset else some best

def inferCsvTable (filename : String) : Option Dataset :=
  let normalized := normalizedStem filename
  (institutionTables.find? (fun dataset => dataset.name.toList = normalized)).or
    (longestName (institutionTables.filter (namedIn normalized)))

def inferCsvTableFromHeaders (headers : List String) (mode : ImportMode) : Except InstitutionError Dataset :=
  match institutionTables.filter (fun dataset =>
    (validateHeaders dataset headers .default mode).toOption.isSome) with
  | [dataset] => pure dataset
  | [] => .error (.invalidInput "CSV columns do not match a supported dataset; check the header row")
  | values => .error (.invalidInput
      ("What data is this? Matching datasets: " ++ ", ".intercalate (values.map Dataset.name)))

def csvTable (filename : String) (target : Option String) (headers : List String) (mode : ImportMode) :
    Except InstitutionError Dataset :=
  match target with
  | some name => require (institutionTables.find? (fun dataset => dataset.name = name))
      (.invalidInput "unknown CSV target table")
  | none =>
    match inferCsvTable filename with
    | some dataset => pure dataset
    | none => inferCsvTableFromHeaders headers mode

def parseRecords (texts : Texts) (dataset : Dataset) (headers : List String) (limits : ImportLimits)
    (mode : ImportMode) (uploadIndex : ℕ) :
    ℕ → List (Except String (List String)) → Except InstitutionError (List SourceRow)
  | _,[] => pure []
  | index,result :: rest => do
    ensure (index < limits.maxRowsPerSheet) (.invalidInput "CSV row limit exceeded")
    let record ← result.mapError (fun error => .invalidInput ("malformed CSV row: " ++ error))
    let row ← sourceRow texts dataset (index + 2) headers record none limits mode uploadIndex
    let later ← parseRecords texts dataset headers limits mode uploadIndex (index + 1) rest
    pure (row :: later)

def parseCsv (texts : Texts) (filename : String) (target : Option String) (file : CsvFile)
    (limits : ImportLimits) (mode : ImportMode) (uploadIndex : ℕ) :
    Except InstitutionError (List SourceRow) := do
  let headers ← file.headers.mapError (fun error => .invalidInput ("malformed CSV header: " ++ error))
  let dataset ← csvTable filename target headers mode
  validateHeaders dataset headers limits mode
  parseRecords texts dataset headers limits mode uploadIndex 0 file.records

/-! ## Workbooks -/

/-- A cell of a worksheet, with floating-point numbers and dates of the given types. -/
inductive Data (F D : Type)
  | empty
  | string (value : String)
  | dateTimeIso (value : String)
  | durationIso (value : String)
  | float (value : F)
  | int (value : ℤ)
  | bool (value : Bool)
  | error (error : String)
  | dateTime (value : D)

/-- How numbers and dates are printed. -/
structure Printing (F D : Type) where
  isWhole : F → Bool
  printWhole : F → String
  printFloat : F → String
  printDate : D → String

/-- A range of cells with its place in the sheet. -/
structure Range (α : Type) where
  startRow : ℕ
  startColumn : ℕ
  rows : List (List α)

/-- `Range::get_value`, by coordinates of the sheet. -/
def Range.getValue {α : Type} (range : Range α) (row column : ℕ) : Option α :=
  if range.startRow ≤ row ∧ range.startColumn ≤ column then
    range.rows[row - range.startRow]? >>= (·[column - range.startColumn]?)
  else none

structure Worksheet (F D : Type) where
  name : String
  range : Except String (Range (Data F D))
  formulas : Except String (Range String)

variable {F D : Type} (printing : Printing F D)

def cellString (cell : Data F D) : Except InstitutionError String :=
  match cell with
  | .empty => pure ""
  | .string value | .dateTimeIso value | .durationIso value => pure value
  | .float value => pure (if printing.isWhole value then printing.printWhole value else printing.printFloat value)
  | .int value => pure (toString value)
  | .bool value => pure (toString value)
  | .error error => .error (.invalidInput ("XLSX cell error: " ++ error))
  | .dateTime value => pure (printing.printDate value)

def cellStrings : List (Data F D) → Except InstitutionError (List String)
  | [] => pure []
  | cell :: rest => do
    let value ← cellString printing cell
    let later ← cellStrings rest
    pure (value :: later)

def keyIndexes (dataset : Dataset) (headers : List String) : List ℕ :=
  dataset.spec.keys.filterMap (fun key => headers.findIdx? (· == key))

def formulaInKey (formulas : Range String) (keys : List ℕ) (index : ℕ) : Bool :=
  keys.any (fun column => (formulas.getValue (index + 1) column).any (· ≠ ""))

def parseCells (texts : Texts) (dataset : Dataset) (headers : List String) (formulas : Range String)
    (limits : ImportLimits) (mode : ImportMode) (uploadIndex : ℕ) :
    ℕ → List (List (Data F D)) → Except InstitutionError (List SourceRow)
  | _,[] => pure []
  | index,cells :: rest => do
    let record ← cellStrings printing cells
    let formulaError := if formulaInKey formulas (keyIndexes dataset headers) index then
      some "formula in identity/key cell" else none
    let row ← sourceRow texts dataset (index + 2) headers record formulaError limits mode uploadIndex
    let later ← parseCells texts dataset headers formulas limits mode uploadIndex (index + 1) rest
    pure (row :: later)

def Range.width {α : Type} (range : Range α) : ℕ := (range.rows.head?.map List.length).getD 0

def parseWorksheet (texts : Texts) (limits : ImportLimits) (mode : ImportMode) (uploadIndex : ℕ)
    (sheet : Worksheet F D) : Except InstitutionError (List SourceRow) := do
  let range ← sheet.range.mapError
    (fun error => .invalidInput ("malformed worksheet " ++ sheet.name ++ ": " ++ error))
  match range.rows with
  | [] => pure []
  | headerCells :: body =>
    let dataset ← require (institutionTables.find? (fun dataset => dataset.name = sheet.name))
      (.invalidInput ("unknown non-empty worksheet: " ++ sheet.name))
    ensure (body.length ≤ limits.maxRowsPerSheet && range.width ≤ limits.maxColumns)
      (.invalidInput ("worksheet " ++ sheet.name ++ " dimensions exceed configured limits"))
    let formulas ← sheet.formulas.mapError
      (fun error => .invalidInput ("invalid formulas in worksheet " ++ sheet.name ++ ": " ++ error))
    let headers ← cellStrings printing headerCells
    validateHeaders dataset headers limits mode
    parseCells printing texts dataset headers formulas limits mode uploadIndex 0 body

def parseWorksheets (texts : Texts) (limits : ImportLimits) (mode : ImportMode) (uploadIndex : ℕ) :
    List (Worksheet F D) → Except InstitutionError (List SourceRow)
  | [] => pure []
  | sheet :: rest => do
    let rows ← parseWorksheet printing texts limits mode uploadIndex sheet
    let later ← parseWorksheets texts limits mode uploadIndex rest
    pure (rows ++ later)

def parseXlsx (texts : Texts) (workbook : Except String (List (Worksheet F D))) (limits : ImportLimits)
    (mode : ImportMode) (uploadIndex : ℕ) : Except InstitutionError (List SourceRow) := do
  let sheets ← workbook.mapError (fun error => .invalidInput ("malformed XLSX workbook: " ++ error))
  ensure (sheets.length ≤ limits.maxWorksheets) (.invalidInput "worksheet limit exceeded")
  let output ← parseWorksheets printing texts limits mode uploadIndex sheets
  ensure (output ≠ []) (.invalidInput "workbook has no recognized data rows")
  pure output

/-! ## Accepted headers -/

theorem checkColumns_ok {dataset : Dataset} {unique values : List String}
    (h : checkColumns dataset unique values = .ok ()) :
    (∀ value ∈ values, value ∉ unique ∧ value ∈ dataset.spec.columns) ∧ values.Nodup := by
  induction values generalizing unique with
  | nil => simp
  | cons value rest ih =>
    simp only [checkColumns,bind_ok,ensure_ok,Bool.and_eq_true,Bool.not_eq_true',List.contains_eq_mem,
      decide_eq_true_eq,decide_eq_false_iff_not] at h
    obtain ⟨-,⟨-,hnew⟩,-,hcolumn,hrest⟩ := h
    obtain ⟨hall,hnodup⟩ := ih hrest
    refine ⟨?_,List.nodup_cons.mpr ⟨fun hmem => (hall value hmem).1 List.mem_cons_self,hnodup⟩⟩
    intro other hother
    rcases List.mem_cons.mp hother with rfl | hother
    · exact ⟨hnew,hcolumn⟩
    · exact ⟨fun hmem => (hall other hother).1 (List.mem_cons_of_mem _ hmem),(hall other hother).2⟩

theorem checkRequired_ok {dataset : Dataset} {values required : List String}
    (h : checkRequired dataset values required = .ok ()) : ∀ column ∈ required, column ∈ values := by
  induction required with
  | nil => simp
  | cons column rest ih =>
    simp only [checkRequired,bind_ok,ensure_ok,List.contains_eq_mem,decide_eq_true_eq] at h
    obtain ⟨-,hcolumn,hrest⟩ := h
    exact List.forall_mem_cons.mpr ⟨hcolumn,ih hrest⟩

theorem validateHeaders_ok {dataset : Dataset} {headers : List String} {limits : ImportLimits}
    {mode : ImportMode} (h : validateHeaders dataset headers limits mode = .ok ()) :
    (headers.map trim).Nodup ∧ (∀ header ∈ headers, trim header ∈ dataset.spec.columns) ∧
      ∀ column ∈ requiredOf mode dataset, column ∈ headers.map trim := by
  simp only [validateHeaders,bind_ok] at h
  obtain ⟨_,-,_,hcolumns,hrequired⟩ := h
  obtain ⟨hall,hnodup⟩ := checkColumns_ok hcolumns
  exact ⟨hnodup,fun header hheader => (hall _ (List.mem_map_of_mem hheader)).2,checkRequired_ok hrequired⟩

/-! ## The rows of a file -/

section Rows
variable {texts : Texts} {dataset : Dataset} {headers record : List String} {formulaError : Option String}
variable {limits : ImportLimits} {mode : ImportMode} {uploadIndex rowNumber start : ℕ} {rows : List SourceRow}
variable {printing}

theorem sourceRow_ok {row : SourceRow}
    (h : sourceRow texts dataset rowNumber headers record formulaError limits mode uploadIndex = .ok row) :
    ∃ filled, fillPayload dataset rowNumber limits (.obj []) (headers.zip record) = .ok filled ∧
      row.dataset = dataset ∧ row.rowNumber = rowNumber ∧
      (row.error,row.payload) = checkRow texts mode dataset
        (formulaError.map (fun message => ("FORMULA_IN_KEY",message))) filled ∧
      row.naturalKey = naturalKeyOf dataset row.payload := by
  simp only [sourceRow,bind_ok,pure_ok] at h
  obtain ⟨filled,hfilled,rfl⟩ := h
  exact ⟨filled,hfilled,rfl,rfl,rfl,rfl⟩

theorem parseRecords_get {records : List (Except String (List String))}
    (h : parseRecords texts dataset headers limits mode uploadIndex start records = .ok rows) :
    rows.length = records.length ∧ ∀ i row, rows[i]? = some row → ∃ record, records[i]? = some (.ok record) ∧
      sourceRow texts dataset (start + i + 2) headers record none limits mode uploadIndex = .ok row := by
  induction records generalizing start rows with
  | nil =>
    rw [parseRecords,pure_ok] at h
    subst h
    simp
  | cons result rest ih =>
    simp only [parseRecords,bind_ok,mapError_ok,pure_ok] at h
    obtain ⟨-,-,record,hrecord,row,hrow,later,hlater,rfl⟩ := h
    obtain ⟨hlength,hget⟩ := ih hlater
    refine ⟨by simp [hlength],?_⟩
    intro i other hother
    cases i with
    | zero =>
      obtain rfl : row = other := by simpa using hother
      exact ⟨record,by simp [hrecord],by simpa using hrow⟩
    | succ i =>
      obtain ⟨record',hrecord',hrow'⟩ := hget i other (by simpa using hother)
      rw [Nat.add_assoc start,Nat.add_comm 1 i] at hrow'
      exact ⟨record',by simpa using hrecord',hrow'⟩

/-- What a row of a worksheet is made of. -/
def SheetRow (printing : Printing F D) (texts : Texts) (dataset : Dataset) (headers : List String)
    (formulas : Range String) (limits : ImportLimits) (mode : ImportMode) (uploadIndex index : ℕ)
    (cells : List (Data F D)) (row : SourceRow) : Prop :=
  ∃ record, cellStrings printing cells = .ok record ∧
    sourceRow texts dataset (index + 2) headers record
      (if formulaInKey formulas (keyIndexes dataset headers) index then
        some "formula in identity/key cell" else none) limits mode uploadIndex = .ok row

theorem parseCells_get {formulas : Range String} {body : List (List (Data F D))}
    (h : parseCells printing texts dataset headers formulas limits mode uploadIndex start body = .ok rows) :
    rows.length = body.length ∧ ∀ i row, rows[i]? = some row → ∃ cells, body[i]? = some cells ∧
      SheetRow printing texts dataset headers formulas limits mode uploadIndex (start + i) cells row := by
  induction body generalizing start rows with
  | nil =>
    rw [parseCells,pure_ok] at h
    subst h
    simp
  | cons cells rest ih =>
    simp only [parseCells,bind_ok,pure_ok] at h
    obtain ⟨record,hrecord,row,hrow,later,hlater,rfl⟩ := h
    obtain ⟨hlength,hget⟩ := ih hlater
    refine ⟨by simp [hlength],?_⟩
    intro i other hother
    cases i with
    | zero =>
      obtain rfl : row = other := by simpa using hother
      exact ⟨cells,by simp,record,hrecord,by simpa using hrow⟩
    | succ i =>
      obtain ⟨cells',hcells',hrow'⟩ := hget i other (by simpa using hother)
      rw [Nat.add_assoc start,Nat.add_comm 1 i] at hrow'
      exact ⟨cells',by simpa using hcells',hrow'⟩

/-- A worksheet with cells, as the parser takes it apart. -/
structure SheetView (printing : Printing F D) (limits : ImportLimits) (mode : ImportMode)
    (sheet : Worksheet F D) where
  range : Range (Data F D)
  formulas : Range String
  headerCells : List (Data F D)
  body : List (List (Data F D))
  dataset : Dataset
  headers : List String
  hrange : sheet.range = .ok range
  hformulas : sheet.formulas = .ok formulas
  hrows : range.rows = headerCells :: body
  hheaders : cellStrings printing headerCells = .ok headers
  hname : dataset.name = sheet.name
  hvalid : validateHeaders dataset headers limits mode = .ok ()

theorem parseWorksheet_ok {sheet : Worksheet F D}
    (h : parseWorksheet printing texts limits mode uploadIndex sheet = .ok rows) :
    rows = [] ∧ (∃ range, sheet.range = .ok range ∧ range.rows = []) ∨
      ∃ view : SheetView printing limits mode sheet,
        parseCells printing texts view.dataset view.headers view.formulas limits mode uploadIndex 0 view.body =
          .ok rows := by
  simp only [parseWorksheet,bind_ok,mapError_ok] at h
  obtain ⟨range,hrange,h⟩ := h
  split at h
  · next hempty =>
    rw [pure_ok] at h
    exact .inl ⟨h.symm,range,hrange,hempty⟩
  · next headerCells body hrows =>
    simp only [bind_ok,require_ok,mapError_ok] at h
    obtain ⟨dataset,hdataset,-,-,formulas,hformulas,headers,hheaders,_,hvalid,hrows'⟩ := h
    have hname : dataset.name = sheet.name := by simpa using List.find?_some hdataset
    exact .inr ⟨⟨range,formulas,headerCells,body,dataset,headers,hrange,hformulas,hrows,hheaders,hname,hvalid⟩,
      hrows'⟩

theorem parseWorksheets_ok {sheets : List (Worksheet F D)}
    (h : parseWorksheets printing texts limits mode uploadIndex sheets = .ok rows) :
    ∃ parts : List (List SourceRow), rows = parts.flatten ∧
      List.Forall₂ (fun sheet part => parseWorksheet printing texts limits mode uploadIndex sheet = .ok part)
        sheets parts := by
  induction sheets generalizing rows with
  | nil =>
    rw [parseWorksheets,pure_ok] at h
    exact ⟨[],h.symm,.nil⟩
  | cons sheet rest ih =>
    simp only [parseWorksheets,bind_ok,pure_ok] at h
    obtain ⟨part,hpart,later,hlater,rfl⟩ := h
    obtain ⟨parts,rfl,hparts⟩ := ih hlater
    exact ⟨part :: parts,rfl,.cons hpart hparts⟩

theorem parseXlsx_ok {workbook : Except String (List (Worksheet F D))}
    (h : parseXlsx printing texts workbook limits mode uploadIndex = .ok rows) :
    ∃ sheets, workbook = .ok sheets ∧ ∃ parts : List (List SourceRow), rows = parts.flatten ∧
      List.Forall₂ (fun sheet part => parseWorksheet printing texts limits mode uploadIndex sheet = .ok part)
        sheets parts := by
  simp only [parseXlsx,bind_ok,mapError_ok,pure_ok] at h
  obtain ⟨sheets,hsheets,-,-,output,houtput,-,-,rfl⟩ := h
  exact ⟨sheets,hsheets,parseWorksheets_ok houtput⟩

end Rows

end LatexCore.Imports
