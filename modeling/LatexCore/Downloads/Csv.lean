import LatexCore.Foundation.Delimited
import LatexCore.Foundation.Json
import LatexCore.Imports.Jobs

/-! # CSV downloads

The rejected rows of an import and the report of the reviews of a paper. Both are read back as
what they were written for, whatever commas, quotes and line breaks there are in it. Only in the
first no value is left to start like a formula.
-/
namespace LatexCore.Downloads
open Foundation Imports
open Csv (record Cell)

def csvField (value : List Char) : List Char := Csv.quote value

def fieldCell (value : List Char) : Cell := ⟨value,csvField value,Or.inl rfl⟩

def Plain (columns : List String) : Prop :=
  ∀ column ∈ columns, ∀ c ∈ column.toList, c ≠ '"' ∧ c ≠ ',' ∧ c ≠ '\n'

instance (columns : List String) : Decidable (Plain columns) :=
  inferInstanceAs (Decidable (∀ column ∈ columns, ∀ c ∈ column.toList, _))

def columnCells (columns : List String) (h : Plain columns) : List Cell :=
  columns.attach.map (fun column => ⟨column.1.toList,column.1.toList,Or.inr ⟨rfl,h column.1 column.2⟩⟩)

def body {ρ : Type} (columns : List String) (fields : ρ → List (List Char)) (rows : List ρ) : List Char :=
  record (columns.map String.toList) ++ '\n' :: rows.flatMap (fun row => record (fields row) ++ ['\n'])

theorem read_body {ρ : Type} {columns : List String} (hcolumns : Plain columns) (hne : columns ≠ [])
    (cells : ρ → List Cell) (hcells : ∀ row, cells row ≠ []) (rows : List ρ) :
    Csv.read (body columns (fun row => (cells row).map Cell.text) rows) =
      some (columns.map String.toList :: rows.map (fun row => (cells row).map Cell.value)) := by
  have hrows : ∀ row ∈ columnCells columns hcolumns :: rows.map cells, row ≠ [] := by
    simpa [columnCells,hne] using fun row _ => hcells row
  have hread := Csv.read_rows hrows
  simpa [columnCells,body,List.flatMap_map,Function.comp_def] using hread

/-! ## Rejected rows -/

def startsFormula (value : List Char) : Bool :=
  value.head?.any (fun c => c == '=' || c == '+' || c == '-' || c == '@')

def neutralized (value : List Char) : List Char := if startsFormula value then '\x27' :: value else value

def csvEscape (value : List Char) : List Char :=
  if (neutralized value).any (fun c => c == ',' || c == '"' || c == '\n' || c == '\r') then
    csvField (neutralized value)
  else neutralized value

theorem startsFormula_neutralized (value : List Char) : startsFormula (neutralized value) = false := by
  rw [neutralized]
  split
  · rfl
  · next h => exact Bool.eq_false_iff.mpr h

def escapedCell (value : List Char) : Cell where
  value := neutralized value
  text := csvEscape value
  written := by
    rw [csvEscape]
    split
    · exact Or.inl rfl
    · next h =>
      refine Or.inr ⟨rfl,fun c hc => ?_⟩
      have hplain := fun hbad => h (List.any_eq_true.mpr ⟨c,hc,hbad⟩)
      simp only [Bool.or_eq_true,beq_iff_eq] at hplain
      tauto

def errorColumns : List String :=
  ["source_table_or_sheet","row_number","natural_key","error_code","error_message"]

def errorFields (row : RowKey × ImportRow) : List (List Char) :=
  [csvEscape row.1.2.1.name.toList,Nat.toDigits 10 row.1.2.2,csvEscape (Json.print row.2.naturalKey),
    csvEscape (row.2.errorCode.getD "").toList,csvEscape (row.2.errorMessage.getD "").toList]

/-- The body of `errors.csv`. -/
def errorsCsv (rows : List (RowKey × ImportRow)) : List Char := body errorColumns errorFields rows

def errorValues (row : RowKey × ImportRow) : List (List Char) :=
  [neutralized row.1.2.1.name.toList,Nat.toDigits 10 row.1.2.2,neutralized (Json.print row.2.naturalKey),
    neutralized (row.2.errorCode.getD "").toList,neutralized (row.2.errorMessage.getD "").toList]

theorem isDigit_of_mem {n : ℕ} {c : Char} (h : c ∈ Nat.toDigits 10 n) : c.isDigit = true :=
  Nat.isDigit_of_mem_toDigits (by decide) (by decide) h

def numberCell (n : ℕ) : Cell where
  value := Nat.toDigits 10 n
  text := Nat.toDigits 10 n
  written := by
    refine Or.inr ⟨rfl,fun c hc => ?_⟩
    have hdigit := isDigit_of_mem hc
    refine ⟨?_,?_,?_⟩ <;> rintro rfl <;> cases hdigit

def errorCells (row : RowKey × ImportRow) : List Cell :=
  [escapedCell row.1.2.1.name.toList,numberCell row.1.2.2,escapedCell (Json.print row.2.naturalKey),
    escapedCell (row.2.errorCode.getD "").toList,escapedCell (row.2.errorMessage.getD "").toList]

theorem startsFormula_toDigits (n : ℕ) : startsFormula (Nat.toDigits 10 n) = false := by
  cases h : Nat.toDigits 10 n with
  | nil => rfl
  | cons c text =>
    have hdigit := isDigit_of_mem (h ▸ List.mem_cons_self : c ∈ Nat.toDigits 10 n)
    simp only [startsFormula,List.head?_cons,Option.any_some,Bool.or_eq_false_iff,beq_eq_false_iff_ne]
    refine ⟨⟨⟨?_,?_⟩,?_⟩,?_⟩ <;> rintro rfl <;> cases hdigit

theorem errors_csv_reads_back (rows : List (RowKey × ImportRow)) :
    Csv.read (errorsCsv rows) = some (errorColumns.map String.toList :: rows.map errorValues) ∧
      ∀ row ∈ rows, ∀ value ∈ errorValues row, startsFormula value = false := by
  constructor
  · exact read_body (by decide +kernel) (by decide) errorCells (fun _ => List.cons_ne_nil _ _) rows
  · intro row _
    simp [errorValues,startsFormula_neutralized,startsFormula_toDigits]

/-! ## Review reports -/

def text (value : Value) (key : String) : List Char := (((value.get? key).bind Value.asStr?).getD "").toList

/-- `value[key]` -/
def item (value : Value) (key : String) : Value := (value.get? key).getD .null

def reportColumns : List String :=
  ["round","thread_type","status","severity","category","assigned_writer","due_date","source_file",
    "source_context","pdf_page","initial_message","created_at","resolved_at"]

def initialMessage (thread : Value) : List Char :=
  (((item thread "messages").asArr?.bind List.head?).elim "" (fun message =>
    (item message "body").asStr?.getD "")).toList

def reportFields (thread : Value) : List (List Char) :=
  [Json.print (item thread "round_number"),text thread "thread_type",text thread "state",
    text thread "severity",text thread "category",text thread "assigned_writer_email",
    text thread "due_at",text (item thread "source_anchor") "path",
    text (item thread "source_anchor") "quoted_text",Json.print (item (item thread "pdf_anchor") "page"),
    initialMessage thread,text thread "created_at",text thread "resolved_at"]

/-- The body of `review-report.csv`. -/
def reportCsv (threads : List Value) : List Char :=
  body reportColumns (fun thread => (reportFields thread).map csvField) threads

theorem report_csv_reads_back (threads : List Value) :
    Csv.read (reportCsv threads) = some (reportColumns.map String.toList :: threads.map reportFields) := by
  have hcolumns : Plain reportColumns := by decide +kernel
  have hread := read_body hcolumns (by decide) (fun thread => (reportFields thread).map fieldCell)
    (fun _ => List.cons_ne_nil _ _) threads
  simpa [reportCsv,List.map_map,Function.comp_def,fieldCell] using hread

end LatexCore.Downloads
