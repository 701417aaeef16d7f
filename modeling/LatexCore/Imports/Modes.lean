import LatexCore.Imports.Lines

/-! # Updates and deletions

A file for updates or deletions needs the key columns of its dataset only. The checks of
a Writer row do not know that: the leader is read as a boolean and the order compared
within the team whether the file has these columns or not, and a deletion is checked in
all its cells, its references and its team. An upload whose keys are distinct and present
is judged by its keys alone exactly if these checks have nothing to find.
-/
namespace LatexCore.Imports
open Core Foundation

/-! ## What an upload should be judged by -/

def Blames (error : RowError) (column : String) : Prop :=
  error = ("MISSING_VALUE","required value " ++ column ++ " is empty") ∨
  error = ("MALFORMED_UUID",column ++ " is not a UUID") ∨
  error = ("INVALID_INTEGER",column ++ " is outside its valid range") ∨
  error = ("INVALID_EMAIL",column ++ " is not a normalized email address") ∨
  error.1 = "INVALID_BOOLEAN" ∧ column = "is_leader" ∨
  error.1 = "DUPLICATE_WRITER_ORDER" ∧ column = "writer_order"

def Blameless (mode : ImportMode) (lines : List Line) (rows : List SourceRow) : Prop :=
  ∀ (index : ℕ) (line : Line) (row : SourceRow) (error : RowError) (column : String),
    lines[index]? = some line → (validateCrossRows rows)[index]? = some row → row.error = some error →
    Blames error column → line.Has column ∧ (mode = .deleteOnly → column ∈ line.dataset.spec.keys)

def verdict (dependents : Dependents) (line : Line) : Option String :=
  if line.formulaError.isSome then some formulaInKeyCode
  else if dependenciesOf dependents line.dataset (naturalKeyOf line.dataset line.cells) ≠ [] then
    some "DELETE_BLOCKED_DEPENDENCY"
  else none

def JudgedByKey (tables : Tables) (dependents : Dependents) (lines : List Line) (rows : List SourceRow) : Prop :=
  ∀ (index : ℕ) (line : Line) (row : SourceRow), lines[index]? = some line →
    (validateRows tables dependents .deleteOnly rows)[index]? = some row → errorCode row = verdict dependents line

def ModeAware (tables : Tables) (dependents : Dependents) (mode : ImportMode) (lines : List Line)
    (rows : List SourceRow) : Prop :=
  Blameless mode lines rows ∧ (mode = .deleteOnly → JudgedByKey tables dependents lines rows)

/-! ## When it is -/

def Line.Writes (texts : Texts) (line : Line) : Prop :=
  line.dataset = .paperTeamWriters ∧ line.formulaError = none ∧ line.Valid texts

structure UpdateClean (texts : Texts) (lines : List Line) : Prop where
  leader : ∀ line ∈ lines, line.dataset = .paperTeamWriters → line.formulaError = none →
    (∀ value, filledValue line.cells "writer_order" = some value →
      integerOutside texts "writer_order" value = false) → line.Has "is_leader"
  order : lines.Pairwise (fun line other => line.Writes texts → other.Writes texts → line.pair = other.pair →
    other.Has "writer_order")

def Line.writer (line : Line) : Bool := line.dataset = .paperTeamWriters && line.formulaError.isNone

structure DeleteClean (texts : Texts) (tables : Tables) (lines : List Line) : Prop where
  cells : ∀ line ∈ lines, line.formulaError = none → line.Valid texts
  orders : lines.Pairwise (fun line other => line.writer = true → other.writer = true → line.pair ≠ other.pair)
  writers : ∀ line ∈ lines, line.dataset = .paperTeams → line.formulaError = none →
    (∃ other ∈ lines, other.dataset = .paperTeamWriters) →
    ∃ other ∈ lines, other.writer = true ∧ other.pair.1 = line.pair.1
  leaders : ∀ line ∈ lines, line.dataset = .paperTeams → line.formulaError = none →
    lines.countP (fun other => other.writer && other.leads && other.pair.1 == line.pair.1) ≤ 1
  references : ∀ line ∈ lines, line.formulaError = none → ∀ reference ∈ checkedReferences line.dataset, ∀ value,
    filledValue line.cells reference.1 = some value → ((tables reference.2).get? [value]).isSome = true ∨
      ∃ other ∈ lines, other.formulaError = none ∧ other.dataset = reference.2 ∧ some value ∈ other.key

/-! ## Keys that are present -/

theorem decodeAll_id {α : Type} {xs : List (Option α)} (h : (decodeAll id xs).isSome = true) :
    ∀ x ∈ xs, x.isSome = true := by
  induction xs with
  | nil => simp
  | cons x rest ih =>
    unfold decodeAll at h
    split at h
    · next b bs hfirst hrest =>
      exact List.forall_mem_cons.mpr ⟨by simpa using congrArg Option.isSome hfirst,ih (by simp [hrest])⟩
    · exact absurd h Bool.false_ne_true

theorem cells_filled {line : Line} {column value : String} (h : textValue line.cells column = some value) :
    value ≠ "" := by
  have hfold : ∀ (cells : List (String × String)) (payload : Value), payload.isObject = true →
      (∀ column value, textValue payload column = some value → value ≠ "") → ∀ column value,
      textValue (cells.foldl (fun payload cell => payload.set cell.1 (cellValue cell.2)) payload) column =
        some value → value ≠ "" := by
    intro cells
    induction cells with
    | nil => exact fun _ _ hpayload => hpayload
    | cons cell rest ih =>
      intro payload hobject hpayload
      refine ih _ (isObject_set hobject _ _) ?_
      intro column value hvalue
      rw [textValue,get?_set hobject] at hvalue
      split at hvalue
      · unfold cellValue at hvalue
        split at hvalue
        · simp [Value.asStr?] at hvalue
        · next hne =>
          obtain rfl : trim cell.2 = value := by simpa [Value.asStr?] using hvalue
          exact hne
      · exact hpayload column value hvalue
  exact hfold _ _ rfl (by simp [textValue,Value.get?]) column value h

variable {texts : Texts} {limits : ImportLimits} {mode : ImportMode} {line : Line} {row : SourceRow}
variable {tables : Tables} {dependents : Dependents} {lines : List Line} {rows : List SourceRow} {index : ℕ}

theorem requiredError_present (view : View texts mode line row)
    (hmode : mode = .updateOnly ∨ mode = .deleteOnly) (hpresent : (existingRecord tables row).isSome = true) :
    requiredError mode line.dataset line.cells = none := by
  rw [requiredError,Option.map_eq_none_iff,List.find?_eq_none]
  intro column hcolumn
  rw [requiredOf,if_pos hmode] at hcolumn
  have hdecoded : (decodeAll id (keyToken row)).isSome = true := by
    cases hkey : decodeAll id (keyToken row) with
    | none => simp [existingRecord,hkey] at hpresent
    | some key => rfl
  rw [view.keyToken_eq,Line.key] at hdecoded
  obtain ⟨value,hvalue⟩ := Option.isSome_iff_exists.mp
    (decodeAll_id hdecoded _ (List.mem_map_of_mem (f := textValue line.cells) hcolumn))
  simp [filledValue,hvalue,cells_filled hvalue]

structure Known (texts : Texts) (limits : ImportLimits) (mode : ImportMode) (tables : Tables)
    (lines : List Line) (rows : List SourceRow) : Prop where
  parsed : Parsed texts limits mode lines rows
  distinct : (rows.map (fun row => (row.dataset,keyToken row))).Nodup
  present : ∀ row ∈ rows, (existingRecord tables row).isSome = true

namespace Known
variable (known : Known texts limits mode tables lines rows)
include known

theorem view (hline : lines[index]? = some line) (hrow : rows[index]? = some row) : View texts mode line row :=
  rowOf_view (known.parsed.row index line row hline hrow)

theorem row_of (hline : lines[index]? = some line) : ∃ row, rows[index]? = some row := by
  have hlt : index < rows.length := known.parsed.length ▸ (List.getElem?_eq_some_iff.mp hline).1
  exact ⟨rows[index],List.getElem?_eq_getElem hlt⟩

theorem line_of (hrow : rows[index]? = some row) : ∃ line, lines[index]? = some line := by
  have hlt : index < lines.length := known.parsed.length ▸ (List.getElem?_eq_some_iff.mp hrow).1
  exact ⟨lines[index],List.getElem?_eq_getElem hlt⟩

theorem required (hmode : mode = .updateOnly ∨ mode = .deleteOnly) (hline : lines[index]? = some line)
    (hrow : rows[index]? = some row) : requiredError mode line.dataset line.cells = none :=
  requiredError_present (known.view hline hrow) hmode (known.present row (List.mem_of_getElem? hrow))

theorem error_none (hmode : mode = .updateOnly ∨ mode = .deleteOnly) (hline : lines[index]? = some line)
    (hrow : rows[index]? = some row) : row.error = none ↔ line.formulaError = none ∧ line.Valid texts := by
  rw [(known.view hline hrow).error,Option.or_eq_none_iff,Option.map_eq_none_iff,
    cellError_none (known.required hmode hline hrow)]

theorem isWriter_iff (hmode : mode = .updateOnly ∨ mode = .deleteOnly) (hline : lines[index]? = some line)
    (hrow : rows[index]? = some row) : isWriter row = true ↔ line.Writes texts := by
  rw [isWriter,Bool.and_eq_true,decide_eq_true_eq,Option.isNone_iff_eq_none,(known.view hline hrow).dataset,
    known.error_none hmode hline hrow,Line.Writes]

theorem pair_eq (hline : lines[index]? = some line) (hrow : rows[index]? = some row)
    (hwriters : line.dataset = .paperTeamWriters) : orderPair row = line.pair :=
  (known.view hline hrow).pair_eq (.inl hwriters)

end Known

/-! ## Updates -/

theorem blames_uuid {field column : String} (h : Blames ("MALFORMED_UUID",field ++ " is not a UUID") column) :
    column = field := by
  simpa [Blames,eq_comm] using h

theorem blames_integer {field column : String}
    (h : Blames ("INVALID_INTEGER",field ++ " is outside its valid range") column) : column = field := by
  simpa [Blames,eq_comm] using h

theorem blames_email {field column : String}
    (h : Blames ("INVALID_EMAIL",field ++ " is not a normalized email address") column) : column = field := by
  simpa [Blames,eq_comm] using h

theorem checked_column (dataset : Dataset) :
    (∀ column ∈ dataset.spec.uuids, column ∈ dataset.spec.columns) ∧
      (∀ column ∈ dataset.spec.integers, column ∈ dataset.spec.columns) ∧
      ∀ column ∈ dataset.spec.emails, column ∈ dataset.spec.columns := by
  cases dataset <;> decide

theorem filled_get {cells : Value} {column value : String} (h : filledValue cells column = some value) :
    (cells.get? column).isSome = true := by
  cases hget : cells.get? column with
  | none => simp [filledValue,textValue,hget] at h
  | some v => rfl

theorem checkEmails_some {dataset : Dataset} {cells : Value} {error : RowError}
    (h : (checkEmails cells dataset.spec.emails).1 = some error) : ∃ field ∈ dataset.spec.emails,
      (cells.get? field).isSome = true ∧ error = ("INVALID_EMAIL",field ++ " is not a normalized email address") := by
  rcases emails_cases dataset with hemails | ⟨hemails,-⟩
  · rw [hemails] at h
    simp [checkEmails] at h
  · rw [hemails] at h ⊢
    cases hvalue : filledValue cells "email" with
    | none => simp [checkEmails,hvalue] at h
    | some value =>
      simp only [checkEmails,hvalue] at h
      split at h
      · simp at h
      · exact ⟨"email",List.mem_singleton_self _,filled_get hvalue,(Option.some.inj h).symm⟩

theorem cellError_cases {error : RowError} (hrequired : requiredError mode line.dataset line.cells = none)
    (h : cellError texts mode line.dataset line.cells = some error) :
    (∀ column, Blames error column → column ∈ line.dataset.spec.columns ∧
      (line.cells.get? column).isSome = true) ∨
    line.dataset = .paperTeamWriters ∧ integerError texts line.dataset line.cells = none ∧
      error = ("INVALID_BOOLEAN","is_leader must be true or false") := by
  obtain ⟨huuids,hintegers,hemails⟩ := checked_column line.dataset
  rw [cellError,hrequired,Option.none_or,Option.or_eq_some_iff,Option.or_eq_some_iff,Option.or_eq_some_iff] at h
  rcases h with h | ⟨-,h | ⟨hinteger,h | ⟨-,h⟩⟩⟩
  · obtain ⟨field,hfield,rfl⟩ := Option.map_eq_some_iff.mp h
    have hany := List.find?_some hfield
    rw [Option.any_eq_true] at hany
    obtain ⟨value,hvalue,-⟩ := hany
    refine .inl fun column hblames => ?_
    rw [blames_uuid hblames]
    exact ⟨huuids field (List.mem_of_find?_eq_some hfield),filled_get hvalue⟩
  · obtain ⟨field,hfield,rfl⟩ := Option.map_eq_some_iff.mp h
    have hany := List.find?_some hfield
    rw [Option.any_eq_true] at hany
    obtain ⟨value,hvalue,-⟩ := hany
    refine .inl fun column hblames => ?_
    rw [blames_integer hblames]
    exact ⟨hintegers field (List.mem_of_find?_eq_some hfield),filled_get hvalue⟩
  · obtain ⟨field,hfield,hcell,rfl⟩ := checkEmails_some h
    refine .inl fun column hblames => ?_
    rw [blames_email hblames]
    exact ⟨hemails field hfield,hcell⟩
  · unfold checkLeader at h
    split at h
    · next hwriters =>
      dsimp only at h
      split at h
      · simp at h
      · exact .inr ⟨hwriters,hinteger,(Option.some.inj h).symm⟩
    · simp at h

theorem writers_integers {cells : Value} : integerError texts .paperTeamWriters cells = none ↔
    ∀ value, filledValue cells "writer_order" = some value → integerOutside texts "writer_order" value = false := by
  rw [integerError_none]
  simp [Dataset.spec]

theorem blames_leader {message column : String} (h : Blames ("INVALID_BOOLEAN",message) column) :
    column = "is_leader" := by
  simpa [Blames] using h

theorem blames_order {message column : String} (h : Blames ("DUPLICATE_WRITER_ORDER",message) column) :
    column = "writer_order" := by
  simpa [Blames] using h

theorem not_blames {code message column : String}
    (h : code ∈ [formulaInKeyCode,"TEAM_HAS_NO_WRITER","MULTIPLE_LEADERS"]) : ¬Blames (code,message) column := by
  simp only [List.mem_cons,List.not_mem_nil,or_false,formulaInKeyCode] at h
  rcases h with rfl | rfl | rfl
  all_goals simp [Blames]

theorem checkTeam_cases (sheet : Bool) (tally : WriterTally) (row : SourceRow) :
    checkTeam sheet tally row = row ∨ ∃ code message,
      code ∈ [formulaInKeyCode,"TEAM_HAS_NO_WRITER","MULTIPLE_LEADERS"] ∧
        (checkTeam sheet tally row).error = some (code,message) := by
  unfold checkTeam
  split
  · dsimp only
    split
    · exact .inr ⟨_,_,by simp,rfl⟩
    · split
      · exact .inr ⟨_,_,by simp,rfl⟩
      · exact .inl rfl
  · exact .inl rfl

theorem pairwise_get {related : Line → Line → Prop} (h : lines.Pairwise related) {first second : ℕ}
    {line other : Line} (hline : lines[first]? = some line) (hother : lines[second]? = some other)
    (hlt : first < second) : related line other := by
  obtain ⟨hfirst,rfl⟩ := List.getElem?_eq_some_iff.mp hline
  obtain ⟨hsecond,rfl⟩ := List.getElem?_eq_some_iff.mp hother
  exact List.pairwise_iff_getElem.mp h first second hfirst hsecond hlt

theorem pairwise_of_get {related : Line → Line → Prop}
    (h : ∀ (first second : ℕ) (line other : Line), lines[first]? = some line → lines[second]? = some other →
      first < second → related line other) : lines.Pairwise related :=
  List.pairwise_iff_getElem.mpr fun first second hfirst hsecond hlt =>
    h first second _ _ (List.getElem?_eq_getElem hfirst) (List.getElem?_eq_getElem hsecond) hlt

theorem blameless_update_iff (known : Known texts limits .updateOnly tables lines rows) :
    Blameless .updateOnly lines rows ↔ UpdateClean texts lines := by
  have hmode : ImportMode.updateOnly = .updateOnly ∨ ImportMode.updateOnly = .deleteOnly := .inl rfl
  constructor
  · intro h
    refine ⟨?_,pairwise_of_get ?_⟩
    · intro line hmem hwriters hformula horder
      obtain ⟨index,hline⟩ := List.mem_iff_getElem?.mp hmem
      obtain ⟨row,hrow⟩ := known.row_of hline
      have view := known.view hline hrow
      by_contra hmissing
      have hcell : line.cells.get? "is_leader" = none := by
        by_contra hsome
        refine hmissing (view.column "is_leader" ?_ (Option.isSome_iff_ne_none.mpr hsome))
        rw [hwriters]
        decide
      have herror : row.error = some ("INVALID_BOOLEAN","is_leader must be true or false") := by
        rw [view.error_cells hformula,cellError,known.required hmode hline hrow,hwriters,
          writers_integers.mpr horder]
        simp [uuidError,checkEmails,checkLeader,Dataset.spec,textValue,hcell,asciiLower]
      have hcross := crossRows_error known.distinct hrow (by rw [herror]; rfl)
      exact hmissing (h index line row _ "is_leader" hline hcross herror (by simp [Blames])).1
    · intro first second line other hline hother hlt hwrites hwritesOther heq
      obtain ⟨row,hrow⟩ := known.row_of hline
      obtain ⟨row',hrow'⟩ := known.row_of hother
      have hearlier : Earlier rows second (orderPair row') := by
        refine ⟨first,hlt,row,hrow,(known.isWriter_iff hmode hline hrow).mpr hwrites,?_⟩
        rw [known.pair_eq hline hrow hwrites.1,known.pair_eq hother hrow' hwritesOther.1,heq]
      have hcross := crossRows_repeated known.distinct hrow'
        ((known.isWriter_iff hmode hother hrow').mpr hwritesOther) hearlier
      exact (h second other _ _ "writer_order" hother hcross rfl (by simp [Blames])).1
  · intro clean index line row' error column hline hcross herror hblames
    refine ⟨?_,fun h => by cases h⟩
    obtain ⟨row,hrow⟩ := known.row_of hline
    have view := known.view hline hrow
    cases hfirst : row.error with
    | some found =>
      rw [crossRows_error known.distinct hrow (by rw [hfirst]; rfl)] at hcross
      obtain rfl : row = row' := Option.some.inj hcross
      cases hformula : line.formulaError with
      | some message =>
        rw [view.error_formula hformula,Option.some.injEq] at herror
        exact absurd (herror ▸ hblames) (not_blames (by simp [formulaInKeyCode]))
      | none =>
        rw [view.error_cells hformula] at herror
        rcases cellError_cases (known.required hmode hline hrow) herror with hcell | ⟨hwriters,hinteger,rfl⟩
        · obtain ⟨hcolumn,hsome⟩ := hcell column hblames
          exact view.column column hcolumn hsome
        · rw [blames_leader hblames]
          rw [hwriters] at hinteger
          exact clean.leader line (List.mem_of_getElem? hline) hwriters hformula (writers_integers.mp hinteger)
    | none =>
      by_cases hrepeated : isWriter row = true ∧ Earlier rows index (orderPair row)
      · obtain ⟨hwriter,k,hk,other,hother,hwriter',heq⟩ := hrepeated
        rw [crossRows_repeated known.distinct hrow hwriter ⟨k,hk,other,hother,hwriter',heq⟩] at hcross
        obtain rfl : repeatedOrder row = row' := Option.some.inj hcross
        obtain rfl : ("DUPLICATE_WRITER_ORDER","writer_order must be unique per Team") = error :=
          Option.some.inj herror
        obtain ⟨earlier,hearlier⟩ := known.line_of hother
        have hwrites := (known.isWriter_iff hmode hline hrow).mp hwriter
        have hwrites' := (known.isWriter_iff hmode hearlier hother).mp hwriter'
        rw [known.pair_eq hearlier hother hwrites'.1,known.pair_eq hline hrow hwrites.1] at heq
        rw [blames_order hblames]
        exact pairwise_get clean.order hearlier hline hk hwrites' hwrites heq
      · rw [crossRows_kept known.distinct hrow (fun hwriter hearlier => hrepeated ⟨hwriter,hearlier⟩)] at hcross
        obtain rfl := Option.some.inj hcross
        rcases checkTeam_cases (includesWriters rows) (markWriterOrders ⟨[],[],[]⟩ rows).2 row with
          hkept | ⟨code,message,hcode,hrefused⟩
        · rw [hkept,hfirst] at herror
          exact absurd herror (by simp)
        · rw [hrefused,Option.some.injEq] at herror
          exact absurd (herror ▸ hblames) (not_blames hcode)

end LatexCore.Imports
