import LatexCore.Imports.Parsing

/-! # Checks across rows and against the database

The rows of an upload are compared with one another, then each gets its action from the
record under its key, its references are looked up among the records and the uploaded
keys, and a deletion is refused while something depends on the record.

Where the keys of an upload are distinct, a Writer row is refused in the comparison
exactly if an earlier one of its team has the same order, and where there is no such
row, the tally has all Writers and all leaders. A row with an error stays as it is
through every later check.
-/
namespace LatexCore.Imports
open Core Foundation

def SourceRow.fail (row : SourceRow) (code message : String) : SourceRow :=
  { row with error := some (code,message) }

/-- What `key_token` prints of a natural key: its cells, each a text or null. -/
def keyToken (row : SourceRow) : List (Option String) :=
  row.dataset.spec.keys.map (fun key => (row.naturalKey.get? key).bind Value.asStr?)

/-! ## Across rows -/

def markDuplicates (seen : List (Dataset × List (Option String))) : List SourceRow → List SourceRow
  | [] => []
  | row :: rest =>
    if row.error.isSome then row :: markDuplicates seen rest
    else if seen.contains (row.dataset,keyToken row) then
      row.fail "DUPLICATE_KEY" "duplicate primary key within import source" :: markDuplicates seen rest
    else row :: markDuplicates ((row.dataset,keyToken row) :: seen) rest

def teamOf (row : SourceRow) : String := (textValue row.payload "external_team_key").getD ""
def orderOf (row : SourceRow) : String := (textValue row.payload "writer_order").getD ""
def isLeader (row : SourceRow) : Bool := ((row.payload.get? "is_leader").bind Value.asBool?) == some true

structure WriterTally where
  orders : List (String × String)
  writers : List String
  leaders : List String

def isWriter (row : SourceRow) : Bool := row.dataset = .paperTeamWriters && row.error.isNone

def markWriterOrders (tally : WriterTally) : List SourceRow → List SourceRow × WriterTally
  | [] => ([],tally)
  | row :: rest =>
    if isWriter row then
      if tally.orders.contains (teamOf row,orderOf row) then
        let (later,tally) := markWriterOrders tally rest
        (row.fail "DUPLICATE_WRITER_ORDER" "writer_order must be unique per Team" :: later,tally)
      else
        let (later,tally) := markWriterOrders ⟨(teamOf row,orderOf row) :: tally.orders,
          teamOf row :: tally.writers,
          if isLeader row then teamOf row :: tally.leaders else tally.leaders⟩ rest
        (row :: later,tally)
    else
      let (later,tally) := markWriterOrders tally rest
      (row :: later,tally)

def checkTeam (includesWriterSheet : Bool) (tally : WriterTally) (row : SourceRow) : SourceRow :=
  if row.dataset = .paperTeams ∧ row.error.isNone then
    let row' := if includesWriterSheet && !tally.writers.contains (teamOf row) then
      row.fail "TEAM_HAS_NO_WRITER" "Team has no Writer row" else row
    if 1 < tally.leaders.count (teamOf row) then
      row'.fail "MULTIPLE_LEADERS" "Team has more than one imported Leader" else row'
  else row

def validateCrossRows (rows : List SourceRow) : List SourceRow :=
  let (marked,tally) := markWriterOrders ⟨[],[],[]⟩ (markDuplicates [] rows)
  marked.map (checkTeam (rows.any (fun row => row.dataset = .paperTeamWriters)) tally)

/-! ## Against the database -/

def existingRecord (tables : Tables) (row : SourceRow) : Option Record :=
  (decodeAll id (keyToken row)).bind (tables row.dataset).get?

def friendlyDataset (dataset : Dataset) : String :=
  match dataset with
  | .departments => "Department"
  | .admins => "Admin"
  | .faculty => "Faculty"
  | .programmes => "Programme"
  | .schools => "School"
  | .students => "Student"
  | .studentCourseRegistrations => "Student Course Registration"
  | .facultyGuideCapacity => "Faculty Guide Capacity"
  | .departmentRoles => "Department Role"
  | .facultyRoles => "Faculty Role"
  | .paperTeams => "Paper assignment"
  | .paperTeamWriters => "Paper assignment Writer"
  | .paperTeamMentors => "Paper assignment Mentor"

def actionName (present : Bool) (mode : ImportMode) : String :=
  match present,mode with
  | false,.validateOnly | false,.merge | false,.addOnly => "INSERT"
  | true,.merge | true,.updateOnly => "UPDATE"
  | true,.deleteOnly => "DELETE"
  | true,.validateOnly | true,.addOnly => "SKIP"
  | false,.updateOnly | false,.deleteOnly => "INVALID"

def assignAction (tables : Tables) (mode : ImportMode) (row : SourceRow) : SourceRow :=
  if row.error.isSome ∨ actionFor row = "SKIP" ∨ actionFor row = "DELETE" then row
  else
    let existing := existingRecord tables row
    let row := { row with existingPayload := existing.map Value.obj }
    if existing.isNone ∧ (mode = .updateOnly ∨ mode = .deleteOnly) then
      row.fail "NOT_FOUND"
        (friendlyDataset row.dataset ++ " was not found; check the canonical key and try again")
    else { row with payload := row.payload.set "__action" (.str (actionName existing.isSome mode)) }

def uploadedKey (rows : List SourceRow) (dataset : Dataset) (value : String) : Bool :=
  rows.any (fun row => row.error.isNone && row.dataset = dataset && (keyToken row).contains (some value))

/-- The columns of a row that must name a record, in the order of the checks. -/
def checkedReferences : Dataset → List (String × Dataset)
  | .departmentRoles => [("dept_id",.departments),("faculty_id",.faculty)]
  | dataset => dataset.references

def referenceMissing (tables : Tables) (rows : List SourceRow) (payload : Value)
    (reference : String × Dataset) : Bool :=
  (filledValue payload reference.1).any (fun value =>
    ((tables reference.2).get? [value]).isNone && !uploadedKey rows reference.2 value)

def checkReferences (tables : Tables) (rows : List SourceRow) (row : SourceRow) : SourceRow :=
  if row.error.isSome then row
  else match (checkedReferences row.dataset).find? (referenceMissing tables rows row.payload) with
    | none => row
    | some reference => row.fail "INVALID_FK" (reference.1 ++ " references missing " ++ reference.2.name ++
        " value " ++ (filledValue row.payload reference.1).getD "")

def validateDatabaseReferences (tables : Tables) (rows : List SourceRow) : List SourceRow :=
  rows.map (checkReferences tables rows)

/-- What depends on the record of a dataset under a key, as the queries print it. -/
abbrev Dependents := Dataset → String → List String

/-- The column by which the dependents of a record are found. -/
def dependencyKey : Dataset → Option String
  | .students => some "reg_no"
  | .faculty => some "faculty_id"
  | .programmes => some "programme_code"
  | .departments => some "department_id"
  | .schools => some "school_id"
  | .paperTeams | .paperTeamWriters | .paperTeamMentors => some "external_team_key"
  | _ => none

def dependenciesOf (dependents : Dependents) (dataset : Dataset) (payload : Value) : List String :=
  ((dependencyKey dataset).bind (textValue payload)).elim [] (dependents dataset)

def checkDependencies (dependents : Dependents) (row : SourceRow) : SourceRow :=
  if row.error.isNone ∧ actionFor row = "DELETE" then
    let dependencies := dependenciesOf dependents row.dataset row.payload
    if dependencies ≠ [] then
      row.fail "DELETE_BLOCKED_DEPENDENCY" ("Cannot delete this " ++ friendlyDataset row.dataset ++
        ". Used by: " ++ "; ".intercalate dependencies ++
        ". Remove or archive those relationships explicitly first.")
    else row
  else row

/-- The checks of `validate_upload` and `validate_batch` after the files are parsed. -/
def validateRows (tables : Tables) (dependents : Dependents) (mode : ImportMode) (rows : List SourceRow) :
    List SourceRow :=
  let rows := validateDatabaseReferences tables ((validateCrossRows rows).map (assignAction tables mode))
  if mode = .deleteOnly then rows.map (checkDependencies dependents) else rows

/-! ## Rows compared with one another -/

/-! ## Distinct keys -/

theorem markDuplicates_eq {rows : List SourceRow} {seen : List (Dataset × List (Option String))}
    (hnodup : (rows.map (fun row => (row.dataset,keyToken row))).Nodup)
    (hnew : ∀ row ∈ rows, (row.dataset,keyToken row) ∉ seen) : markDuplicates seen rows = rows := by
  induction rows generalizing seen with
  | nil => rfl
  | cons row rest ih =>
    rw [List.map_cons,List.nodup_cons] at hnodup
    have hrow : seen.contains (row.dataset,keyToken row) = false := by
      simpa using hnew row List.mem_cons_self
    have hlater : ∀ other ∈ rest, (other.dataset,keyToken other) ∉ (row.dataset,keyToken row) :: seen := by
      intro other hother hmem
      rcases List.mem_cons.mp hmem with heq | hmem
      · exact hnodup.1 (heq ▸ List.mem_map_of_mem (f := fun row => (row.dataset,keyToken row)) hother)
      · exact hnew other (List.mem_cons_of_mem row hother) hmem
    have hseen : markDuplicates seen rest = rest :=
      ih hnodup.2 (fun other hother => hnew other (List.mem_cons_of_mem row hother))
    rw [markDuplicates,hrow,hseen,ih hnodup.2 hlater]
    simp

/-! ## Writer orders -/

def orderPair (row : SourceRow) : String × String := (teamOf row,orderOf row)

def repeatedOrder (row : SourceRow) : SourceRow :=
  row.fail "DUPLICATE_WRITER_ORDER" "writer_order must be unique per Team"

def Earlier (rows : List SourceRow) (index : ℕ) (pair : String × String) : Prop :=
  ∃ k < index, ∃ other, rows[k]? = some other ∧ isWriter other = true ∧ orderPair other = pair

theorem earlier_zero {rows : List SourceRow} {pair : String × String} : ¬Earlier rows 0 pair := by
  rintro ⟨k,hk,-⟩
  omega

theorem earlier_succ {row : SourceRow} {rest : List SourceRow} {index : ℕ} {pair : String × String} :
    Earlier (row :: rest) (index + 1) pair ↔
      isWriter row = true ∧ orderPair row = pair ∨ Earlier rest index pair := by
  constructor
  · rintro ⟨k,hk,other,hother,hwriter⟩
    cases k with
    | zero =>
      obtain rfl : row = other := by simpa using hother
      exact .inl hwriter
    | succ k => exact .inr ⟨k,by omega,other,by simpa using hother,hwriter⟩
  · rintro (hwriter | ⟨k,hk,other,hother,hwriter⟩)
    · exact ⟨0,by omega,row,rfl,hwriter⟩
    · exact ⟨k + 1,by omega,other,by simpa using hother,hwriter⟩

def WriterTally.count (tally : WriterTally) (row : SourceRow) : WriterTally :=
  ⟨orderPair row :: tally.orders,teamOf row :: tally.writers,
    if isLeader row then teamOf row :: tally.leaders else tally.leaders⟩

theorem markWriterOrders_cons (tally : WriterTally) (row : SourceRow) (rest : List SourceRow) :
    markWriterOrders tally (row :: rest) =
      if isWriter row then
        if orderPair row ∈ tally.orders then
          (repeatedOrder row :: (markWriterOrders tally rest).1,(markWriterOrders tally rest).2)
        else (row :: (markWriterOrders (tally.count row) rest).1,(markWriterOrders (tally.count row) rest).2)
      else (row :: (markWriterOrders tally rest).1,(markWriterOrders tally rest).2) := by
  rw [markWriterOrders]
  simp only [List.contains_eq_mem,decide_eq_true_eq]
  rfl

theorem markWriterOrders_length (tally : WriterTally) (rows : List SourceRow) :
    (markWriterOrders tally rows).1.length = rows.length := by
  induction rows generalizing tally with
  | nil => rfl
  | cons row rest ih =>
    rw [markWriterOrders_cons]
    split
    · split
      · rw [List.length_cons,ih,List.length_cons]
      · rw [List.length_cons,ih,List.length_cons]
    · rw [List.length_cons,ih,List.length_cons]

theorem markWriterOrders_repeated {tally : WriterTally} {rows : List SourceRow} {index : ℕ} {row : SourceRow}
    (hrow : rows[index]? = some row) (hwriter : isWriter row = true)
    (hseen : orderPair row ∈ tally.orders ∨ Earlier rows index (orderPair row)) :
    (markWriterOrders tally rows).1[index]? = some (repeatedOrder row) := by
  induction rows generalizing tally index with
  | nil => simp at hrow
  | cons first rest ih =>
    rw [markWriterOrders_cons]
    cases index with
    | zero =>
      obtain rfl : first = row := by simpa using hrow
      have hmem : orderPair first ∈ tally.orders := hseen.resolve_right earlier_zero
      rw [if_pos hwriter,if_pos hmem]
      rfl
    | succ index =>
      have hrest : rest[index]? = some row := by simpa using hrow
      rw [earlier_succ] at hseen
      split
      · next hfirst =>
        split
        · next hmem =>
          refine ih hrest ?_
          rcases hseen with hseen | ⟨-,heq⟩ | hseen
          · exact .inl hseen
          · exact .inl (heq ▸ hmem)
          · exact .inr hseen
        · refine ih hrest ?_
          rcases hseen with hseen | ⟨-,heq⟩ | hseen
          · exact .inl (List.mem_cons_of_mem _ hseen)
          · exact .inl (heq ▸ List.mem_cons_self)
          · exact .inr hseen
      · next hfirst =>
        refine ih hrest ?_
        rcases hseen with hseen | ⟨htrue,-⟩ | hseen
        · exact .inl hseen
        · exact absurd htrue hfirst
        · exact .inr hseen

theorem markWriterOrders_kept {tally : WriterTally} {rows : List SourceRow} {index : ℕ} {row : SourceRow}
    (hrow : rows[index]? = some row)
    (hnew : isWriter row = true → orderPair row ∉ tally.orders ∧ ¬Earlier rows index (orderPair row)) :
    (markWriterOrders tally rows).1[index]? = some row := by
  induction rows generalizing tally index with
  | nil => simp at hrow
  | cons first rest ih =>
    rw [markWriterOrders_cons]
    cases index with
    | zero =>
      obtain rfl : first = row := by simpa using hrow
      split
      · next hwriter =>
        rw [if_neg (hnew hwriter).1]
        rfl
      · rfl
    | succ index =>
      have hrest : rest[index]? = some row := by simpa using hrow
      simp only [earlier_succ,not_or] at hnew
      split
      · next hfirst =>
        split
        · exact ih hrest (fun hwriter => ⟨(hnew hwriter).1,(hnew hwriter).2.2⟩)
        · refine ih hrest (fun hwriter => ⟨?_,(hnew hwriter).2.2⟩)
          intro hmem
          rcases List.mem_cons.mp hmem with heq | hmem
          · exact (hnew hwriter).2.1 ⟨hfirst,heq.symm⟩
          · exact (hnew hwriter).1 hmem
      · exact ih hrest (fun hwriter => ⟨(hnew hwriter).1,(hnew hwriter).2.2⟩)

def DistinctOrders (rows : List SourceRow) : Prop :=
  rows.Pairwise (fun row other => isWriter row = true → isWriter other = true → orderPair row ≠ orderPair other)

theorem distinctOrders_iff {rows : List SourceRow} : DistinctOrders rows ↔
    ∀ index row, rows[index]? = some row → isWriter row = true → ¬Earlier rows index (orderPair row) := by
  rw [DistinctOrders,List.pairwise_iff_getElem]
  constructor
  · rintro h index row hrow hwriter ⟨k,hk,other,hother,hearlier,heq⟩
    obtain ⟨hindex,rfl⟩ := List.getElem?_eq_some_iff.mp hrow
    obtain ⟨hlt,rfl⟩ := List.getElem?_eq_some_iff.mp hother
    exact h k index hlt hindex hk hearlier hwriter heq
  · intro h i j hi hj hlt hfirst hsecond heq
    exact h j rows[j] (List.getElem?_eq_getElem hj) hsecond
      ⟨i,hlt,rows[i],List.getElem?_eq_getElem hi,hfirst,heq⟩

theorem markWriterOrders_tally {tally : WriterTally} {rows : List SourceRow} (hdistinct : DistinctOrders rows)
    (hnew : ∀ row ∈ rows, isWriter row = true → orderPair row ∉ tally.orders) (team : String) :
    (team ∈ (markWriterOrders tally rows).2.writers ↔
      team ∈ tally.writers ∨ ∃ row ∈ rows, isWriter row = true ∧ teamOf row = team) ∧
    (markWriterOrders tally rows).2.leaders.count team =
      tally.leaders.count team + rows.countP (fun row => isWriter row && isLeader row && teamOf row == team) := by
  induction rows generalizing tally with
  | nil => simp [markWriterOrders]
  | cons row rest ih =>
    obtain ⟨hfirst,hrest⟩ := List.pairwise_cons.mp hdistinct
    rw [markWriterOrders_cons]
    split
    · next hwriter =>
      rw [if_neg (hnew row List.mem_cons_self hwriter)]
      have hlater : ∀ other ∈ rest, isWriter other = true → orderPair other ∉ (tally.count row).orders := by
        intro other hother htrue hmem
        rcases List.mem_cons.mp hmem with heq | hmem
        · exact hfirst other hother hwriter htrue heq.symm
        · exact hnew other (List.mem_cons_of_mem row hother) htrue hmem
      obtain ⟨hwriters,hleaders⟩ := ih hrest hlater
      refine ⟨?_,?_⟩
      · rw [hwriters,List.exists_mem_cons_iff]
        simp only [WriterTally.count,List.mem_cons,hwriter,true_and]
        constructor
        · rintro ((rfl | hmem) | hmem)
          · exact .inr (.inl rfl)
          · exact .inl hmem
          · exact .inr (.inr hmem)
        · rintro (hmem | rfl | hmem)
          · exact .inl (.inr hmem)
          · exact .inl (.inl rfl)
          · exact .inr hmem
      · rw [hleaders,List.countP_cons]
        cases hleader : isLeader row
        · simp [WriterTally.count,hleader]
        · by_cases hteam : teamOf row = team
          · simp [WriterTally.count,hleader,hwriter,hteam]
            omega
          · simp [WriterTally.count,hleader,hwriter,hteam]
    · next hwriter =>
      obtain ⟨hwriters,hleaders⟩ := ih hrest (fun other hother => hnew other (List.mem_cons_of_mem row hother))
      refine ⟨?_,?_⟩
      · rw [hwriters,List.exists_mem_cons_iff]
        simp [hwriter]
      · rw [hleaders,List.countP_cons]
        simp [hwriter]

/-! ## Rows with an error -/

theorem checkTeam_error {sheet : Bool} {tally : WriterTally} {row : SourceRow} (h : row.error.isSome = true) :
    checkTeam sheet tally row = row := by
  rw [checkTeam,if_neg]
  rintro ⟨-,hnone⟩
  rw [Option.isNone_iff_eq_none.mp hnone] at h
  exact absurd h Bool.false_ne_true

theorem checkTeam_other {sheet : Bool} {tally : WriterTally} {row : SourceRow} (h : row.dataset ≠ .paperTeams) :
    checkTeam sheet tally row = row := by
  rw [checkTeam,if_neg (fun hteams => h hteams.1)]

theorem assignAction_error {tables : Tables} {mode : ImportMode} {row : SourceRow}
    (h : row.error.isSome = true) : assignAction tables mode row = row := by
  rw [assignAction,if_pos (.inl h)]

theorem checkReferences_error {tables : Tables} {rows : List SourceRow} {row : SourceRow}
    (h : row.error.isSome = true) : checkReferences tables rows row = row := by
  rw [checkReferences,if_pos h]

theorem checkDependencies_error {dependents : Dependents} {row : SourceRow} (h : row.error.isSome = true) :
    checkDependencies dependents row = row := by
  rw [checkDependencies,if_neg]
  rintro ⟨hnone,-⟩
  rw [Option.isNone_iff_eq_none.mp hnone] at h
  exact absurd h Bool.false_ne_true

/-! ## The rows of an upload with distinct keys -/

def includesWriters (rows : List SourceRow) : Bool := rows.any (fun row => row.dataset = .paperTeamWriters)

theorem validateCrossRows_eq {rows : List SourceRow}
    (hnodup : (rows.map (fun row => (row.dataset,keyToken row))).Nodup) :
    validateCrossRows rows = (markWriterOrders ⟨[],[],[]⟩ rows).1.map
      (checkTeam (includesWriters rows) (markWriterOrders ⟨[],[],[]⟩ rows).2) := by
  rw [validateCrossRows,markDuplicates_eq hnodup (by simp)]
  rfl

theorem validateCrossRows_length (rows : List SourceRow)
    (hnodup : (rows.map (fun row => (row.dataset,keyToken row))).Nodup) :
    (validateCrossRows rows).length = rows.length := by
  rw [validateCrossRows_eq hnodup,List.length_map,markWriterOrders_length]

section Distinct
variable {rows : List SourceRow} {index : ℕ} {row : SourceRow}
variable (hnodup : (rows.map (fun row => (row.dataset,keyToken row))).Nodup)
include hnodup

theorem crossRows_error (hrow : rows[index]? = some row) (h : row.error.isSome = true) :
    (validateCrossRows rows)[index]? = some row := by
  have hwriter : isWriter row = false := by
    simpa [isWriter] using fun _ => h
  rw [validateCrossRows_eq hnodup,List.getElem?_map,
    markWriterOrders_kept hrow (fun htrue => absurd htrue (by simp [hwriter])),Option.map_some,checkTeam_error h]

theorem crossRows_repeated (hrow : rows[index]? = some row) (hwriter : isWriter row = true)
    (hearlier : Earlier rows index (orderPair row)) :
    (validateCrossRows rows)[index]? = some (repeatedOrder row) := by
  rw [validateCrossRows_eq hnodup,List.getElem?_map,markWriterOrders_repeated hrow hwriter (.inr hearlier),
    Option.map_some,checkTeam_error rfl]

theorem crossRows_kept (hrow : rows[index]? = some row)
    (hnew : isWriter row = true → ¬Earlier rows index (orderPair row)) :
    (validateCrossRows rows)[index]? =
      some (checkTeam (includesWriters rows) (markWriterOrders ⟨[],[],[]⟩ rows).2 row) := by
  rw [validateCrossRows_eq hnodup,List.getElem?_map,
    markWriterOrders_kept hrow (fun hwriter => ⟨by simp,hnew hwriter⟩),Option.map_some]

end Distinct

end LatexCore.Imports
