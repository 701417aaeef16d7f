import LatexCore.Foundation.Value
import LatexCore.Institution.Identity

/-! # Institution datasets

The thirteen datasets of the institution with their columns, keys and references.
The statements that apply an import are alike but for these, so each mode is one
statement over a dataset: a plain insertion that skips conflicts, an insertion
that overwrites a record with the same key, an update of the given columns and a
deletion by key.
-/
namespace LatexCore.Imports
open Core Foundation
open Institution (InstitutionError PersonKind ExternalId)

inductive Dataset
  | departments | admins | faculty | programmes | schools | students | studentCourseRegistrations
  | facultyGuideCapacity | departmentRoles | facultyRoles | paperTeams | paperTeamWriters
  | paperTeamMentors
deriving DecidableEq

def institutionTables : List Dataset :=
  [.departments,.admins,.faculty,.programmes,.schools,.students,.studentCourseRegistrations,
    .facultyGuideCapacity,.departmentRoles,.facultyRoles,.paperTeams,.paperTeamWriters,
    .paperTeamMentors]

def peopleApplyOrder : List Dataset :=
  [.departments,.schools,.admins,.faculty,.programmes,.students,.studentCourseRegistrations,
    .facultyGuideCapacity,.departmentRoles,.facultyRoles]

def assignmentApplyOrder : List Dataset := [.paperTeams,.paperTeamWriters,.paperTeamMentors]

def applyOrder : List Dataset := peopleApplyOrder ++ assignmentApplyOrder

def Dataset.name : Dataset → String
  | .departments => "departments"
  | .admins => "admins"
  | .faculty => "faculty"
  | .programmes => "programmes"
  | .schools => "schools"
  | .students => "students"
  | .studentCourseRegistrations => "student_course_registrations"
  | .facultyGuideCapacity => "faculty_guide_capacity"
  | .departmentRoles => "department_roles"
  | .facultyRoles => "faculty_roles"
  | .paperTeams => "paper_teams"
  | .paperTeamWriters => "paper_team_writers"
  | .paperTeamMentors => "paper_team_mentors"

structure TableSpec where
  columns : List String
  required : List String
  keys : List String
  uuids : List String
  integers : List String
  emails : List String

def Dataset.spec : Dataset → TableSpec
  | .departments => ⟨["department_id"],["department_id"],["department_id"],["department_id"],[],[]⟩
  | .admins => ⟨["admin_id","email","name","pfp"],["admin_id"],["admin_id"],[],[],["email"]⟩
  | .faculty => ⟨["faculty_id","name","email","dept_id","honorific","designation","status"],
      ["faculty_id"],["faculty_id"],["dept_id"],[],["email"]⟩
  | .programmes => ⟨["programme_code","hod_id"],["programme_code"],["programme_code"],[],[],[]⟩
  | .schools => ⟨["school_id"],["school_id"],["school_id"],[],[],[]⟩
  | .students => ⟨["reg_no","name","email","programme_code"],["reg_no"],["reg_no"],[],[],["email"]⟩
  | .studentCourseRegistrations =>
    ⟨["student_reg_no","course_id","academic_year","semester","registration_status"],
      ["student_reg_no","course_id","academic_year","semester"],
      ["student_reg_no","course_id","academic_year","semester"],[],[],[]⟩
  | .facultyGuideCapacity =>
    ⟨["capacity_id","faculty_id","academic_year","ug_max_projects","pg_max_projects",
        "integrated_pg_max_projects","status"],
      ["capacity_id"],["capacity_id"],["capacity_id"],
      ["ug_max_projects","pg_max_projects","integrated_pg_max_projects"],[]⟩
  | .departmentRoles => ⟨["id","dept_id","role_type","faculty_id"],["id","dept_id"],["id"],["dept_id"],
      ["id"],[]⟩
  | .facultyRoles =>
    ⟨["role_id","faculty_id","role_type","school_id","department_id","programme_code","status"],
      ["role_id"],["role_id"],["role_id","department_id"],[],[]⟩
  | .paperTeams => ⟨["external_team_key","team_name","academic_year","semester","status"],
      ["external_team_key","team_name"],["external_team_key"],[],[],[]⟩
  | .paperTeamWriters => ⟨["external_team_key","student_reg_no","writer_order","is_leader"],
      ["external_team_key","student_reg_no","writer_order","is_leader"],
      ["external_team_key","student_reg_no"],[],["writer_order"],[]⟩
  | .paperTeamMentors => ⟨["external_team_key","faculty_id"],["external_team_key","faculty_id"],
      ["external_team_key","faculty_id"],[],[],[]⟩

/-! ## Records -/

inductive SqlType
  | text | uuid | int | boolean
deriving DecidableEq

/-- The type of a column in the schema, which need not be that of the file: `department_roles.dept_id`
is text. -/
def Dataset.sqlType : Dataset → String → SqlType
  | .departments, "department_id" | .faculty, "dept_id" | .facultyGuideCapacity, "capacity_id"
  | .facultyRoles, "role_id" | .facultyRoles, "department_id" => .uuid
  | .facultyGuideCapacity, "ug_max_projects" | .facultyGuideCapacity, "pg_max_projects"
  | .facultyGuideCapacity, "integrated_pg_max_projects" | .departmentRoles, "id"
  | .paperTeamWriters, "writer_order" => .int
  | .paperTeamWriters, "is_leader" => .boolean
  | _, _ => .text

/-- The columns that a record cannot leave null, the key apart. -/
def Dataset.notNull : Dataset → List String
  | .departmentRoles => ["dept_id"]
  | .paperTeams => ["team_name"]
  | .paperTeamWriters => ["writer_order","is_leader"]
  | _ => []

/-- The columns that refer to the key of another dataset. -/
def Dataset.references : Dataset → List (String × Dataset)
  | .faculty => [("dept_id",.departments)]
  | .programmes => [("hod_id",.faculty)]
  | .students => [("programme_code",.programmes)]
  | .studentCourseRegistrations => [("student_reg_no",.students)]
  | .facultyGuideCapacity => [("faculty_id",.faculty)]
  | .departmentRoles => [("faculty_id",.faculty)]
  | .facultyRoles => [("faculty_id",.faculty),("school_id",.schools),("department_id",.departments),
      ("programme_code",.programmes)]
  | .paperTeamWriters => [("external_team_key",.paperTeams),("student_reg_no",.students)]
  | .paperTeamMentors => [("external_team_key",.paperTeams),("faculty_id",.faculty)]
  | .departments | .admins | .schools | .paperTeams => []

/-- A record with its columns as `to_jsonb` prints them. -/
abbrev Record := List (String × Value)

def Record.get (record : Record) (column : String) : Value := ((Value.obj record).get? column).getD .null

abbrev RecordKey := List String

abbrev Records := Table RecordKey Record

abbrev Tables := Dataset → Records

/-- The texts that the server and the database read as numbers and UUIDs. -/
structure Texts where
  /-- `Uuid::parse_str`. -/
  parseUuid : String → Option Uuid
  /-- `text::uuid`. -/
  castUuid : String → Option Uuid
  /-- `str::parse::<i32>`. -/
  parseI32 : String → Option ℤ
  /-- `text::int`. -/
  castInt : String → Option ℤ

variable (texts : Texts)

def castCell : SqlType → Value → Option Value
  | _, .null => some .null
  | .text, .str text => some (.str text)
  | .uuid, .str text => (texts.castUuid text).map (fun id => .str (uuidText id))
  | .int, .str text => (texts.castInt text).map .num
  | .boolean, .bool value => some (.bool value)
  | _, _ => none

def columnText : Value → String
  | .str text => text
  | .num n => toString n
  | _ => ""

/-- `jsonb_to_recordset` of one payload, with the casts of the statement. -/
def castRecord (dataset : Dataset) (payload : Value) : Option Record :=
  decodeAll (fun column => (castCell texts (dataset.sqlType column)
    ((payload.get? column).getD .null)).map (fun v => (column,v))) dataset.spec.columns

def Dataset.keyOf (dataset : Dataset) (record : Record) : RecordKey :=
  dataset.spec.keys.map (fun column => columnText (record.get column))

/-- `NOT NULL` and the checks of the dataset. -/
def Dataset.admits (dataset : Dataset) (record : Record) : Bool :=
  (dataset.spec.keys ++ dataset.notNull).all (fun column =>
    match record.get column with
    | .null => false
    | _ => true) &&
  dataset.spec.columns.all (fun column =>
    match dataset, record.get column with
    | .facultyGuideCapacity, .num n => 0 ≤ n
    | .paperTeamWriters, .num n => 0 < n
    | _, _ => true)

def refersTo (tables : Tables) (target : Dataset) : Value → Bool
  | .null => true
  | v => ((tables target).get? [columnText v]).isSome

/-- The foreign keys of a record, and the trigger of `department_roles`. -/
def Dataset.referenced (dataset : Dataset) (tables : Tables) (record : Record) : Bool :=
  dataset.references.all (fun r => refersTo tables r.2 (record.get r.1))

/-- `validate_department_role_department`. -/
def Dataset.guarded (dataset : Dataset) (tables : Tables) (record : Record) : Bool :=
  dataset != .departmentRoles ||
    ((texts.castUuid (columnText (record.get "dept_id"))).any
      (fun id => ((tables .departments).get? [uuidText id]).isSome))

def Dataset.clashes (dataset : Dataset) (key : RecordKey) (record : Record) (key' : RecordKey)
    (record' : Record) : Bool :=
  dataset == .paperTeamWriters && key != key' &&
    columnText (record.get "external_team_key") == columnText (record'.get "external_team_key") &&
    (columnText (record.get "writer_order") == columnText (record'.get "writer_order") ||
      ((record.get "is_leader").asBool? == some true && (record'.get "is_leader").asBool? == some true))

def Dataset.unique (dataset : Dataset) (records : Records) (key : RecordKey) (record : Record) : Bool :=
  records.count (fun key' record' => dataset.clashes key record key' record') == 0

def setRecords (tables : Tables) (dataset : Dataset) (records : Records) : Tables :=
  fun d => if d = dataset then records else tables d

/-! ## Statements -/

/-- One row of `INSERT … ON CONFLICT DO NOTHING`. -/
def insertRecord (dataset : Dataset) (tables : Tables) (payload : Value) :
    Except InstitutionError Tables := do
  let record ← require (castRecord texts dataset payload) (.database "invalid_text_representation")
  ensure (dataset.guarded texts tables record) (.database "department_roles_department_guard")
  ensure (dataset.admits record) (.database "not_null_violation")
  let key := dataset.keyOf record
  if dataset.unique (tables dataset) key record then
    match (tables dataset).insert? key record with
    | none => pure tables
    | some records =>
      ensure (dataset.referenced tables record) (.database "foreign_key_violation")
      pure (setRecords tables dataset records)
  else pure tables

/-- The datasets whose records are nothing but their keys are not overwritten. -/
def Dataset.overwrites (dataset : Dataset) : Bool :=
  dataset != .departments && dataset != .schools && dataset != .paperTeamMentors

/-- One row of `INSERT … ON CONFLICT(key) DO UPDATE`; the keys are those of the rows before it. -/
def mergeRecord (dataset : Dataset) (tables : Tables) (keys : List RecordKey) (payload : Value) :
    Except InstitutionError (Tables × List RecordKey) := do
  let record ← require (castRecord texts dataset payload) (.database "invalid_text_representation")
  ensure (dataset.guarded texts tables record) (.database "department_roles_department_guard")
  ensure (dataset.admits record) (.database "not_null_violation")
  let key := dataset.keyOf record
  ensure (!keys.contains key) (.database "cardinality_violation")
  ensure (dataset.unique (tables dataset) key record) (.database "unique_violation")
  ensure (dataset.referenced tables record) (.database "foreign_key_violation")
  pure (setRecords tables dataset ((tables dataset).upsert key record),key :: keys)

def applyQuery (dataset : Dataset) (merge : Bool) (payloads : List Value) (tables : Tables) :
    Except InstitutionError Tables :=
  if merge && dataset.overwrites then
    (payloads.foldlM (fun s payload => mergeRecord texts dataset s.1 s.2 payload)
      (tables,([] : List RecordKey))).map Prod.fst
  else payloads.foldlM (insertRecord texts dataset) tables

def Dataset.payloadKey (dataset : Dataset) (payload : Value) : RecordKey :=
  dataset.spec.keys.map (fun column => columnText ((payload.get? column).getD .null))

def updatedRecord (dataset : Dataset) (record : Record) (payload : Value) : Option Record :=
  decodeAll (fun column =>
    if dataset.spec.keys.contains column then some (column,record.get column)
    else match payload.get? column with
      | none => some (column,record.get column)
      | some v => (castCell texts (dataset.sqlType column) v).map (fun v => (column,v)))
    dataset.spec.columns

def updateRecord (dataset : Dataset) (tables : Tables) (payload : Value) :
    Except InstitutionError Tables :=
  let key := dataset.payloadKey payload
  match (tables dataset).get? key with
  | none => pure tables
  | some old => do
    let record ← require (updatedRecord texts dataset old payload)
      (.database "invalid_text_representation")
    ensure (dataset.guarded texts tables record) (.database "department_roles_department_guard")
    ensure (dataset.admits record) (.database "not_null_violation")
    ensure (dataset.unique (tables dataset) key record) (.database "unique_violation")
    ensure (dataset.referenced tables record) (.database "foreign_key_violation")
    pure (setRecords tables dataset ((tables dataset).modify key (fun _ => record)))

/-- `update_query`, in the order in which the planner visits the records. -/
def updateQuery (dataset : Dataset) (payloads : List Value) (tables : Tables) :
    Except InstitutionError Tables :=
  payloads.foldlM (updateRecord texts dataset) tables

def Dataset.unreferenced (dataset : Dataset) (tables : Tables) (key : RecordKey) : Bool :=
  institutionTables.all (fun other => other.references.all (fun r =>
    r.2 != dataset || (tables other).count (fun _ record => [columnText (record.get r.1)] == key) == 0))

/-- `delete_query`; the application may hold on to a key as well. -/
def deleteQuery (dataset : Dataset) (held : RecordKey → Bool) (payloads : List Value)
    (tables : Tables) : Except InstitutionError Tables := do
  let keys := payloads.map dataset.payloadKey
  let gone := keys.filter (fun key => ((tables dataset).get? key).isSome)
  ensure (gone.all (fun key => !held key && dataset.unreferenced tables key))
    (.database "foreign_key_violation")
  pure (setRecords tables dataset ((tables dataset).deleteWhere (fun key _ => gone.contains key)))

end LatexCore.Imports
