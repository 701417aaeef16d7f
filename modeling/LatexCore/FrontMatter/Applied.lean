import LatexCore.FrontMatter.Pack
import LatexCore.Papers.Restore

/-! # Applied renderings

A rendering is stored in one transaction: the managed files of the team are replaced by
the rendered ones in one event, and the values with their sources and all the sections
replace those of before. A refresh makes its request from what is stored: the values
that the team has chosen, and every section as it stands.
-/
namespace LatexCore.FrontMatter
open Core Foundation Workspace Std
open Papers (PaperFile FrontMatterPin FrontMatterValue ExactRestoreState Response)

/-! ## Texts of errors -/

def FrontMatterError.display : FrontMatterError → String
  | .missingManifest => "frontmatter.json is required"
  | .invalidManifest => "frontmatter.json must be valid UTF-8 JSON"
  | .schemaVersion => "unsupported Front Matter schema version"
  | .missingTex => "Front Matter Pack must contain at least one .tex file"
  | .unsupportedFile path => "Front Matter Pack contains an unsupported file: " ++ path
  | .invalidPath path => "manifest path is invalid: " ++ path
  | .missingFile path => "manifest references a missing file: " ++ path
  | .duplicateKey key => "manifest contains a duplicate key: " ++ key
  | .invalidKey key => "manifest key is invalid: " ++ key
  | .invalidLabel => "manifest label is invalid"
  | .unsupportedSource source => "automatic field source is not allowed: " ++ source
  | .invalidDefault key => "default value has the wrong type for field: " ++ key
  | .unknownPlaceholder key => "unknown placeholder: " ++ key
  | .malformedPlaceholder path => "malformed placeholder in: " ++ path
  | .missingRequired _ => "required Front Matter fields need information"
  | .invalidValue key => "invalid value for field: " ++ key

/-- The answer to a rendering that fails. -/
def renderResponse : FrontMatterError → Response
  | .missingRequired labels => ⟨422,"Needs information: " ++ String.intercalate ", " labels⟩
  | error => ⟨400,error.display⟩

inductive FrontMatterRepositoryError
  | notFound | forbidden | incompatibleTemplate | versionConflict
  | database (constraint : String)
  | integrity (message : String)
deriving DecidableEq

def repositoryResponse : FrontMatterRepositoryError → Response
  | .notFound => ⟨404,"Front Matter record not found"⟩
  | .forbidden => ⟨403,"Front Matter operation is not authorized"⟩
  | .incompatibleTemplate => ⟨409,"This template is not configured for Front Matter."⟩
  | .versionConflict => ⟨409,"Paper changed during Front Matter rendering; try again."⟩
  | .integrity _ | .database _ => ⟨500,"Front Matter persistence failure"⟩

def statementError : V2Error → FrontMatterRepositoryError
  | .database constraint => .database constraint
  | error => .integrity error.display

/-! ## Requests -/

structure ManagedFrontMatterFile where
  path : LogicalPath
  blobHash : BlobHash
  sizeBytes : UInt64
deriving DecidableEq

structure FrontMatterValueRecord where
  fieldKey : String
  valueJson : Value
  valueSource : String

structure ApplyFrontMatterRequest where
  paperTeamId : Uuid
  workspaceId : WorkspaceId
  expectedWorkspaceVersion : ℕ
  packId : Uuid
  dominantProgrammeCode : Option String
  resolutionMethod : String
  files : List ManagedFrontMatterFile
  values : List FrontMatterValueRecord
  sections : StringMap Bool
  safety : Option ExactRestoreState

/-- The identifiers that a render draws. -/
structure FreshRender where
  version : Uuid
  file : ℕ → Uuid

/-! ## The checks of an apply -/

def requireFrontMatterEditor (db : Papers.Db) (actor : UserId) (paperId : Uuid) :
    Except FrontMatterRepositoryError Unit :=
  ensure (db.roles.get? actor = some .admin || db.roles.get? actor = some .writer &&
    (db.members.get? (paperId,actor)).any (·.isLeader)) .forbidden

def teamWorkspace (compatible : Uuid → Bool) (db : Papers.Db) (paperId : Uuid) (workspaceId : WorkspaceId) :
    Except FrontMatterRepositoryError Unit := do
  let team ← require (db.paperTeams.get? paperId) .notFound
  let pin ← require (db.templatePins.get? paperId) .notFound
  ensure (db.templates.contains pin.templateId) .notFound
  ensure (team.workspaceId = workspaceId) (.integrity "paper workspace mismatch")
  ensure (compatible pin.templateId) .incompatibleTemplate

def recordSafety (actor : UserId) (request : ApplyFrontMatterRequest) (id : Uuid) (db : Papers.Db) :
    Except FrontMatterRepositoryError Papers.Db :=
  match request.safety with
  | none => pure db
  | some safety => do
    ensure (safety.documentEpoch ≤ i64Max && safety.workspaceVersion ≤ i64Max)
      (.integrity "value exceeds PostgreSQL BIGINT")
    (Papers.insertPaperVersion db id ⟨request.paperTeamId,request.workspaceId,safety.documentEpoch,
      Queue.nextVersionNumber db.queue request.workspaceId,.frontMatterUpdate,actor,
      safety.workspaceVersion,safety.snapshotId,safety.manifest,safety.stateHash⟩).mapError statementError

/-! ## Managed files -/

def inManagedRoot (path : LogicalPath) : Bool := Papers.managedPrefix.isPrefixOf path.text.toList

def managedFiles (db : Papers.Db) (workspaceId : WorkspaceId) : List (LogicalPath × Uuid) :=
  ((Papers.liveFiles db workspaceId).filter (fun row => inManagedRoot row.2.path)).map
    (fun row => (row.2.path,row.1))

def hiddenSystem (db : Papers.Db) (row : LogicalPath × Uuid) : Bool :=
  db.policies.get? row.2 = some .hiddenSystem

/-- The managed files that the request does not have are deleted. -/
def removeStale (requested : List LogicalPath) :
    List (LogicalPath × Uuid) → Papers.Db → Papers.Db × List WorkspaceOperationV1
  | [],db => (db,[])
  | (path,fileId) :: rest,db =>
    if requested.contains path then removeStale requested rest db
    else
      let (db,operations) := removeStale requested rest (Papers.tombstoneFile db fileId)
      (db,.deleteFile path :: operations)

def hideFile (db : Papers.Db) (fileId : Uuid) : Papers.Db :=
  { db with policies := db.policies.upsert fileId .hiddenSystem }

def placeFile (workspaceId : WorkspaceId) (fresh : Uuid) (byPath : List (LogicalPath × Uuid))
    (file : ManagedFrontMatterFile) (db : Papers.Db) :
    Except FrontMatterRepositoryError (List (LogicalPath × Uuid) × Papers.Db) := do
  ensure (inManagedRoot file.path) (.integrity "render escaped managed subtree")
  ensure (file.sizeBytes.toNat ≤ i64Max) (.integrity "value exceeds PostgreSQL BIGINT")
  match byPath.find? (fun row => row.1 = file.path) with
  | some row => pure (byPath.filter (fun other => other.1 ≠ file.path),hideFile (Papers.bumpFile db row.2) row.2)
  | none => do
    let db ← (Papers.insertFile db fresh workspaceId file.path
      (.database "paper_files_live_workspace_path_unique_idx")).mapError statementError
    pure (byPath,hideFile db fresh)

def placeFiles (workspaceId : WorkspaceId) (fresh : ℕ → Uuid) :
    ℕ → List (LogicalPath × Uuid) → List ManagedFrontMatterFile → Papers.Db →
      Except FrontMatterRepositoryError Papers.Db
  | _,_,[],db => pure db
  | n,byPath,file :: rest,db => do
    let (byPath,db) ← placeFile workspaceId (fresh n) byPath file db
    placeFiles workspaceId fresh (n + 1) byPath rest db

def putManaged (file : ManagedFrontMatterFile) : WorkspaceOperationV1 :=
  .putFile file.path file.blobHash file.sizeBytes

/-! ## Values and sections -/

/-- `INSERT INTO paper_front_matter_pins`, or the update of the row that is there. -/
def upsertPin (db : Papers.Db) (paperId : Uuid) (pin : FrontMatterPin) : Except V2Error Papers.Db := do
  ensure (db.frontMatterPacks.contains pin.frontMatterPackId)
    (.database "paper_front_matter_pins_front_matter_pack_id_fkey")
  ensure (pin.dominantProgrammeCode.all db.programmes.contains)
    (.database "paper_front_matter_pins_dominant_programme_code_fkey")
  ensure (Papers.resolutionMethods.contains pin.resolutionMethod)
    (.database "paper_front_matter_resolution_method")
  pure { db with frontMatterPins := db.frontMatterPins.upsert paperId pin }

def insertValues (actor : UserId) (paperId : Uuid) :
    List FrontMatterValueRecord → Papers.Db → Except V2Error Papers.Db
  | [],db => pure db
  | value :: rest,db => do
    Papers.keyLength value.fieldKey "paper_front_matter_field_key_length"
    ensure (Papers.valueSources.contains value.valueSource) (.database "paper_front_matter_value_source")
    let values ← require (db.frontMatterValues.insert? (paperId,value.fieldKey)
      ⟨value.valueJson,value.valueSource,actor⟩) (.database "paper_front_matter_values_pkey")
    insertValues actor paperId rest { db with frontMatterValues := values }

def insertSections (actor : UserId) (paperId : Uuid) :
    List (String × Bool) → Papers.Db → Except V2Error Papers.Db
  | [],db => pure db
  | (key,enabled) :: rest,db => do
    Papers.keyLength key "paper_front_matter_section_key_length"
    let sections ← require (db.frontMatterSections.insert? (paperId,key) (enabled,actor))
      (.database "paper_front_matter_sections_pkey")
    insertSections actor paperId rest { db with frontMatterSections := sections }

def deleteValues (db : Papers.Db) (paperId : Uuid) : Papers.Db :=
  { db with frontMatterValues := db.frontMatterValues.deleteWhere (fun key _ => key.1 == paperId) }

def deleteSections (db : Papers.Db) (paperId : Uuid) : Papers.Db :=
  { db with frontMatterSections := db.frontMatterSections.deleteWhere (fun key _ => key.1 == paperId) }

def storeFrontMatter (actor : UserId) (request : ApplyFrontMatterRequest) (db : Papers.Db) :
    Except V2Error Papers.Db := do
  let db ← upsertPin db request.paperTeamId ⟨request.packId,request.dominantProgrammeCode,
    request.resolutionMethod,actor,"READY",.arr [],none⟩
  let db ← insertValues actor request.paperTeamId request.values (deleteValues db request.paperTeamId)
  insertSections actor request.paperTeamId request.sections.toList (deleteSections db request.paperTeamId)

/-! ## The apply -/

def applyRender (compatible : Uuid → Bool) (actor : UserId) (request : ApplyFrontMatterRequest)
    (fresh : FreshRender) (db : Papers.Db) : Except FrontMatterRepositoryError (Papers.Db × ℕ) := do
  requireFrontMatterEditor db actor request.paperTeamId
  teamWorkspace compatible db request.paperTeamId request.workspaceId
  let head ← require (db.store.heads.get? request.workspaceId) (.database "workspace_heads")
  ensure (head.durableVersion = request.expectedWorkspaceVersion) .versionConflict
  let db ← recordSafety actor request fresh.version db
  let existing := managedFiles db request.workspaceId
  ensure (existing.all (hiddenSystem db))
    (.integrity "managed Front Matter subtree contains a non-system file")
  let requested := request.files.map (·.path)
  let (db,deletions) := removeStale requested existing db
  let db ← placeFiles request.workspaceId fresh.file 0 existing request.files db
  ensure (head.durableVersion < i64Max) (.integrity "workspace version overflow")
  let store ← (Papers.insertNextEvent db.store request.workspaceId actor head
    (deletions ++ request.files.map putManaged)).mapError statementError
  let db ← (storeFrontMatter actor request { db with store := store }).mapError statementError
  pure (db,head.durableVersion + 1)

/-! ## Renderings of a team -/

/-- What the server renders with; a pack never changes once its rows and blobs are there. -/
structure FrontMatterService where
  codec : Codec
  readManifest : Bytes → Option FrontMatterManifest
  packFiles : Uuid → Option (List ImportedFile)
  /-- `front_matter_compatible` of a template. -/
  compatible : Uuid → Bool

/-- What a request or a refresh asks to render. -/
structure RenderInputs where
  packId : Uuid
  overrides : StringMap Value
  sections : StringMap Bool
  resolutionMethod : String
  dominantProgrammeCode : Option String

section Service
variable (service : FrontMatterService)

def loadFrontMatterPack (packId : Uuid) : Except Response ValidatedPack := do
  let files ← require (service.packFiles packId) ⟨500,"blob storage failure"⟩
  (validateArchive service.readManifest ⟨files,none⟩).mapError (fun error => ⟨409,error.display⟩)

/-- The blobs of the rendered files; those before a failure stay. -/
def putRendered (codec : Codec) :
    List RenderedFile → Store → Store × Except BlobStoreError (List ManagedFrontMatterFile)
  | [],s => (s,.ok [])
  | file :: rest,s =>
    match writeVerified codec s (codec.sha256 file.bytes) file.bytes with
    | .error error => (s,.error error)
    | .ok (s,stored) =>
      let (s,files) := putRendered codec rest s
      (s,files.map (⟨file.path,stored.hash,stored.sizeBytes⟩ :: ·))

def valueRecord (entry : String × ResolvedValue) : FrontMatterValueRecord :=
  ⟨entry.1,entry.2.value,entry.2.source⟩

/-- The transaction of a rendering, over an exact state captured before it. -/
def applyRendered (actor : UserId) (paperId : Uuid) (inputs : RenderInputs) (rendered : RenderedPack)
    (files : List ManagedFrontMatterFile) (fresh : FreshRender) (db : Papers.Db) :
    Papers.Db × Except Response ℕ :=
  match db.paperTeams.get? paperId with
  | none => (db,.error ⟨404,"Paper Team was not found"⟩)
  | some team =>
    match Papers.captureExactV2State service.codec paperId team.workspaceId db with
    | (db,.error error) => (db,.error error)
    | (db,.ok exact) =>
      match applyRender service.compatible actor ⟨paperId,team.workspaceId,exact.workspaceVersion,
          inputs.packId,inputs.dominantProgrammeCode,inputs.resolutionMethod,files,
          rendered.resolved.toList.map valueRecord,rendered.enabledSections,some exact⟩ fresh db with
      | .error error => (db,.error (repositoryResponse error))
      | .ok (db,version) => (db,.ok version)

def renderTeamFrontMatter (actor : UserId) (paperId : Uuid) (inputs : RenderInputs)
    (automatic : Except Response (StringMap Value)) (fresh : FreshRender) (db : Papers.Db) :
    Papers.Db × Except Response ℕ :=
  let rendering : Except Response RenderedPack := do
    let pack ← loadFrontMatterPack service inputs.packId
    let automatic ← automatic
    (resolveAndRender pack automatic inputs.overrides inputs.sections).mapError renderResponse
  match rendering with
  | .error error => (db,.error error)
  | .ok rendered =>
    match putRendered service.codec rendered.files db.store with
    | (store,.error _) => ({ db with store := store },.error ⟨500,"Front Matter blob storage failed"⟩)
    | (store,.ok files) =>
      applyRendered service actor paperId inputs rendered files fresh { db with store := store }

/-! ## Refreshes -/

/-- The part of `team_detail` that a refresh reads. -/
def teamDetail (db : Papers.Db) (actor : UserId) (paperId : Uuid) :
    Except FrontMatterRepositoryError Value := do
  ensure ((db.paperTeams.get? paperId).isSome && (db.roles.get? actor = some .admin ||
    (db.members.get? (paperId,actor)).isSome)) .notFound
  let pin := db.frontMatterPins.get? paperId
  pure (.obj [("pack_id",(pin.map (fun pin => Papers.idToValue pin.frontMatterPackId)).getD .null),
    ("resolution_method",Papers.optionToValue (pin.map (·.resolutionMethod))),
    ("dominant_programme_code",Papers.optionToValue (pin.bind (·.dominantProgrammeCode))),
    ("values",.arr ((Papers.sectionRows db.frontMatterValues paperId).map (fun row =>
      .obj [("field_key",.str row.1),("value",row.2.valueJson),("value_source",.str row.2.valueSource)]))),
    ("sections",.arr ((Papers.sectionRows db.frontMatterSections paperId).map (fun row =>
      .obj [("section_key",.str row.1),("enabled",.bool row.2.1)])))])

def isTeamOverride (value : Value) : Bool :=
  (value.get? "value_source").bind Value.asStr? = some "TEAM_OVERRIDE"

def overrideOf (value : Value) : Option (String × Value) := do
  let key ← (value.get? "field_key").bind Value.asStr?
  let content ← value.get? "value"
  pure (key,content)

def sectionOf (value : Value) : Option (String × Bool) := do
  let key ← (value.get? "section_key").bind Value.asStr?
  let enabled ← (value.get? "enabled").bind Value.asBool?
  pure (key,enabled)

/-- What a refresh renders: the values that the team has chosen and all the sections. -/
def refreshInputs (detail : Value) : Option RenderInputs := do
  let packId ← (detail.get? "pack_id").bind Papers.idFromValue
  pure {
    packId := packId
    overrides := ExtTreeMap.ofList (((Papers.elements detail "values").filter isTeamOverride).filterMap overrideOf)
    sections := ExtTreeMap.ofList ((Papers.elements detail "sections").filterMap sectionOf)
    resolutionMethod :=
      ((detail.get? "resolution_method").bind Value.asStr?).getD "MANUAL_OVERRIDE"
    dominantProgrammeCode := (detail.get? "dominant_programme_code").bind Value.asStr? }

/-- `refresh_existing_front_matter`; a team without a pack has nothing to refresh. -/
def refreshExistingFrontMatter (actor : UserId) (paperId : Uuid)
    (automatic : Except Response (StringMap Value)) (fresh : FreshRender) (db : Papers.Db) :
    Papers.Db × Bool :=
  match teamDetail db actor paperId with
  | .error _ => (db,false)
  | .ok detail =>
    match refreshInputs detail with
    | none => (db,true)
    | some inputs =>
      match renderTeamFrontMatter service actor paperId inputs automatic fresh db with
      | (db,.error _) => (db,false)
      | (db,.ok _) => (db,true)

end Service

end LatexCore.FrontMatter
