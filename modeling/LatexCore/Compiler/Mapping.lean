import LatexCore.Builds.SingleFlight
import LatexCore.Compiler.SyncTex

/-! # SyncTeX answers

The review page asks where a source line is on the page, or which source line a place on
the page comes from. The answer names a file, found by path suffix in the list of the
paper's files, and a build, read after the artifact. The file is the right one exactly
when no file that a suffix matches stands before it, and the build exactly when the
artifact's build is still the current one at the second read.
-/
namespace LatexCore.Compiler
open Core Foundation Queue Workspace Builds

structure SynctexInput (F : Type) where
  direction : String
  fileId : Option Uuid
  line : Option ℕ
  column : Option ℕ
  page : Option ℕ
  x : Option F
  y : Option F

structure MappingAnswer (F : Type) where
  mappingStatus : String
  buildId : Option Uuid
  artifactId : Option ArtifactId
  page : ℕ
  x : F
  y : F
  width : F
  height : F
  mappedFileId : Option Uuid
  mappedPath : Option LogicalPath
  mappedLine : ℕ
  mappedColumn : ℕ

inductive SynctexRejection
  | badRequest (message : String)
  | notFound (message : String)
deriving DecidableEq

inductive SynctexResponse (F : Type)
  | refused (error : V2Error)
  | rejected (rejection : SynctexRejection)
  | fallback (status : String) (buildId : Option Uuid) (artifactId : Option ArtifactId)
  | mapped (answer : MappingAnswer F)

/-- `current_v2_artifact` once the actor has access. -/
def currentArtifact (queue : Queue.Db) (workspaceId : WorkspaceId) (kind : ArtifactKind) :
    Option (ArtifactId × Artifact) := do
  let scheduler ← queue.schedulers.get? workspaceId
  let id ← scheduler.currentBuildId
  let build ← queue.builds.get? id
  queue.artifacts.best (fun _ a => a.jobId == build.compileJobId && a.kind == kind)
    (fun a b => decide (a.2.logicalName < b.2.logicalName))

/-- `current_build_id` of the build view. -/
def currentBuildId (queue : Queue.Db) (workspaceId : WorkspaceId) : Option Uuid :=
  (queue.schedulers.get? workspaceId).bind Scheduler.currentBuildId

/-- What a request finds besides the queue: access at its two reads, the stored artifacts as
texts, and the visible files in the order of the database. -/
structure MappingWorld where
  workspaceId : WorkspaceId
  artifactAccess : Bool
  viewAccess : Except V2Error Unit
  unpack : BlobHash → Option (List Char)
  files : Except V2Error (List (Uuid × LogicalPath))

section Mapping
variable {F : Type} (floats : FloatDistance F)

/-- The search that the direction asks for. -/
def locate (index : List (SyncTexLocation F)) (files : List (Uuid × LogicalPath)) (input : SynctexInput F) :
    Except SynctexRejection (Option (SyncTexLocation F)) :=
  if input.direction = "FORWARD" then
    match input.fileId with
    | none => .error (.badRequest "FORWARD mapping requires file_id")
    | some fileId =>
      match files.find? (fun file => file.1 = fileId) with
      | none => .error (.notFound "source file not found")
      | some file => .ok (forward index file.2.text.toList (input.line.getD 1) (input.column.getD 0))
  else if input.direction = "INVERSE" then
    .ok (inverse floats index (input.page.getD 0) (input.x.getD floats.nan) (input.y.getD floats.nan))
  else .error (.badRequest "direction must be FORWARD or INVERSE")

def mappedFile (files : List (Uuid × LogicalPath)) (location : SyncTexLocation F) :
    Option (Uuid × LogicalPath) :=
  files.find? (fun file => pathMatches location.sourcePath file.2.text.toList)

def answerOf (files : List (Uuid × LogicalPath)) (buildId : Option Uuid) (artifactId : ArtifactId)
    (location : SyncTexLocation F) : MappingAnswer F where
  mappingStatus := if location.exact then "EXACT" else "APPROXIMATE"
  buildId := buildId
  artifactId := some artifactId
  page := location.page
  x := location.x
  y := location.y
  width := location.width
  height := location.height
  mappedFileId := (mappedFile files location).map Prod.fst
  mappedPath := (mappedFile files location).map Prod.snd
  mappedLine := location.line
  mappedColumn := location.column

/-- `synctex_mapping` of a paper that the actor may review; `first` is the database when the
artifact is read and `second` when the build is. -/
def synctexMapping (world : MappingWorld) (first second : Queue.Db) (input : SynctexInput F) :
    SynctexResponse F :=
  match if world.artifactAccess then currentArtifact first world.workspaceId .synctex else none with
  | none => .fallback "PDF_ONLY" none none
  | some (artifactId,artifact) =>
    match world.unpack artifact.blobHash with
    | none => .fallback "PDF_ONLY" none none
    | some text =>
      match world.files with
      | .error error => .refused error
      | .ok files =>
        match world.viewAccess with
        | .error error => .refused error
        | .ok () =>
          let buildId := currentBuildId second world.workspaceId
          match locate floats (fromText floats.toFloats text) files input with
          | .error rejection => .rejected rejection
          | .ok none => .fallback "PDF_ONLY" buildId (some artifactId)
          | .ok (some location) =>
            if input.direction = "INVERSE" ∧ (mappedFile files location).isNone then
              .fallback "PDF_ONLY" buildId (some artifactId)
            else .mapped (answerOf files buildId artifactId location)

end Mapping

/-! ## The file -/

/-- A path that the location of the other also matches: it follows a separator of that path, or
repeats it below a folder `work`. -/
def Shadows (other path : LogicalPath) : Prop :=
  (∃ folder, path.text.toList = folder ++ '/' :: other.text.toList) ∨
    other.text.toList = "work/".toList ++ path.text.toList

def Unshadowed (files : List (Uuid × LogicalPath)) (path : LogicalPath) : Prop :=
  ∀ pre file post, files = pre ++ file :: post → Shadows file.2 path → ∃ own ∈ pre, own.2 = path

theorem pathMatches_iff {artifact requested : List Char} : pathMatches artifact requested = true ↔
    artifact = requested ∨ ∃ folder, artifact = folder ++ '/' :: requested := by
  have hsuffix : ((stripSuffix requested artifact).map (·.getLast? == some '/')).getD false = true ↔
      ∃ folder, artifact = folder ++ '/' :: requested := by
    cases hstrip : stripSuffix requested artifact with
    | none =>
      simp only [Option.map_none,Option.getD_none,Bool.false_eq_true,false_iff,not_exists]
      intro folder hartifact
      have hsome : stripSuffix requested artifact = some (folder ++ ['/']) :=
        stripSuffix_eq_some.mpr (by simp [hartifact])
      rw [hstrip] at hsome
      cases hsome
    | some rest =>
      have hartifact := stripSuffix_eq_some.mp hstrip
      simp only [Option.map_some,Option.getD_some,beq_iff_eq,List.getLast?_eq_some_iff]
      constructor
      · rintro ⟨folder,rfl⟩
        exact ⟨folder,by simp [hartifact]⟩
      · rintro ⟨folder,hfolder⟩
        rw [hartifact,← List.singleton_append,← List.append_assoc] at hfolder
        exact ⟨folder,List.append_cancel_right hfolder⟩
  simp [pathMatches,hsuffix]

theorem LogicalPath.head_ne (path : LogicalPath) : path.text.toList.head? ≠ some '/' := by
  have hparsed := path.parsed
  simp only [checkPath,bind_ok,ensure_ok,decide_eq_true_eq] at hparsed
  obtain ⟨_,_,_,_,_,habsolute,_⟩ := hparsed
  exact habsolute

theorem work_split {folder rest : List Char} (h : "/work/".toList = folder ++ '/' :: rest) :
    rest = "work/".toList ∨ rest = [] := by
  have hwork : "/work/".toList = ['/','w','o','r','k','/'] := by decide
  rw [hwork] at h
  have hplaces : folder = [] ∧ rest = ['w','o','r','k','/'] ∨ folder = ['/','w','o','r','k'] ∧ rest = [] := by
    simpa [List.cons_eq_append_iff] using h
  rcases hplaces with ⟨-,rfl⟩ | ⟨-,rfl⟩
  · exact .inl (by decide)
  · exact .inr rfl

theorem input_matches_iff {other path : LogicalPath} :
    pathMatches (inputOf path) other.text.toList = true ↔ other = path ∨ Shadows other path := by
  rw [pathMatches_iff]
  change "/work/".toList ++ path.text.toList = other.text.toList ∨
    (∃ folder, "/work/".toList ++ path.text.toList = folder ++ '/' :: other.text.toList) ↔ _
  constructor
  · rintro (hsame | ⟨folder,hfolder⟩)
    · exact absurd (by rw [← hsame]; rfl) (LogicalPath.head_ne other)
    · rcases List.append_eq_append_iff.mp hfolder with ⟨between,hwork,hrest⟩ | ⟨between,hwork,hrest⟩
      · exact .inr (.inl ⟨between,hrest⟩)
      · cases between with
        | nil => exact absurd (by rw [← List.nil_append path.text.toList,← hrest]; rfl) (LogicalPath.head_ne path)
        | cons c between =>
          obtain ⟨rfl,hother⟩ := List.cons.inj hrest
          rcases work_split hwork with rfl | rfl
          · exact .inr (.inr hother)
          · exact .inl (LogicalPath.text_injective (String.toList_injective hother))
  · rintro (rfl | ⟨folder,hfolder⟩ | hother)
    · exact .inr ⟨"/work".toList,rfl⟩
    · exact .inr ⟨"/work/".toList ++ folder,by rw [hfolder,List.append_assoc]⟩
    · exact .inr ⟨[],by rw [hother]; rfl⟩

theorem Shadows.ne {other path : LogicalPath} (h : Shadows other path) : other ≠ path := by
  rintro rfl
  rcases h with ⟨folder,hfolder⟩ | hother
  · have hlength := congrArg List.length hfolder
    simp only [List.length_append,List.length_cons] at hlength
    omega
  · have hlength := congrArg List.length hother
    simp only [List.length_append] at hlength
    have hwork : "work/".toList.length = 5 := by decide
    omega

variable {F : Type} {files : List (Uuid × LogicalPath)} {location : SyncTexLocation F} {path : LogicalPath}

theorem mappedFile_exact_iff (hlocation : location.sourcePath = inputOf path) :
    (∀ file, mappedFile files location = some file → file.2 = path) ↔ Unshadowed files path := by
  rw [mappedFile,find_satisfies_iff (P := fun file : Uuid × LogicalPath => file.2 = path),hlocation]
  constructor
  · intro h pre file post hsplit hshadows
    obtain ⟨own,hown,-,hpath⟩ := h pre file post hsplit (input_matches_iff.mpr (.inr hshadows)) hshadows.ne
    exact ⟨own,hown,hpath⟩
  · intro h pre file post hsplit hmatch hne
    rcases input_matches_iff.mp hmatch with hsame | hshadows
    · exact absurd hsame hne
    · obtain ⟨own,hown,hpath⟩ := h pre file post hsplit hshadows
      exact ⟨own,hown,input_matches_iff.mpr (.inl hpath),hpath⟩

/-! ## The location -/

def ProjectInputs (floats : Floats F) (text : List Char) : Prop :=
  ∀ tag sourcePath, (readText floats text).inputs tag = some sourcePath →
    ∃ path : LogicalPath, sourcePath = inputOf path

theorem inputOf_injective {path other : LogicalPath} (h : inputOf path = inputOf other) : path = other :=
  LogicalPath.text_injective (String.toList_injective (List.append_cancel_left h))

theorem fromText_sourcePath {floats : Floats F} {text : List Char} (hinputs : ProjectInputs floats text)
    (h : location ∈ fromText floats text) : ∃ path, location.sourcePath = inputOf path := by
  obtain ⟨record,-,hrecord⟩ := List.mem_filterMap.mp h
  simp only [Reading.locate,Option.bind_eq_bind,Option.bind_eq_some_iff,Option.pure_def] at hrecord
  obtain ⟨sourcePath,hsource,hlocation⟩ := hrecord
  obtain rfl := Option.some.inj hlocation
  exact hinputs record.tag sourcePath hsource

theorem forward_sourcePath {index : List (SyncTexLocation F)} {sourcePath : List Char} {line column : ℕ}
    (h : forward index sourcePath line column = some location) :
    ∃ own ∈ index, location.sourcePath = own.sourcePath := by
  simp only [forward,Option.bind_eq_bind,Option.bind_eq_some_iff,Option.pure_def] at h
  obtain ⟨own,hown,hlocation⟩ := h
  obtain rfl := Option.some.inj hlocation
  exact ⟨own,(List.mem_filter.mp (List.argmin_mem hown)).1,rfl⟩

theorem inverse_sourcePath {floats : FloatDistance F} {index : List (SyncTexLocation F)} {page : ℕ} {x y : F}
    (h : inverse floats index page x y = some location) :
    ∃ own ∈ index, location.sourcePath = own.sourcePath := by
  simp only [inverse,Option.bind_eq_bind,Option.bind_eq_some_iff,Option.pure_def] at h
  obtain ⟨own,hown,hlocation⟩ := h
  obtain rfl := Option.some.inj hlocation
  exact ⟨own,(List.mem_filter.mp (minBy_mem hown)).1,rfl⟩

/-- Both searches answer from the index. -/
theorem locate_sourcePath {floats : FloatDistance F} {index : List (SyncTexLocation F)} {input : SynctexInput F}
    (h : locate floats index files input = .ok (some location)) :
    ∃ own ∈ index, location.sourcePath = own.sourcePath := by
  unfold locate at h
  split at h
  · split at h
    · cases h
    · split at h
      · cases h
      · exact forward_sourcePath (Except.ok.inj h)
  · split at h
    · exact inverse_sourcePath (Except.ok.inj h)
    · cases h

/-! ## The answer -/

/-- What an answer is about: the artifact of the first read, the visible files and the location
that the search in the artifact gives. -/
structure Found (floats : FloatDistance F) (world : MappingWorld) (first : Queue.Db) (input : SynctexInput F)
    (artifact : ArtifactId × Artifact) (files : List (Uuid × LogicalPath)) (location : SyncTexLocation F) :
    Prop where
  current : currentArtifact first world.workspaceId .synctex = some artifact
  listed : world.files = .ok files
  located : ∃ text, world.unpack artifact.2.blobHash = some text ∧
    locate floats (fromText floats.toFloats text) files input = .ok (some location)

/-- The mapped file, if there is one, is the file of the location, and the build is that of the
artifact. -/
structure Right (first : Queue.Db) (artifact : ArtifactId × Artifact) (files : List (Uuid × LogicalPath))
    (location : SyncTexLocation F) (answer : MappingAnswer F) : Prop where
  sameFile : ∀ fileId, answer.mappedFileId = some fileId → ∃ path, answer.mappedPath = some path ∧
    (fileId,path) ∈ files ∧ inputOf path = location.sourcePath
  sameArtifact : answer.artifactId = some artifact.1
  sameBuild : ∃ build row, answer.buildId = some build ∧ buildOf first artifact.2.jobId = some (build,row)

theorem synctexMapping_mapped {floats : FloatDistance F} {world : MappingWorld} {first second : Queue.Db}
    {input : SynctexInput F} {answer : MappingAnswer F}
    (h : synctexMapping floats world first second input = .mapped answer) :
    ∃ artifact files location, Found floats world first input artifact files location ∧
      answer = answerOf files (currentBuildId second world.workspaceId) artifact.1 location := by
  unfold synctexMapping at h
  split at h
  · cases h
  next artifactId artifact hartifact =>
  split at h
  · cases h
  next text htext =>
  split at h
  · cases h
  next files hfiles =>
  split at h
  · cases h
  dsimp only at h
  split at h
  · cases h
  · cases h
  next location hlocated =>
  split at h
  · cases h
  have hcurrent : currentArtifact first world.workspaceId .synctex = some (artifactId,artifact) := by
    split at hartifact
    · exact hartifact
    · cases hartifact
  exact ⟨(artifactId,artifact),files,location,⟨hcurrent,hfiles,text,htext,hlocated⟩,
    (SynctexResponse.mapped.inj h).symm⟩

theorem currentArtifact_build {db : Queue.Db} {workspaceId : WorkspaceId} {kind : ArtifactKind}
    {artifact : ArtifactId × Artifact} (hc : Consistent db)
    (h : currentArtifact db workspaceId kind = some artifact) :
    ∃ build row, currentBuildId db workspaceId = some build ∧ buildOf db artifact.2.jobId = some (build,row) := by
  simp only [currentArtifact,Option.bind_eq_bind,Option.bind_eq_some_iff] at h
  obtain ⟨scheduler,hscheduler,build,hcurrent,row,hrow,hbest⟩ := h
  obtain ⟨-,hjob⟩ := Table.best_mem hbest
  simp only [Bool.and_eq_true,beq_iff_eq] at hjob
  have hkeyed := hc.keyed build row hrow
  have hbuild : currentBuildId db workspaceId = some build := by
    simp [currentBuildId,hscheduler,hcurrent]
  cases hof : buildOf db artifact.2.jobId with
  | none => exact absurd hjob.1.symm (buildOf_none hof hrow)
  | some found =>
    obtain ⟨id,other⟩ := found
    obtain ⟨hother,hsame⟩ := buildOf_some hof
    have hid : id = build := by
      rw [← hc.keyed id other hother,hsame,hjob.1,hkeyed]
    subst hid
    exact ⟨id,other,hbuild,rfl⟩

/-- A mapped answer names the right file and the right build exactly when no file of the list
shadows the one of the location and the current build is the same at both reads. -/
theorem mapping_right_iff (limits : QueueLimits) {start : Queue.Db} (hstart : Unscheduled start)
    (before between : List QueueOp) {floats : FloatDistance F} {world : MappingWorld} {input : SynctexInput F}
    {answer : MappingAnswer F}
    (hinputs : ∀ blob text, world.unpack blob = some text → ProjectInputs floats.toFloats text)
    (h : synctexMapping floats world (run (step limits) start before)
      (run (step limits) start (before ++ between)) input = .mapped answer) :
    ∃ artifact files location path,
      Found floats world (run (step limits) start before) input artifact files location ∧
      location.sourcePath = inputOf path ∧
      (Right (run (step limits) start before) artifact files location answer ↔
        Unshadowed files path ∧
          currentBuildId (run (step limits) start (before ++ between)) world.workspaceId =
            currentBuildId (run (step limits) start before) world.workspaceId) := by
  obtain ⟨artifact,files,location,hfound,rfl⟩ := synctexMapping_mapped h
  obtain ⟨text,htext,hlocated⟩ := hfound.located
  obtain ⟨own,hown,hsource⟩ := locate_sourcePath hlocated
  obtain ⟨path,hpath⟩ := fromText_sourcePath (hinputs _ text htext) hown
  have hlocation : location.sourcePath = inputOf path := hsource.trans hpath
  have hconsistent := consistent_run limits hstart before
  obtain ⟨build,row,hbuild,hof⟩ := currentArtifact_build hconsistent hfound.current
  refine ⟨artifact,files,location,path,hfound,hlocation,?_⟩
  rw [← mappedFile_exact_iff hlocation,hbuild]
  constructor
  · intro hright
    refine ⟨fun file hfile => ?_,?_⟩
    · obtain ⟨found,hmapped,-,hsame⟩ := hright.sameFile file.1 (by simp [answerOf,hfile])
      simp only [answerOf,hfile,Option.map_some,Option.some.injEq] at hmapped
      rw [hmapped]
      exact inputOf_injective (hsame.trans hlocation)
    · obtain ⟨other,row',hcurrent,hother⟩ := hright.sameBuild
      rw [hof] at hother
      obtain ⟨rfl,-⟩ := Prod.mk.inj (Option.some.inj hother)
      exact hcurrent
  · rintro ⟨hfile,hcurrent⟩
    refine ⟨?_,rfl,build,row,hcurrent,hof⟩
    intro fileId hmapped
    obtain ⟨file,hfound',rfl⟩ := Option.map_eq_some_iff.mp hmapped
    refine ⟨file.2,by simp [answerOf,hfound'],List.mem_of_find?_eq_some hfound',?_⟩
    rw [hfile file hfound',hlocation]

/-! ## Two files of one name -/

def exactDistance : FloatDistance ℚ where
  toFloats := exactFloats
  nan := 0
  sub := (· - ·)
  mulAdd := fun a b c => a * b + c
  totalCmp := compare

def subMainTex : LogicalPath := ⟨"sub/main.tex",by decide⟩

/-- The artifact of a project with `main.tex` and `sub/main.tex` and one box of the latter. -/
def subText : List Char :=
  ("Input:1:/work/main.tex\nInput:2:/work/sub/main.tex\nContent:\n\x7b1\n" ++
    "[2,7:6578176,13156352:6578176,657817,0\n\x7d\n").toList

def sampleWorld (files : List (Uuid × LogicalPath)) : MappingWorld :=
  ⟨1,true,.ok (),fun _ => some subText,.ok files⟩

/-- A paper with a succeeded build, and a second build of another state. -/
def firstBuild : List QueueOp :=
  [sampleSubmit zeroDigest 1 0,.claim 5 [] (sampleClock 1),sampleSuccess 1 5 50 2]

def secondBuild : List QueueOp :=
  [sampleSubmit oneDigest 3 3,.claim 5 [] (sampleClock 4),sampleSuccess 3 5 60 5]

/-- Forward search from line 7 of `sub/main.tex`. -/
def sampleInput : SynctexInput ℚ := ⟨"FORWARD",some 20,some 7,some 0,none,none,none⟩

def SynctexResponse.about {F : Type} : SynctexResponse F → Option (Option Uuid × Option LogicalPath × Option Uuid)
  | .mapped answer => some (answer.mappedFileId,answer.mappedPath,answer.buildId)
  | _ => none

theorem mapped_of_about {F : Type} {response : SynctexResponse F} {file : Option Uuid}
    {path : Option LogicalPath} {build : Option Uuid} (h : response.about = some (file,path,build)) :
    ∃ answer, response = .mapped answer ∧ answer.mappedFileId = file ∧ answer.mappedPath = path ∧
      answer.buildId = build := by
  cases response with
  | mapped answer =>
    simp only [SynctexResponse.about,Option.some.injEq,Prod.mk.injEq] at h
    exact ⟨answer,rfl,h⟩
  | refused | rejected | fallback => cases h

theorem subText_inputs : ProjectInputs exactFloats subText := by
  have hinputs : (readText exactFloats subText).inputs =
      Function.update (Function.update (fun _ => none) 1 (some (inputOf mainTex))) 2
        (some (inputOf subMainTex)) := rfl
  intro tag sourcePath h
  rw [hinputs] at h
  by_cases h2 : tag = 2
  · rw [h2,Function.update_self] at h
    exact ⟨subMainTex,(Option.some.inj h).symm⟩
  rw [Function.update_of_ne h2] at h
  by_cases h1 : tag = 1
  · rw [h1,Function.update_self] at h
    exact ⟨mainTex,(Option.some.inj h).symm⟩
  rw [Function.update_of_ne h1] at h
  cases h

theorem sampleWorld_inputs (files : List (Uuid × LogicalPath)) (blob : BlobHash) (text : List Char)
    (h : (sampleWorld files).unpack blob = some text) : ProjectInputs exactDistance.toFloats text := by
  obtain rfl := Option.some.inj h
  exact subText_inputs

theorem sample_sourcePath {listed : List (Uuid × LogicalPath)} {first : Queue.Db}
    {artifact : ArtifactId × Artifact} {files : List (Uuid × LogicalPath)} {location : SyncTexLocation ℚ}
    (h : Found exactDistance (sampleWorld listed) first sampleInput artifact files location)
    (hlisted : listed = [(10,mainTex),(20,subMainTex)] ∨ listed = [(20,subMainTex),(10,mainTex)]) :
    location.sourcePath = inputOf subMainTex := by
  obtain ⟨text,htext,hlocated⟩ := h.located
  obtain rfl := Option.some.inj htext
  obtain rfl := Except.ok.inj h.listed
  have hsource : (((locate exactDistance (fromText exactFloats subText) listed sampleInput).toOption.bind id).map
      (·.sourcePath)) = some (inputOf subMainTex) := by
    rcases hlisted with rfl | rfl
    · decide +kernel
    · decide +kernel
  have hsame : locate exactDistance (fromText exactFloats subText) listed sampleInput = .ok (some location) := hlocated
  rw [hsame] at hsource
  exact Option.some.inj hsource

/-- With `sub/main.tex` first and no promotion the answer is right. -/
theorem mapping_right_sub : ∃ answer artifact files location,
    synctexMapping exactDistance (sampleWorld [(20,subMainTex),(10,mainTex)])
      (run (step sampleLimits) .empty firstBuild) (run (step sampleLimits) .empty (firstBuild ++ [])) sampleInput =
        .mapped answer ∧
    Right (run (step sampleLimits) .empty firstBuild) artifact files location answer := by
  have habout : (synctexMapping exactDistance (sampleWorld [(20,subMainTex),(10,mainTex)])
      (run (step sampleLimits) .empty firstBuild) (run (step sampleLimits) .empty (firstBuild ++ []))
      sampleInput).about = some (some 20,some subMainTex,some 1) := by decide +kernel
  obtain ⟨answer,hanswer,-⟩ := mapped_of_about habout
  obtain ⟨artifact,files,location,path,hfound,hpath,hright⟩ :=
    mapping_right_iff sampleLimits unscheduled_empty firstBuild [] (sampleWorld_inputs _) hanswer
  obtain rfl := Except.ok.inj hfound.listed
  have hsub : path = subMainTex := inputOf_injective (hpath.symm.trans (sample_sourcePath hfound (.inr rfl)))
  refine ⟨answer,artifact,_,location,hanswer,hright.mpr ⟨?_,rfl⟩⟩
  rintro pre file post hsplit hshadows
  cases pre with
  | nil =>
    obtain ⟨rfl,-⟩ := List.cons.inj hsplit
    exact absurd hsub.symm hshadows.ne
  | cons own pre =>
    obtain ⟨rfl,-⟩ := List.cons.inj hsplit
    exact ⟨_,List.mem_cons_self,hsub.symm⟩

/-- With `main.tex` before `sub/main.tex` the answer names the wrong file, and with a promotion
between the reads the wrong build. -/
theorem mapping_names_other :
    (∃ answer artifact files location,
      synctexMapping exactDistance (sampleWorld [(10,mainTex),(20,subMainTex)])
        (run (step sampleLimits) .empty firstBuild) (run (step sampleLimits) .empty firstBuild) sampleInput =
          .mapped answer ∧
      Found exactDistance (sampleWorld [(10,mainTex),(20,subMainTex)])
        (run (step sampleLimits) .empty firstBuild) sampleInput artifact files location ∧
      ¬∃ path, answer.mappedPath = some path ∧ inputOf path = location.sourcePath) ∧
    ∃ answer artifact files location,
      synctexMapping exactDistance (sampleWorld [(20,subMainTex),(10,mainTex)])
        (run (step sampleLimits) .empty firstBuild)
        (run (step sampleLimits) .empty (firstBuild ++ secondBuild)) sampleInput = .mapped answer ∧
      Found exactDistance (sampleWorld [(20,subMainTex),(10,mainTex)])
        (run (step sampleLimits) .empty firstBuild) sampleInput artifact files location ∧
      ¬∃ build row, answer.buildId = some build ∧
        buildOf (run (step sampleLimits) .empty firstBuild) artifact.2.jobId = some (build,row) := by
  constructor
  · have habout : (synctexMapping exactDistance (sampleWorld [(10,mainTex),(20,subMainTex)])
        (run (step sampleLimits) .empty firstBuild) (run (step sampleLimits) .empty firstBuild)
        sampleInput).about = some (some 10,some mainTex,some 1) := by decide +kernel
    obtain ⟨answer,hanswer,-,hpath,-⟩ := mapped_of_about habout
    obtain ⟨artifact,files,location,hfound,-⟩ := synctexMapping_mapped hanswer
    refine ⟨answer,artifact,files,location,hanswer,hfound,?_⟩
    rintro ⟨path,hmapped,hsame⟩
    rw [hpath] at hmapped
    obtain rfl := Option.some.inj hmapped
    have hsource := sample_sourcePath hfound (.inl rfl)
    rw [← hsame] at hsource
    exact absurd (inputOf_injective hsource) (by decide)
  · have habout : (synctexMapping exactDistance (sampleWorld [(20,subMainTex),(10,mainTex)])
        (run (step sampleLimits) .empty firstBuild)
        (run (step sampleLimits) .empty (firstBuild ++ secondBuild)) sampleInput).about =
          some (some 20,some subMainTex,some 3) := by decide +kernel
    obtain ⟨answer,hanswer,-,-,hbuild⟩ := mapped_of_about habout
    obtain ⟨artifact,files,location,hfound,-⟩ := synctexMapping_mapped hanswer
    refine ⟨answer,artifact,files,location,hanswer,hfound,?_⟩
    rintro ⟨build,row,hanswered,hof⟩
    rw [hbuild] at hanswered
    obtain rfl := Option.some.inj hanswered
    have hnone : (run (step sampleLimits) .empty firstBuild).builds.get? 3 = none := by decide +kernel
    cases (buildOf_some hof).1.symm.trans hnone

end LatexCore.Compiler
