import LatexCore.TexIndex.Environment
import LatexCore.Workspace.Wire

/-! # Canonical bytes of manifests and compile keys

The canonical JSON of a manifest and of the material of a compile key, and what
is hashed of it. Both are decoded back from their bytes, so equal bytes are of
equal values; a manifest and the state read from it are each recovered from the
other.
-/
namespace LatexCore.Workspace
open Core Foundation Std TexIndex

/-! ## Compile keys -/

def engineName : TexEngine → String
  | .latex => "latex"
  | .pdfLatex => "pdflatex"
  | .luaLatex => "lualatex"
  | .xeLatex => "xelatex"

def engineFromName : String → Option TexEngine
  | "latex" => some .latex
  | "pdflatex" => some .pdfLatex
  | "lualatex" => some .luaLatex
  | "xelatex" => some .xeLatex
  | _ => none

@[simp] theorem engineFromName_name (engine : TexEngine) : engineFromName (engineName engine) = some engine := by
  cases engine <;> rfl

def shellPolicyName : ShellPolicy → String
  | .safe => "safe"
  | .restricted => "restricted"
  | .compatibility => "compatibility"

def shellPolicyFromName : String → Option ShellPolicy
  | "safe" => some .safe
  | "restricted" => some .restricted
  | "compatibility" => some .compatibility
  | _ => none

@[simp] theorem shellPolicyFromName_name (policy : ShellPolicy) :
    shellPolicyFromName (shellPolicyName policy) = some policy := by
  cases policy <;> rfl

def profileByte (c : Char) : Bool := c.isLower || c.isDigit || c ∈ ['.','_','-']

def validateLatexmkProfile (value : String) : Except IdentifierError Unit := do
  ensure (1 ≤ value.utf8ByteSize ∧ value.utf8ByteSize ≤ 64) (.invalidLength 1 64 value.utf8ByteSize)
  ensure (isAscii value) .nonAscii
  ensure (value.toList.all profileByte) .invalidCharacter

structure LatexmkProfileId where
  text : String
  validated : validateLatexmkProfile text = .ok ()
deriving DecidableEq

def LatexmkProfileId.parse (value : String) : Except IdentifierError LatexmkProfileId :=
  match h : validateLatexmkProfile value with
  | .ok () => .ok ⟨value,h⟩
  | .error error => .error error

theorem LatexmkProfileId.parse_text (profile : LatexmkProfileId) : parse profile.text = .ok profile := by
  unfold parse
  split
  · rfl
  · next error h =>
    rw [profile.validated] at h
    cases h

theorem environment_parse_text (environment : TexEnvironmentId) :
    TexEnvironmentId.parse environment.text = .ok environment :=
  TexEnvironmentId.parse_of_valid environment.validated

structure CompileKeyMaterialV1 where
  snapshotId : SnapshotId
  engine : TexEngine
  texEnvironmentId : TexEnvironmentId
  latexmkProfile : LatexmkProfileId
  shellPolicy : ShellPolicy
  synctex : Bool
deriving DecidableEq

namespace CompileKeyMaterialV1

def schemaVersion : ℕ := 1

def toValue (material : CompileKeyMaterialV1) : Value :=
  .obj [("schema_version",.ofNat schemaVersion),("snapshot_id",.str material.snapshotId.toHex),
    ("engine",.str (engineName material.engine)),("tex_environment_id",.str material.texEnvironmentId.text),
    ("latexmk_profile",.str material.latexmkProfile.text),
    ("shell_policy",.str (shellPolicyName material.shellPolicy)),("synctex",.bool material.synctex)]

def environmentFromValue (v : Value) : Option TexEnvironmentId :=
  v.asStr?.bind (fun text => (TexEnvironmentId.parse text).toOption)

def profileFromValue (v : Value) : Option LatexmkProfileId :=
  v.asStr?.bind (fun text => (LatexmkProfileId.parse text).toOption)

/-- The `Wire` record, whose schema version is checked after all fields are read. -/
def fromValue (v : Value) : Option CompileKeyMaterialV1 := do
  let version ← field Value.asU32? v "schema_version"
  let snapshotId ← field digestFromValue v "snapshot_id"
  let engine ← (← field stringFromValue v "engine") |> engineFromName
  let texEnvironmentId ← field environmentFromValue v "tex_environment_id"
  let latexmkProfile ← field profileFromValue v "latexmk_profile"
  let shellPolicy ← (← field stringFromValue v "shell_policy") |> shellPolicyFromName
  let synctex ← field Value.asBool? v "synctex"
  if version = schemaVersion then some ⟨snapshotId,engine,texEnvironmentId,latexmkProfile,shellPolicy,synctex⟩
    else none

theorem fromValue_toValue (material : CompileKeyMaterialV1) : fromValue material.toValue = some material := by
  have hversion : (Value.ofNat schemaVersion).asU32? = some schemaVersion := by decide
  have henvironment : environmentFromValue (.str material.texEnvironmentId.text) =
      some material.texEnvironmentId := by
    simp [environmentFromValue,environment_parse_text,Except.toOption]
  have hprofile : profileFromValue (.str material.latexmkProfile.text) = some material.latexmkProfile := by
    simp [profileFromValue,LatexmkProfileId.parse_text,Except.toOption]
  simp [fromValue,toValue,field,stringFromValue,hversion,digestFromValue_str,henvironment,hprofile,
    Value.asBool?]

def canonicalJsonBytes (material : CompileKeyMaterialV1) : Bytes := Json.toVec material.toValue

def fromJsonBytes (bytes : Bytes) : Option CompileKeyMaterialV1 := (Json.fromSlice bytes).bind fromValue

def compileKey (sha256 : Bytes → Digest) (material : CompileKeyMaterialV1) : CompileKey :=
  sha256 material.canonicalJsonBytes

theorem fromJsonBytes_canonicalJsonBytes (material : CompileKeyMaterialV1) :
    fromJsonBytes material.canonicalJsonBytes = some material := by
  rw [fromJsonBytes,canonicalJsonBytes,Json.fromSlice_toVec,Option.bind_some,fromValue_toValue]

end CompileKeyMaterialV1

/-! ## Manifests -/

namespace WorkspaceManifestV1

def canonicalJsonBytes (manifest : WorkspaceManifestV1) : Bytes := Json.toVec manifest.toValue

def fromJsonBytes (bytes : Bytes) : Option WorkspaceManifestV1 := (Json.fromSlice bytes).bind fromValue

def snapshotId (sha256 : Bytes → Digest) (manifest : WorkspaceManifestV1) : SnapshotId :=
  sha256 manifest.canonicalJsonBytes

theorem fromJsonBytes_canonicalJsonBytes (manifest : WorkspaceManifestV1) :
    fromJsonBytes manifest.canonicalJsonBytes = some manifest := by
  rw [fromJsonBytes,canonicalJsonBytes,Json.fromSlice_toVec,Option.bind_some,fromValue_toValue]

end WorkspaceManifestV1

theorem hashed_iff {α : Type} {encode : α → Bytes} {decode : Bytes → Option α}
    (hround : ∀ a, decode (encode a) = some a) {sha256 : Bytes → Digest} {a b : α}
    (hfree : Set.InjOn sha256 {encode a,encode b}) : sha256 (encode a) = sha256 (encode b) ↔ a = b := by
  constructor
  · intro h
    have hbytes : encode a = encode b := hfree (by simp) (by simp) h
    have hdecoded : decode (encode a) = decode (encode b) := congrArg decode hbytes
    rw [hround,hround] at hdecoded
    exact Option.some.inj hdecoded
  · rintro rfl
    rfl

/-! ## States -/

namespace WorkspaceState

/-- The states that the constructors and mutations build. -/
inductive Built : WorkspaceState → Prop
  | empty (workspaceId : WorkspaceId) : Built (.empty workspaceId)
  | fromManifest (workspaceId : WorkspaceId) (version : WorkspaceVersion) (manifest : WorkspaceManifestV1)
    {state : WorkspaceState} (h : fromManifest workspaceId version manifest = .ok state) : Built state
  | apply {state next : WorkspaceState} (mutation : WorkspaceMutationV1) (expected : WorkspaceVersion)
    (hstate : Built state) (h : state.apply mutation expected = .ok next) : Built next

theorem Built.valid {state : WorkspaceState} (h : state.Built) : state.Valid := by
  cases h with
  | empty workspaceId => exact empty_valid workspaceId
  | fromManifest workspaceId version manifest h =>
    simp only [WorkspaceState.fromManifest,bind_ok,pure_ok] at h
    obtain ⟨_,hvalid,rfl⟩ := h
    exact validate_ok.mp hvalid
  | apply mutation expected _ h =>
    simp only [WorkspaceState.apply,bind_ok,pure_ok] at h
    obtain ⟨_,_,candidate,_,_,hvalid,version,_,rfl⟩ := h
    exact validate_ok.mp hvalid

theorem toManifest_fromManifest (workspaceId : WorkspaceId) (version : WorkspaceVersion)
    (manifest : WorkspaceManifestV1) : ∃ state, fromManifest workspaceId version manifest = .ok state ∧
      state.toManifest = .ok manifest := by
  have hvalid : Valid ⟨workspaceId,version,some manifest.mainFile,
      manifest.files.map (fun _ entry => ⟨entry.blobHash,entry.sizeBytes⟩)⟩ := by
    intro main hmain
    cases hmain
    simpa using manifest.mainPresent
  have hfiles : (manifest.files.map (fun _ entry =>
      (⟨entry.blobHash,entry.sizeBytes⟩ : WorkspaceFile))).map (fun _ file =>
      (⟨file.blobHash,file.sizeBytes⟩ : FileEntryV1)) = manifest.files := by
    apply ExtTreeMap.ext_getElem?
    intro path
    rw [ExtTreeMap.getElem?_map,ExtTreeMap.getElem?_map,Option.map_map]
    cases manifest.files[path]? <;> rfl
  have hnew : WorkspaceManifestV1.new manifest.mainFile manifest.files = .ok manifest := by
    rw [WorkspaceManifestV1.new,dif_pos manifest.nonempty,dif_pos manifest.mainPresent]
  refine ⟨⟨workspaceId,version,some manifest.mainFile,
    manifest.files.map (fun _ entry => ⟨entry.blobHash,entry.sizeBytes⟩)⟩,?_,?_⟩
  · simp only [fromManifest,bind_ok,pure_ok]
    exact ⟨(),validate_ok.mpr hvalid,trivial⟩
  · simp only [toManifest,bind_ok,require_ok,mapError_ok]
    refine ⟨(),validate_ok.mpr hvalid,manifest.mainFile,rfl,?_⟩
    rw [hfiles]
    exact hnew

theorem recovered_of_built {state : WorkspaceState} (h : state.Built) {main : LogicalPath}
    (hmain : state.mainFile = some main) : ∃ manifest, state.toManifest = .ok manifest ∧
      fromManifest state.workspaceId state.version manifest = .ok state := by
  have hcontains := h.valid main hmain
  have hmember : (state.files.map (fun _ file =>
      (⟨file.blobHash,file.sizeBytes⟩ : FileEntryV1))).contains main = true := by
    simpa using hcontains
  have hempty : (state.files.map (fun _ file =>
      (⟨file.blobHash,file.sizeBytes⟩ : FileEntryV1))).isEmpty = false := by
    cases hcase : (state.files.map (fun _ file =>
        (⟨file.blobHash,file.sizeBytes⟩ : FileEntryV1))).isEmpty with
    | false => rfl
    | true =>
      rw [ExtTreeMap.isEmpty_iff.mp hcase] at hmember
      simp at hmember
  have hmanifest : state.toManifest = .ok ⟨main,_,hempty,hmember⟩ := by
    simp only [toManifest,bind_ok,require_ok,mapError_ok]
    refine ⟨(),validate_ok.mpr h.valid,main,hmain,?_⟩
    rw [WorkspaceManifestV1.new,dif_pos hempty,dif_pos hmember]
  exact ⟨_,hmanifest,fromManifest_toManifest hmanifest⟩

end WorkspaceState

/-- Canonical bytes determine what they are of, so do their hashes without a collision, and states and
manifests are read back from each other. -/
theorem canonical_forms (sha256 : Bytes → Digest) :
    (∀ manifest, WorkspaceManifestV1.fromJsonBytes manifest.canonicalJsonBytes = some manifest) ∧
    (∀ a b : WorkspaceManifestV1, a.canonicalJsonBytes = b.canonicalJsonBytes → a = b) ∧
    (∀ workspaceId version manifest, ∃ state,
      WorkspaceState.fromManifest workspaceId version manifest = .ok state ∧ state.toManifest = .ok manifest) ∧
    (∀ state : WorkspaceState, state.Built → state.mainFile.isSome = true → ∃ manifest,
      state.toManifest = .ok manifest ∧
        WorkspaceState.fromManifest state.workspaceId state.version manifest = .ok state) ∧
    (∀ a b : CompileKeyMaterialV1, a.canonicalJsonBytes = b.canonicalJsonBytes → a = b) ∧
    (∀ a b : WorkspaceManifestV1, Set.InjOn sha256 {a.canonicalJsonBytes,b.canonicalJsonBytes} →
      (a.snapshotId sha256 = b.snapshotId sha256 ↔ a = b)) ∧
    (∀ a b : CompileKeyMaterialV1, Set.InjOn sha256 {a.canonicalJsonBytes,b.canonicalJsonBytes} →
      (a.compileKey sha256 = b.compileKey sha256 ↔ a = b)) := by
  refine ⟨WorkspaceManifestV1.fromJsonBytes_canonicalJsonBytes,?_,WorkspaceState.toManifest_fromManifest,?_,?_,?_,?_⟩
  · intro a b h
    have hdecoded := congrArg WorkspaceManifestV1.fromJsonBytes h
    rw [WorkspaceManifestV1.fromJsonBytes_canonicalJsonBytes,
      WorkspaceManifestV1.fromJsonBytes_canonicalJsonBytes] at hdecoded
    exact Option.some.inj hdecoded
  · intro state hbuilt hsome
    obtain ⟨main,hmain⟩ := Option.isSome_iff_exists.mp hsome
    exact WorkspaceState.recovered_of_built hbuilt hmain
  · intro a b h
    have hdecoded := congrArg CompileKeyMaterialV1.fromJsonBytes h
    rw [CompileKeyMaterialV1.fromJsonBytes_canonicalJsonBytes,
      CompileKeyMaterialV1.fromJsonBytes_canonicalJsonBytes] at hdecoded
    exact Option.some.inj hdecoded
  · exact fun a b hfree => hashed_iff WorkspaceManifestV1.fromJsonBytes_canonicalJsonBytes hfree
  · exact fun a b hfree => hashed_iff CompileKeyMaterialV1.fromJsonBytes_canonicalJsonBytes hfree

/-! ## A quoted name -/

def quotedPath : LogicalPath := ⟨"été \"v1\".tex",by decide +kernel⟩

/-- A project of one file whose name has quotes and letters beyond ASCII. -/
def quotedManifest (size : UInt64) : WorkspaceManifestV1 where
  mainFile := quotedPath
  files := ExtTreeMap.ofList [(quotedPath,(⟨sampleDigest,size⟩ : FileEntryV1))]
  nonempty := by simp [ExtTreeMap.ofList_singleton]
  mainPresent := by simp [ExtTreeMap.ofList_singleton]

/-- SHA-256 of the two texts that are told apart here. -/
def quotedSha (bytes : Bytes) : Digest :=
  if bytes = (quotedManifest 7).canonicalJsonBytes then
    ⟨"be85d0402d73bd818bdf60f2af2156495e5abfe214c4266a784d8d7fbb78df90",by decide⟩
  else ⟨"3ca1d1d3d22bd00afd5a297da780f82d72a05b39c27ad7558e1d8c0f3bb44e7e",by decide⟩

theorem quoted_manifests_differ :
    (quotedManifest 7).snapshotId quotedSha ≠ (quotedManifest 10).snapshotId quotedSha ∧
      ∃ state, WorkspaceState.fromManifest 1 0 (quotedManifest 7) = .ok state ∧
        ∃ manifest, state.toManifest = .ok manifest ∧ WorkspaceState.fromManifest 1 0 manifest = .ok state := by
  have hne : quotedManifest 7 ≠ quotedManifest 10 := by
    intro h
    have hfiles := congrArg (fun m => (m.files[quotedPath]?).map FileEntryV1.sizeBytes) h
    simp [quotedManifest,ExtTreeMap.ofList_singleton] at hfiles
  have hbytes : (quotedManifest 7).canonicalJsonBytes ≠ (quotedManifest 10).canonicalJsonBytes :=
    fun h => hne ((canonical_forms quotedSha).2.1 _ _ h)
  have hfree : Set.InjOn quotedSha {(quotedManifest 7).canonicalJsonBytes,(quotedManifest 10).canonicalJsonBytes} := by
    rw [Set.injOn_pair]
    intro h
    rw [quotedSha,if_pos rfl,quotedSha,if_neg hbytes.symm] at h
    exact absurd h (by decide)
  obtain ⟨state,hstate,-⟩ := (canonical_forms quotedSha).2.2.1 1 0 (quotedManifest 7)
  have hbuilt : state.Built := .fromManifest 1 0 (quotedManifest 7) hstate
  have hfields : state.workspaceId = 1 ∧ state.version = 0 ∧ state.mainFile.isSome = true := by
    simp only [WorkspaceState.fromManifest,bind_ok,pure_ok] at hstate
    obtain ⟨_,_,rfl⟩ := hstate
    exact ⟨rfl,rfl,rfl⟩
  obtain ⟨hid,hversion,hmain⟩ := hfields
  have hread := (canonical_forms quotedSha).2.2.2.1 state hbuilt hmain
  rw [hid,hversion] at hread
  refine ⟨?_,state,hstate,hread⟩
  intro h
  exact hne (((canonical_forms quotedSha).2.2.2.2.2.1 _ _ hfree).mp h)

end LatexCore.Workspace
