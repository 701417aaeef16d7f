import LatexCore.TexIndex.Wire
import Mathlib.Data.List.Sort
import Mathlib.Data.Set.Function

/-! # Environment ids

The environment id of an index names the year and the hash of the identity
material. Two indexes have the same id exactly when their materials are the same,
and those are the same exactly when the release, the tools, the configuration
files and the contents of each package are.

The identity material of an index keeps what affects the output: the release, the
tools, the configuration files and the contents of each package. The environment
id is the hash of its canonical JSON, and an index is read back from its own
canonical JSON. SHA-256 is a parameter that does not collide on the materials
compared.
-/
namespace LatexCore.TexIndex
open Core Foundation Std

/-! ## The identity of an environment -/

abbrev Bytes := List UInt8

/-! ## Canonical JSON of the index -/

namespace TexEnvironmentIndexV1

def toValue (x : TexEnvironmentIndexV1) : Value :=
  .obj [("schema_version",.ofNat x.schemaVersion),("release",x.release.toValue),
    ("packages",mapToValue id TexLivePackage.toValue x.packages),
    ("tools",mapToValue TexToolKind.name TexToolRecord.toValue x.tools),
    ("config_files",mapToValue id TexConfigRecord.toValue x.configFiles)]

def canonicalJsonBytes (x : TexEnvironmentIndexV1) : Bytes := Json.toVec x.toValue

/-- The `Deserialize` of the index: the fields, the version and the constructor. -/
def fromValue (v : Value) : Option TexEnvironmentIndexV1 := do
  let schemaVersion ← field Value.asU32? v "schema_version"
  let release ← field TexLiveRelease.fromValue v "release"
  let packages ← field (mapFromValue some TexLivePackage.fromValue) v "packages"
  let tools ← field (mapFromValue TexToolKind.fromName TexToolRecord.fromValue) v "tools"
  let configFiles ← field (mapFromValue some TexConfigRecord.fromValue) v "config_files"
  if schemaVersion ≠ 1 then none else (new release packages tools configFiles).toOption

/-- The texts of the JSON library's own errors are left out. -/
def fromJsonBytes (bytes : Bytes) : Except TexIndexError TexEnvironmentIndexV1 := do
  let value ← require (Json.fromSlice bytes) (.serialization "")
  let schema ← require ((value.get? "schema_version").bind Value.asU64?)
    (.serialization "missing schema_version")
  ensure (schema = 1) (.unsupportedSchema (min schema (2 ^ 32 - 1)))
  require (fromValue value) (.serialization "")

theorem fromValue_toValue {x : TexEnvironmentIndexV1} (h : x.Kept) : fromValue x.toValue = some x := by
  have hschema : x.toValue.field? "schema_version" = some (.ofNat 1) := by simp [toValue,h.schema]
  have hrelease : x.toValue.field? "release" = some x.release.toValue := by simp [toValue]
  have hpackages : x.toValue.field? "packages" =
      some (mapToValue id TexLivePackage.toValue x.packages) := by simp [toValue]
  have htools : x.toValue.field? "tools" =
      some (mapToValue TexToolKind.name TexToolRecord.toValue x.tools) := by simp [toValue]
  have hconfig : x.toValue.field? "config_files" =
      some (mapToValue id TexConfigRecord.toValue x.configFiles) := by simp [toValue]
  have hone : (Value.ofNat 1).asU32? = some 1 := by decide
  rw [fromValue,field_eq hschema,field_eq hrelease,field_eq hpackages,field_eq htools,
    field_eq hconfig,hone,TexLiveRelease.fromValue_toValue,
    namedFromValue_toValue TexLivePackage.fromValue_toValue,
    mapFromValue_toValue TexToolKind.fromName_name TexToolRecord.fromValue_toValue,
    namedFromValue_toValue TexConfigRecord.fromValue_toValue]
  simp [h.new,Except.toOption]

theorem fromJsonBytes_canonicalJsonBytes {x : TexEnvironmentIndexV1} (h : x.Kept) :
    fromJsonBytes x.canonicalJsonBytes = .ok x := by
  have hschema : x.toValue.get? "schema_version" = some (.ofNat 1) := by
    simp [toValue,h.schema]
  have hone : (Value.ofNat 1).asU64? = some 1 := by decide
  simp only [fromJsonBytes,bind_ok,require_ok,ensure_ok,decide_eq_true_eq]
  refine ⟨x.toValue,Json.fromSlice_toVec _,1,?_,(),rfl,fromValue_toValue h⟩
  rw [hschema,Option.bind_some,hone]

end TexEnvironmentIndexV1

/-! ## Identity material -/

structure IdentityPackageV1 where
  name : String
  revision : UInt64
  files : List (String × String)
deriving DecidableEq

structure TexEnvironmentIdentityV1 where
  schemaVersion : ℕ
  releaseYear : UInt16
  platform : String
  packages : List IdentityPackageV1
  tools : Tools
  configFiles : ConfigFiles

def fileToValue (file : String × String) : Value := .arr [.str file.1,.str file.2]

def IdentityPackageV1.toValue (package : IdentityPackageV1) : Value :=
  .obj [("name",.str package.name),("revision",.ofNat package.revision.toNat),
    ("files",.arr (package.files.map fileToValue))]

def TexEnvironmentIdentityV1.toValue (material : TexEnvironmentIdentityV1) : Value :=
  .obj [("schema_version",.ofNat material.schemaVersion),
    ("release_year",.ofNat material.releaseYear.toNat),("platform",.str material.platform),
    ("packages",.arr (material.packages.map IdentityPackageV1.toValue)),
    ("tools",mapToValue TexToolKind.name TexToolRecord.toValue material.tools),
    ("config_files",mapToValue id TexConfigRecord.toValue material.configFiles)]

def TexEnvironmentIdentityV1.canonicalJsonBytes (material : TexEnvironmentIdentityV1) : Bytes :=
  Json.toVec material.toValue

def TexLivePackage.contents (package : TexLivePackage) : List (String × String) :=
  package.runtimeFiles.map (fun file => (file.relativePath,file.sha256))

def TexLivePackage.identity (package : TexLivePackage) : IdentityPackageV1 :=
  ⟨package.name,package.revision,package.contents⟩

def TexEnvironmentIndexV1.identityMaterial (x : TexEnvironmentIndexV1) : TexEnvironmentIdentityV1 where
  schemaVersion := 1
  releaseYear := x.release.year
  platform := x.release.platform
  packages := x.packages.toList.map (fun entry => entry.2.identity)
  tools := x.tools
  configFiles := x.configFiles

theorem ofNat_injective {m n : ℕ} (h : Value.ofNat m = Value.ofNat n) : m = n := by
  simpa [Value.ofNat] using h

theorem fileToValue_injective : Function.Injective fileToValue := by
  intro a b h
  simp only [fileToValue,Value.arr.injEq,List.cons.injEq,Value.str.injEq,and_true] at h
  exact Prod.ext h.1 h.2

theorem IdentityPackageV1.toValue_injective : Function.Injective IdentityPackageV1.toValue := by
  intro a b h
  simp only [IdentityPackageV1.toValue,Value.obj.injEq,List.cons.injEq,Prod.mk.injEq,true_and,and_true,
    Value.str.injEq,Value.arr.injEq] at h
  obtain ⟨hname,hrevision,hfiles⟩ := h
  cases a
  cases b
  rw [IdentityPackageV1.mk.injEq]
  exact ⟨hname,UInt64.toNat_inj.mp (ofNat_injective hrevision),
    fileToValue_injective.list_map hfiles⟩

theorem TexEnvironmentIdentityV1.toValue_injective : Function.Injective TexEnvironmentIdentityV1.toValue := by
  intro a b h
  simp only [TexEnvironmentIdentityV1.toValue,Value.obj.injEq,List.cons.injEq,Prod.mk.injEq,true_and,
    and_true,Value.str.injEq,Value.arr.injEq] at h
  obtain ⟨hschema,hyear,hplatform,hpackages,htools,hconfig⟩ := h
  cases a
  cases b
  rw [TexEnvironmentIdentityV1.mk.injEq]
  exact ⟨ofNat_injective hschema,UInt16.toNat_inj.mp (ofNat_injective hyear),hplatform,
    IdentityPackageV1.toValue_injective.list_map hpackages,
    mapToValue_injective TexToolKind.fromName_name TexToolRecord.fromValue_toValue htools,
    namedToValue_injective TexConfigRecord.fromValue_toValue hconfig⟩

theorem TexEnvironmentIdentityV1.canonicalJsonBytes_injective :
    Function.Injective TexEnvironmentIdentityV1.canonicalJsonBytes := by
  intro a b h
  have hvalue : Json.fromSlice a.canonicalJsonBytes = Json.fromSlice b.canonicalJsonBytes :=
    congrArg Json.fromSlice h
  rw [TexEnvironmentIdentityV1.canonicalJsonBytes,TexEnvironmentIdentityV1.canonicalJsonBytes,
    Json.fromSlice_toVec,Json.fromSlice_toVec] at hvalue
  exact TexEnvironmentIdentityV1.toValue_injective (Option.some.inj hvalue)

/-! ## Environment ids -/

inductive IdentifierError
  | invalidLength (min max actual : ℕ)
  | nonAscii
  | invalidCharacter
deriving DecidableEq

/-- The bytes that an environment id may have. -/
def environmentByte (c : Char) : Bool := c.isAlphanum || c ∈ ['.','_','-',':','@','+']

def validateTexEnvironment (value : String) : Except IdentifierError Unit := do
  ensure (1 ≤ value.utf8ByteSize ∧ value.utf8ByteSize ≤ 128) (.invalidLength 1 128 value.utf8ByteSize)
  ensure (isAscii value) .nonAscii
  ensure (value.toList.all environmentByte) .invalidCharacter

structure TexEnvironmentId where
  text : String
  validated : validateTexEnvironment text = .ok ()
deriving DecidableEq

def TexEnvironmentId.parse (value : String) : Except IdentifierError TexEnvironmentId :=
  match h : validateTexEnvironment value with
  | .ok () => .ok ⟨value,h⟩
  | .error error => .error error

theorem TexEnvironmentId.parse_ok {value : String} {i : TexEnvironmentId} (h : parse value = .ok i) :
    i.text = value := by
  unfold parse at h
  split at h
  · cases h
    rfl
  · cases h

theorem TexEnvironmentId.parse_of_valid {value : String} (h : validateTexEnvironment value = .ok ()) :
    parse value = .ok ⟨value,h⟩ := by
  unfold parse
  split
  · rfl
  · next error herror =>
    rw [h] at herror
    cases herror

theorem TexEnvironmentId.text_injective {i j : TexEnvironmentId} (h : i.text = j.text) : i = j := by
  cases i
  cases j
  cases h
  rfl

variable (sha256 : Bytes → Digest)

/-- `texlive-{year}-sha256-{hash}`. -/
def environmentText (year : UInt16) (hash : Digest) : String :=
  String.ofList ("texlive-".toList ++ Nat.toDigits 10 year.toNat ++ "-sha256-".toList ++ hash.toHex.toList)

namespace TexEnvironmentIndexV1

def environmentId (x : TexEnvironmentIndexV1) : Except TexIndexError TexEnvironmentId :=
  let hash := sha256 x.identityMaterial.canonicalJsonBytes
  (TexEnvironmentId.parse (environmentText x.release.year hash)).mapError
    (fun _ => .internalInvariant "invalid identifier")

end TexEnvironmentIndexV1

variable {sha256}

theorem toHex_length (hash : Digest) : hash.toHex.toList.length = 64 := by
  have h := hash.parsed
  simp only [isDigestText,Bool.and_eq_true,beq_iff_eq] at h
  exact h.1

theorem environmentText_hash {year year' : UInt16} {hash hash' : Digest}
    (h : environmentText year hash = environmentText year' hash') : hash = hash' := by
  have hlist := String.ofList_injective h
  have htail := List.append_inj_right' hlist ((toHex_length hash).trans (toHex_length hash').symm)
  cases hash
  cases hash'
  rw [Digest.mk.injEq]
  exact String.toList_injective htail

/-- Equal ids are equal materials, unless the hash collides on them. -/
theorem environmentId_eq_iff {x y : TexEnvironmentIndexV1} {i j : TexEnvironmentId}
    (hsha : Set.InjOn sha256 {x.identityMaterial.canonicalJsonBytes,y.identityMaterial.canonicalJsonBytes})
    (hi : x.environmentId sha256 = .ok i) (hj : y.environmentId sha256 = .ok j) :
    i = j ↔ x.identityMaterial = y.identityMaterial := by
  rw [TexEnvironmentIndexV1.environmentId,mapError_ok] at hi hj
  constructor
  · rintro rfl
    have htext : environmentText x.release.year (sha256 x.identityMaterial.canonicalJsonBytes) =
        environmentText y.release.year (sha256 y.identityMaterial.canonicalJsonBytes) :=
      (TexEnvironmentId.parse_ok hi).symm.trans (TexEnvironmentId.parse_ok hj)
    have hbytes := hsha (Or.inl rfl) (Or.inr rfl) (environmentText_hash htext)
    exact TexEnvironmentIdentityV1.canonicalJsonBytes_injective hbytes
  · intro h
    have hyear : x.release.year = y.release.year := congrArg TexEnvironmentIdentityV1.releaseYear h
    apply TexEnvironmentId.text_injective
    rw [TexEnvironmentId.parse_ok hi,TexEnvironmentId.parse_ok hj,h,hyear]

/-! ## What the material keeps -/

def TexLivePackage.key (package : TexLivePackage) : String × UInt64 × Set (String × String) :=
  (package.name,package.revision,{file | file ∈ package.contents})

/-- The parts of two indexes that affect the output are the same. -/
structure SameIdentity (x y : TexEnvironmentIndexV1) : Prop where
  year : x.release.year = y.release.year
  platform : x.release.platform = y.release.platform
  tools : x.tools = y.tools
  configFiles : x.configFiles = y.configFiles
  packages : ∀ name : String,
    (x.packages[name]?).map TexLivePackage.key = (y.packages[name]?).map TexLivePackage.key

theorem compare_swap (a b : String) : compare a b = (compare b a).swap := OrientedCmp.eq_swap

theorem compare_antisymm {a b : String} (hab : (compare a b).isLE = true)
    (hba : (compare b a).isLE = true) : a = b := by
  have heq : compare a b = .eq := by
    rw [compare_swap b a] at hba
    revert hab hba
    cases compare a b <;> simp
  exact LawfulEqCmp.eq_of_compare heq

theorem pathAtMost_trans (a b c : IndexedTexFile) (hab : pathAtMost a b = true)
    (hbc : pathAtMost b c = true) : pathAtMost a c = true :=
  TransCmp.isLE_trans hab hbc

theorem pathAtMost_total (a b : IndexedTexFile) : (pathAtMost a b || pathAtMost b a) = true := by
  unfold pathAtMost
  rw [compare_swap b.relativePath a.relativePath]
  cases compare a.relativePath b.relativePath <;> rfl

structure Sorted (package : TexLivePackage) : Prop where
  ordered : package.contents.Pairwise (fun a b => (compare a.1 b.1).isLE = true)
  distinct : (package.contents.map Prod.fst).Nodup

theorem TexLivePackage.Built.sorted {package : TexLivePackage} (h : package.Built) : Sorted package := by
  obtain ⟨name,category,revision,version,license,files,_,hdistinct,hnew⟩ := h
  simp only [TexLivePackage.new,bind_ok,ensure_ok,decide_eq_true_eq,pure_ok] at hnew
  obtain ⟨_,_,rfl⟩ := hnew
  constructor
  · rw [TexLivePackage.contents,List.pairwise_map]
    exact List.pairwise_mergeSort pathAtMost_trans pathAtMost_total files
  · rw [TexLivePackage.contents,List.map_map]
    exact ((List.mergeSort_perm files pathAtMost).map IndexedTexFile.relativePath).nodup_iff.mpr hdistinct

theorem contents_eq_of_set {p q : TexLivePackage} (hp : Sorted p) (hq : Sorted q)
    (h : ∀ file, file ∈ p.contents ↔ file ∈ q.contents) : p.contents = q.contents := by
  have hperm : p.contents.Perm q.contents :=
    (List.perm_ext_iff_of_nodup (List.Nodup.of_map _ hp.distinct)
      (List.Nodup.of_map _ hq.distinct)).mpr h
  refine List.Perm.eq_of_pairwise ?_ hp.ordered hq.ordered hperm
  intro a b ha hb hab hba
  exact List.inj_on_of_nodup_map hp.distinct ha ((h b).mpr hb) (compare_antisymm hab hba)

theorem identity_eq_iff {p q : TexLivePackage} (hp : Sorted p) (hq : Sorted q) :
    p.identity = q.identity ↔ p.key = q.key := by
  simp only [TexLivePackage.identity,TexLivePackage.key,IdentityPackageV1.mk.injEq,Prod.mk.injEq]
  constructor
  · rintro ⟨hname,hrevision,hcontents⟩
    exact ⟨hname,hrevision,by rw [hcontents]⟩
  · rintro ⟨hname,hrevision,hset⟩
    exact ⟨hname,hrevision,contents_eq_of_set hp hq (fun file => Set.ext_iff.mp hset file)⟩

def TexEnvironmentIndexV1.identities (x : TexEnvironmentIndexV1) : ExtTreeMap String IdentityPackageV1 :=
  x.packages.map (fun _ package => package.identity)

theorem material_packages (x : TexEnvironmentIndexV1) :
    x.identityMaterial.packages = x.identities.toList.map Prod.snd := by
  rw [TexEnvironmentIndexV1.identities,ExtTreeMap.toList_map,List.map_map]
  rfl

theorem identities_toList {x : TexEnvironmentIndexV1} (h : x.Kept) :
    x.identities.toList = x.identityMaterial.packages.map (fun package => (package.name,package)) := by
  rw [material_packages,List.map_map]
  conv_lhs => rw [← List.map_id x.identities.toList]
  apply List.map_congr_left
  rintro ⟨name,package⟩ hentry
  rw [ExtTreeMap.mem_toList_iff_getElem?_eq_some,TexEnvironmentIndexV1.identities,
    ExtTreeMap.getElem?_map] at hentry
  obtain ⟨found,hfound,rfl⟩ := Option.map_eq_some_iff.mp hentry
  have hname : found.name = name := h.package_name hfound
  exact Prod.ext hname.symm rfl

theorem identities_eq_iff {x y : TexEnvironmentIndexV1} (hx : x.Kept) (hy : y.Kept) :
    x.identityMaterial.packages = y.identityMaterial.packages ↔ x.identities = y.identities := by
  constructor
  · intro h
    have hlist : x.identities.toList = y.identities.toList := by
      rw [identities_toList hx,identities_toList hy,h]
    have hx' := ofList_of_perm (List.Perm.refl x.identities.toList)
    rw [hlist,ofList_of_perm (List.Perm.refl y.identities.toList)] at hx'
    exact hx'.symm
  · intro h
    rw [material_packages,material_packages,h]

theorem map_identity_iff {p q : Option TexLivePackage} (hp : ∀ package ∈ p, Sorted package)
    (hq : ∀ package ∈ q, Sorted package) :
    p.map TexLivePackage.identity = q.map TexLivePackage.identity ↔
      p.map TexLivePackage.key = q.map TexLivePackage.key := by
  cases p with
  | none => cases q <;> simp
  | some p =>
    cases q with
    | none => simp
    | some q =>
      rw [Option.map_some,Option.map_some,Option.map_some,Option.map_some,Option.some.injEq,
        Option.some.injEq]
      exact identity_eq_iff (hp p rfl) (hq q rfl)

theorem identityMaterial_eq_iff {x y : TexEnvironmentIndexV1} (hx : x.Kept) (hy : y.Kept)
    (hxs : ∀ (name : String) (package : TexLivePackage), x.packages[name]? = some package → Sorted package)
    (hys : ∀ (name : String) (package : TexLivePackage), y.packages[name]? = some package → Sorted package) :
    x.identityMaterial = y.identityMaterial ↔ SameIdentity x y := by
  have hnames : x.identities = y.identities ↔ ∀ name : String,
      (x.packages[name]?).map TexLivePackage.key = (y.packages[name]?).map TexLivePackage.key := by
    have hname (name : String) : x.identities[name]? = y.identities[name]? ↔
        (x.packages[name]?).map TexLivePackage.key = (y.packages[name]?).map TexLivePackage.key := by
      rw [TexEnvironmentIndexV1.identities,TexEnvironmentIndexV1.identities,ExtTreeMap.getElem?_map,
        ExtTreeMap.getElem?_map]
      exact map_identity_iff (fun package hget => hxs name package hget)
        (fun package hget => hys name package hget)
    constructor
    · intro h name
      exact (hname name).mp (by rw [h])
    · intro h
      apply ExtTreeMap.ext_getElem?
      intro name
      exact (hname name).mpr (h name)
  constructor
  · intro h
    exact ⟨congrArg TexEnvironmentIdentityV1.releaseYear h,congrArg TexEnvironmentIdentityV1.platform h,
      congrArg TexEnvironmentIdentityV1.tools h,congrArg TexEnvironmentIdentityV1.configFiles h,
      hnames.mp ((identities_eq_iff hx hy).mp (congrArg TexEnvironmentIdentityV1.packages h))⟩
  · intro h
    have hpackages := (identities_eq_iff hx hy).mpr (hnames.mpr h.packages)
    have hmaterial (z : TexEnvironmentIndexV1) : z.identityMaterial =
        ⟨1,z.release.year,z.release.platform,z.identityMaterial.packages,z.tools,z.configFiles⟩ := rfl
    rw [hmaterial x,hmaterial y,hpackages,h.year,h.platform,h.tools,h.configFiles]

/-! ## The contract -/

/-- An index that some call of its constructor returns, from parts of any origin. -/
def TexEnvironmentIndexV1.Constructed (x : TexEnvironmentIndexV1) : Prop :=
  ∃ (release : TexLiveRelease) (packages : Packages) (tools : Tools) (configFiles : ConfigFiles),
    TexEnvironmentIndexV1.new release packages tools configFiles = .ok x

theorem TexEnvironmentIndexV1.Constructed.kept {x : TexEnvironmentIndexV1} (h : x.Constructed) :
    x.Kept := by
  obtain ⟨release,packages,tools,configFiles,hnew⟩ := h
  exact (TexEnvironmentIndexV1.new_ok hnew).1

theorem TexEnvironmentIndexV1.Built.kept {x : TexEnvironmentIndexV1} (h : x.Built) :
    x.Kept ∧ ∀ (name : String) (package : TexLivePackage), x.packages[name]? = some package →
      Sorted package := by
  obtain ⟨_,_,release,packages,tools,configFiles,_,hpackages,_,_,hnew⟩ := h
  obtain ⟨hkept,_,rfl,_,_⟩ := TexEnvironmentIndexV1.new_ok hnew
  exact ⟨hkept,fun name package hget => (hpackages name package hget).sorted⟩

theorem TexLivePackage.new_of_perm (name category : String) (revision : UInt64)
    (version license : Option String) {files files' : List IndexedTexFile} (h : files.Perm files')
    (hdistinct : (files.map IndexedTexFile.relativePath).Nodup) :
    TexLivePackage.new name category revision version license files =
      TexLivePackage.new name category revision version license files' := by
  have hsorted : files.mergeSort pathAtMost = files'.mergeSort pathAtMost := by
    have hperm := (List.mergeSort_perm files pathAtMost).trans
      (h.trans (List.mergeSort_perm files' pathAtMost).symm)
    refine List.Perm.eq_of_pairwise ?_ (List.pairwise_mergeSort pathAtMost_trans pathAtMost_total files)
      (List.pairwise_mergeSort pathAtMost_trans pathAtMost_total files') hperm
    intro a b ha hb hab hba
    have ha' := (List.mergeSort_perm files pathAtMost).mem_iff.mp ha
    have hb' := h.mem_iff.mpr ((List.mergeSort_perm files' pathAtMost).mem_iff.mp hb)
    exact List.inj_on_of_nodup_map hdistinct ha' hb' (compare_antisymm hab hba)
  rw [TexLivePackage.new,TexLivePackage.new,hsorted]

/-- Built indexes have the same id exactly when what affects the output is the same; the order in
which files and packages are supplied does not matter; and every index is read back from its canonical
JSON. -/
theorem environment_identity (sha256 : Bytes → Digest) :
    (∀ (x y : TexEnvironmentIndexV1) (i j : TexEnvironmentId), x.Built → y.Built →
      Set.InjOn sha256
        {x.identityMaterial.canonicalJsonBytes,y.identityMaterial.canonicalJsonBytes} →
      x.environmentId sha256 = .ok i → y.environmentId sha256 = .ok j →
        (i = j ↔ SameIdentity x y)) ∧
    (∀ (name category : String) (revision : UInt64) (version license : Option String)
      (files files' : List IndexedTexFile), files.Perm files' →
      (files.map IndexedTexFile.relativePath).Nodup →
        TexLivePackage.new name category revision version license files =
          TexLivePackage.new name category revision version license files') ∧
    (∀ (x : TexEnvironmentIndexV1) (entries : List (String × TexLivePackage)), x.Constructed →
      entries.Perm x.packages.toList →
        TexEnvironmentIndexV1.new x.release (ExtTreeMap.ofList entries) x.tools x.configFiles = .ok x) ∧
    ∀ x : TexEnvironmentIndexV1, x.Constructed → ∃ y,
      TexEnvironmentIndexV1.fromJsonBytes x.canonicalJsonBytes = .ok y ∧ y = x ∧
        y.environmentId sha256 = x.environmentId sha256 ∧
        y.canonicalJsonBytes = x.canonicalJsonBytes := by
  refine ⟨?_,?_,?_,?_⟩
  · intro x y i j hx hy hsha hi hj
    rw [environmentId_eq_iff hsha hi hj]
    exact identityMaterial_eq_iff hx.kept.1 hy.kept.1 hx.kept.2 hy.kept.2
  · intro name category revision version license files files' hperm hdistinct
    exact TexLivePackage.new_of_perm name category revision version license hperm hdistinct
  · intro x entries hx hperm
    rw [ofList_of_perm hperm]
    exact hx.kept.new
  · intro x hx
    exact ⟨x,TexEnvironmentIndexV1.fromJsonBytes_canonicalJsonBytes hx.kept,rfl,rfl,rfl⟩

/-! ## Two installations of one package -/

def sampleHash : String := "ba7816bf8f01cfea414140de5dae2223b00361a396177a9cb410ff61f20015ad"

def styleFile (basename : String) : IndexedTexFile :=
  ⟨"tex/" ++ basename,basename,.style,sampleHash⟩

def sampleTool : TexToolRecord := ⟨.latexmk,"Latexmk 4.86\n",sampleHash⟩

def sampleConfig : TexConfigRecord := ⟨"texmf.cnf",sampleHash⟩

def samplePackage (version : Option String) : TexLivePackage :=
  ⟨"amsmath","Package",2,version,none,[styleFile "a.sty",styleFile "b.sty"]⟩

def sampleIndex (version : Option String) : TexEnvironmentIndexV1 where
  schemaVersion := 1
  release := ⟨2026,"x86_64-linux"⟩
  packages := ExtTreeMap.ofList [("amsmath",samplePackage version)]
  tools := ExtTreeMap.ofList [(TexToolKind.latexmk,sampleTool)]
  configFiles := ExtTreeMap.ofList [("texmf.cnf",sampleConfig)]
  filesByBasename := rebuildQueries (ExtTreeMap.ofList [("amsmath",samplePackage version)])

theorem samplePackage_built (version : Option String) : (samplePackage version).Built := by
  refine ⟨"amsmath","Package",2,version,none,[styleFile "b.sty",styleFile "a.sty"],?_,by decide,?_⟩
  · intro file hfile
    rcases List.mem_pair.mp hfile with rfl | rfl
    · exact ⟨"tex/b.sty",sampleHash,by decide +kernel⟩
    · exact ⟨"tex/a.sty",sampleHash,by decide +kernel⟩
  · rw [TexLivePackage.new_of_perm _ _ _ _ _ (List.Perm.swap (styleFile "a.sty") (styleFile "b.sty") [])
      (by decide)]
    have hsorted : [styleFile "a.sty",styleFile "b.sty"].mergeSort pathAtMost =
        [styleFile "a.sty",styleFile "b.sty"] := List.mergeSort_of_pairwise (by decide +kernel)
    rw [TexLivePackage.new,hsorted]
    rfl

theorem get?_single {κ ν : Type} [Ord κ] [TransOrd κ] [LawfulEqOrd κ] {k x : κ} {v w : ν}
    (h : (ExtTreeMap.ofList [(k,v)])[x]? = some w) : k = x ∧ v = w := by
  rw [ExtTreeMap.ofList_singleton,ExtTreeMap.getElem?_insert] at h
  split at h
  · next heq => exact ⟨LawfulEqCmp.eq_of_compare heq,Option.some.inj h⟩
  · simp at h

theorem sampleIndex_built (version : Option String) : (sampleIndex version).Built := by
  refine ⟨2026,"x86_64-linux",_,ExtTreeMap.ofList [("amsmath",samplePackage version)],
    ExtTreeMap.ofList [(TexToolKind.latexmk,sampleTool)],ExtTreeMap.ofList [("texmf.cnf",sampleConfig)],
    rfl,?_,?_,?_,?_⟩
  · intro name package hget
    obtain ⟨_,rfl⟩ := get?_single hget
    exact samplePackage_built version
  · intro kind tool hget
    obtain ⟨_,rfl⟩ := get?_single hget
    exact ⟨.latexmk,"Latexmk 4.86\n",sampleHash,by decide +kernel⟩
  · intro name config hget
    obtain ⟨_,rfl⟩ := get?_single hget
    exact ⟨"texmf.cnf",sampleHash,by decide +kernel⟩
  · simp only [TexEnvironmentIndexV1.new,bind_ok,checkAll_ok,pure_ok]
    refine ⟨(),?_,(),?_,(),?_,rfl⟩
    · rintro ⟨name,package⟩ hentry
      obtain ⟨rfl,rfl⟩ := get?_single (ExtTreeMap.mem_toList_iff_getElem?_eq_some.mp hentry)
      rfl
    · rintro ⟨kind,tool⟩ hentry
      obtain ⟨rfl,rfl⟩ := get?_single (ExtTreeMap.mem_toList_iff_getElem?_eq_some.mp hentry)
      decide +kernel
    · rintro ⟨name,config⟩ hentry
      obtain ⟨rfl,rfl⟩ := get?_single (ExtTreeMap.mem_toList_iff_getElem?_eq_some.mp hentry)
      decide +kernel

/-- SHA-256 of the material of both installations. -/
def sampleDigest : Digest := ⟨"125980d0398a2dd85e7f2ed73a08d0d02c3a6e1dcb6c569a9a36706856effefb",by decide⟩

theorem sampleIndex_material (version : Option String) :
    (sampleIndex version).identityMaterial = (sampleIndex none).identityMaterial := by
  have hpackages (v : Option String) : (sampleIndex v).identityMaterial.packages =
      [(samplePackage none).identity] := by
    have hlist : (ExtTreeMap.ofList [("amsmath",samplePackage v)]).toList = [("amsmath",samplePackage v)] := by
      rfl
    change ((ExtTreeMap.ofList [("amsmath",samplePackage v)]).toList).map (fun entry => entry.2.identity) = _
    rw [hlist]
    rfl
  have hmaterial (v : Option String) : (sampleIndex v).identityMaterial =
      ⟨1,2026,"x86_64-linux",(sampleIndex v).identityMaterial.packages,
        (sampleIndex none).tools,(sampleIndex none).configFiles⟩ := rfl
  rw [hmaterial version,hmaterial none,hpackages,hpackages]

theorem environment_identity_catalogue : ∃ i : TexEnvironmentId,
    (sampleIndex none).environmentId (fun _ => sampleDigest) = .ok i ∧
      (sampleIndex (some "2.17")).environmentId (fun _ => sampleDigest) = .ok i ∧
      SameIdentity (sampleIndex none) (sampleIndex (some "2.17")) := by
  have hvalid : validateTexEnvironment (environmentText 2026 sampleDigest) = .ok () := by
    decide +kernel
  have hid (version : Option String) : (sampleIndex version).environmentId (fun _ => sampleDigest) =
      .ok ⟨_,hvalid⟩ := by
    rw [TexEnvironmentIndexV1.environmentId,mapError_ok]
    exact TexEnvironmentId.parse_of_valid hvalid
  refine ⟨_,hid none,hid (some "2.17"),?_⟩
  refine ((environment_identity (fun _ => sampleDigest)).1 _ _ _ _ (sampleIndex_built none)
    (sampleIndex_built (some "2.17")) ?_ (hid none) (hid (some "2.17"))).mp rfl
  rw [sampleIndex_material (some "2.17"),Set.pair_eq_singleton]
  exact Set.injOn_singleton ..

end LatexCore.TexIndex
