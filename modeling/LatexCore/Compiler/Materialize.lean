import LatexCore.Foundation.FileTree
import LatexCore.Workspace.History
import LatexCore.Workspace.MainPath
import Mathlib.Data.List.Pairwise

/-! # Source directories of a compilation

A worker writes the files of a manifest into an empty directory and makes the
directory of the outputs beside them. The paths of a workspace come from its
mutations one by one, and a file system has room for all of them when none is a
directory of another and none lies where the outputs go.
-/
namespace LatexCore.Compiler
open Core Foundation Workspace Std

inductive BlobStoreError
  | notFound (hash : BlobHash)
  | failed (display : String)

inductive CompilerError
  | snapshotMismatch (requested actual : SnapshotId)
  | missingBlob (hash : BlobHash)
  | blobIntegrityMismatch (expected actual : BlobHash)
  | materialization (expected actual : UInt64)
  | containerInfrastructure (message : String)
  | io (operation : String) (source : IoError)
  | internalInvariant (message : String)

abbrev Blobs := BlobHash → Except BlobStoreError Bytes

abbrev Root := FileTree (List Char) Bytes

def segments (path : LogicalPath) : List (List Char) := path.text.toList.splitOn '/'

variable (codec : Codec) (blobs : Blobs)

def readBlob (entry : FileEntryV1) : Except CompilerError Bytes := do
  let bytes ← match blobs entry.blobHash with
    | .ok bytes => .ok bytes
    | .error (.notFound _) => .error (.missingBlob entry.blobHash)
    | .error (.failed display) => .error (.containerInfrastructure ("blob read failed: " ++ display))
  let actual := codec.sha256 bytes
  ensure (actual = entry.blobHash) (.blobIntegrityMismatch entry.blobHash actual)
  ensure (bytes.length ≤ u64Max) (.internalInvariant "blob length does not fit u64")
  let size := UInt64.ofNat bytes.length
  ensure (size = entry.sizeBytes) (.materialization entry.sizeBytes size)
  pure bytes

/-- One file of the manifest; the permissions are left out. -/
def materializeFile (root : Root) (member : LogicalPath × FileEntryV1) : Except CompilerError Root := do
  let bytes ← readBlob codec blobs member.2
  let destination := segments member.1
  let root ← (root.createDirAll destination.dropLast).mapError (.io "create materialization directory")
  (root.createNew destination bytes).mapError (.io "create materialized regular file")

def materialize (root : Root) (requested : SnapshotId) (manifest : WorkspaceManifestV1) :
    Except CompilerError Root := do
  let actual := manifestSnapshotId codec manifest
  ensure (actual = requested) (.snapshotMismatch requested actual)
  manifest.files.toList.foldlM (materializeFile codec blobs) root

def outputName : List Char := ".latex-core-out".toList

/-- The directory that `compile_with_execution_id` hands to the container. -/
def prepareDirectory (requested : SnapshotId) (manifest : WorkspaceManifestV1) :
    Except CompilerError Root := do
  let root ← materialize codec blobs FileTree.empty requested manifest
  (root.mkdir [outputName]).mapError (.io "create output directory")

/-- The regular files outside the directory of the outputs are those of the manifest. -/
def Materialized (root : Root) (manifest : WorkspaceManifestV1) : Prop :=
  ∀ location bytes, ¬[outputName] <+: location →
    (root location = some (.file bytes) ↔ ∃ path entry, manifest.files[path]? = some entry ∧
      location = segments path ∧ blobs entry.blobHash = .ok bytes)

/-- No path is a directory of another and none lies where the outputs go. -/
structure Materializable (state : WorkspaceState) : Prop where
  apart : ∀ path ∈ state.files, ∀ other ∈ state.files, segments path <+: segments other → path = other
  unreserved : ∀ path ∈ state.files, ¬[outputName] <+: segments path

/-- Every blob of the state is there, with the hash and the size that the state records. -/
def BlobsPresent (state : WorkspaceState) : Prop :=
  ∀ (path : LogicalPath) (file : WorkspaceFile), state.files[path]? = some file → ∃ bytes, blobs file.blobHash = .ok bytes ∧
    codec.sha256 bytes = file.blobHash ∧ bytes.length = file.sizeBytes.toNat

/-! ## Names -/

theorem segments_injective {path other : LogicalPath} (h : segments path = segments other) :
    path = other := by
  have htext := congrArg ['/'].intercalate h
  rw [segments,segments,List.intercalate_splitOn,List.intercalate_splitOn] at htext
  exact LogicalPath.text_injective (String.toList_inj.mp htext)

theorem segments_ne_nil (path : LogicalPath) : segments path ≠ [] := List.splitOn_ne_nil _ _

/-! ## The files of a manifest -/

variable {codec blobs} {state : WorkspaceState} {manifest : WorkspaceManifestV1} {root : Root}

def fileOf (blobs : Blobs) (member : LogicalPath × FileEntryV1) : List (List Char) × Bytes :=
  (segments member.1,(blobs member.2.blobHash).toOption.getD [])

theorem readBlob_ok {entry : FileEntryV1} {bytes : Bytes} (hblob : blobs entry.blobHash = .ok bytes)
    (hhash : codec.sha256 bytes = entry.blobHash) (hsize : bytes.length = entry.sizeBytes.toNat) :
    readBlob codec blobs entry = .ok bytes := by
  have hlength : bytes.length ≤ u64Max := by
    have hbound := entry.sizeBytes.toNat_lt
    rw [u64Max]
    omega
  have hsame : UInt64.ofNat bytes.length = entry.sizeBytes := by rw [hsize,UInt64.ofNat_toNat]
  simp only [readBlob,hblob,bind_ok,ensure_ok,pure_ok,decide_eq_true_eq]
  exact ⟨bytes,rfl,(),hhash,(),hlength,(),hsame,rfl⟩

theorem materializeFile_ok {member : LogicalPath × FileEntryV1} {bytes : Bytes} {next : Root}
    (hread : readBlob codec blobs member.2 = .ok bytes) :
    materializeFile codec blobs root member = .ok next ↔
      root.addFile (segments member.1,bytes) = .ok next := by
  simp only [materializeFile,FileTree.addFile,hread,bind_ok,mapError_ok]
  constructor
  · rintro ⟨_,hbytes,middle,hdirs,hfile⟩
    cases hbytes
    exact ⟨middle,hdirs,hfile⟩
  · rintro ⟨middle,hdirs,hfile⟩
    exact ⟨bytes,rfl,middle,hdirs,hfile⟩

theorem materializeFiles_ok {members : List (LogicalPath × FileEntryV1)} {next : Root}
    (hread : ∀ member ∈ members, readBlob codec blobs member.2 = .ok (fileOf blobs member).2) :
    members.foldlM (materializeFile codec blobs) root = .ok next ↔
      (members.map (fileOf blobs)).foldlM FileTree.addFile root = .ok next := by
  induction members generalizing root with
  | nil =>
    rw [List.map_nil,List.foldlM_nil,List.foldlM_nil]
    constructor
    · intro h
      cases h
      rfl
    · intro h
      cases h
      rfl
  | cons member rest ih =>
    have hfirst := hread member (List.mem_cons_self ..)
    have hrest := fun member hmem => hread member (List.mem_cons_of_mem _ hmem)
    rw [List.map_cons,List.foldlM_cons,List.foldlM_cons,bind_ok,bind_ok]
    constructor
    · rintro ⟨middle,hstep,hnext⟩
      exact ⟨middle,(materializeFile_ok hfirst).mp hstep,(ih hrest).mp hnext⟩
    · rintro ⟨middle,hstep,hnext⟩
      exact ⟨middle,(materializeFile_ok hfirst).mpr hstep,(ih hrest).mpr hnext⟩

theorem toManifest_files (h : state.toManifest = .ok manifest) : manifest.files =
    state.files.map (fun _ file => ⟨file.blobHash,file.sizeBytes⟩) := by
  simp only [WorkspaceState.toManifest,bind_ok,require_ok] at h
  obtain ⟨_,-,main,-,hnew⟩ := h
  rw [mapError_ok] at hnew
  unfold WorkspaceManifestV1.new at hnew
  split at hnew
  · split at hnew
    · cases hnew
      rfl
    · cases hnew
  · cases hnew

theorem mem_files_iff (h : state.toManifest = .ok manifest) {path : LogicalPath} :
    path ∈ state.files ↔ path ∈ manifest.files := by
  rw [toManifest_files h]
  exact ExtTreeMap.mem_map.symm

theorem read_files (hmanifest : state.toManifest = .ok manifest) (hblobs : BlobsPresent codec blobs state)
    {path : LogicalPath} {entry : FileEntryV1} (hentry : manifest.files[path]? = some entry) :
    blobs entry.blobHash = .ok (fileOf blobs (path,entry)).2 ∧
      readBlob codec blobs entry = .ok (fileOf blobs (path,entry)).2 := by
  rw [toManifest_files hmanifest,ExtTreeMap.getElem?_map] at hentry
  obtain ⟨file,hfile,rfl⟩ := Option.map_eq_some_iff.mp hentry
  obtain ⟨bytes,hbytes,hhash,hsize⟩ := hblobs path file hfile
  have hcontents : (fileOf blobs (path,⟨file.blobHash,file.sizeBytes⟩)).2 = bytes := by
    rw [fileOf,hbytes]
    rfl
  rw [hcontents]
  exact ⟨hbytes,readBlob_ok hbytes hhash hsize⟩

theorem pairwise_apart_iff : (manifest.files.toList.map (fileOf blobs)).Pairwise
      (fun f g => FileTree.Apart f.1 g.1) ↔
    ∀ path ∈ manifest.files, ∀ other ∈ manifest.files, segments path <+: segments other →
      path = other := by
  have hmem : ∀ path, path ∈ manifest.files ↔ ∃ entry, (path,entry) ∈ manifest.files.toList := by
    intro path
    simp only [ExtTreeMap.mem_toList_iff_getElem?_eq_some,ExtTreeMap.mem_iff_isSome_getElem?,
      Option.isSome_iff_exists]
  rw [List.pairwise_map]
  constructor
  · intro hpair path hpath other hother hinit
    obtain ⟨entry,hentry⟩ := (hmem path).mp hpath
    obtain ⟨entry',hentry'⟩ := (hmem other).mp hother
    by_contra hne
    have hdistinct : (path,entry) ≠ (other,entry') := fun heq => hne (congrArg Prod.fst heq)
    have hsymm : Std.Symm (fun a b => FileTree.Apart (fileOf blobs a).1 (fileOf blobs b).1) :=
      ⟨fun _ _ hapart => ⟨hapart.2,hapart.1⟩⟩
    have hboth := hpair.forall hentry hentry' hdistinct
    exact hboth.1 hinit
  · intro hall
    have hkeys := manifest.files.distinct_keys_toList
    refine hkeys.imp_of_mem ?_
    intro m m' hm hm' hne
    have hpath := (hmem m.1).mpr ⟨m.2,hm⟩
    have hother := (hmem m'.1).mpr ⟨m'.2,hm'⟩
    have hdistinct : m.1 ≠ m'.1 := fun heq => hne (heq ▸ ReflCmp.compare_self)
    exact ⟨fun hinit => hdistinct (hall _ hpath _ hother hinit),
      fun hinit => hdistinct (hall _ hother _ hpath hinit).symm⟩

theorem mem_fileOf (hmanifest : state.toManifest = .ok manifest)
    (hblobs : BlobsPresent codec blobs state) {location : List (List Char)} {bytes : Bytes} :
    (location,bytes) ∈ manifest.files.toList.map (fileOf blobs) ↔
      ∃ path entry, manifest.files[path]? = some entry ∧ location = segments path ∧
        blobs entry.blobHash = .ok bytes := by
  rw [List.mem_map]
  constructor
  · rintro ⟨⟨path,entry⟩,hmem,heq⟩
    have hentry := ExtTreeMap.mem_toList_iff_getElem?_eq_some.mp hmem
    obtain ⟨hblob,-⟩ := read_files hmanifest hblobs hentry
    rw [heq] at hblob
    exact ⟨path,entry,hentry,(congrArg Prod.fst heq).symm,hblob⟩
  · rintro ⟨path,entry,hentry,hlocation,hbytes⟩
    refine ⟨(path,entry),ExtTreeMap.mem_toList_iff_getElem?_eq_some.mpr hentry,?_⟩
    rw [fileOf,hbytes,hlocation]
    rfl

/-! ## The whole directory -/

theorem output_free_iff {t : Root} {files : List (List (List Char) × Bytes)} (h : t.Holds files) :
    t [outputName] = none ↔ ∀ f ∈ files, ¬[outputName] <+: f.1 := by
  constructor
  · intro hnone f hf hinit
    have hfile := (h.file f.1 f.2).mpr hf
    by_cases hsame : [outputName] = f.1
    · rw [hsame,hfile] at hnone
      cases hnone
    · have hdir := (h.dir [outputName]).mpr (Or.inr ⟨f,hf,hinit,hsame⟩)
      rw [hdir] at hnone
      cases hnone
  · intro hfree
    cases hnode : t [outputName] with
    | none => rfl
    | some entry =>
      cases entry with
      | dir =>
        rcases (h.dir _).mp hnode with hnil | ⟨f,hf,hinit,-⟩
        · cases hnil
        · exact absurd hinit (hfree f hf)
      | file contents => exact absurd List.prefix_rfl (hfree _ ((h.file _ contents).mp hnode))

theorem prepareDirectory_ok : prepareDirectory codec blobs (manifestSnapshotId codec manifest) manifest =
      .ok root ↔
    ∃ t, manifest.files.toList.foldlM (materializeFile codec blobs) FileTree.empty = .ok t ∧
      t.mkdir [outputName] = .ok root := by
  simp only [prepareDirectory,materialize,bind_ok,mapError_ok,ensure_ok,decide_true]
  constructor
  · rintro ⟨t,⟨_,-,hfold⟩,hmade⟩
    exact ⟨t,hfold,hmade⟩
  · rintro ⟨t,hfold,hmade⟩
    exact ⟨t,⟨(),trivial,hfold⟩,hmade⟩

theorem materializeFiles_iff (hmanifest : state.toManifest = .ok manifest)
    (hblobs : BlobsPresent codec blobs state) :
    (∃ t, manifest.files.toList.foldlM (materializeFile codec blobs) FileTree.empty = .ok t) ↔
      ∀ path ∈ state.files, ∀ other ∈ state.files, segments path <+: segments other → path = other := by
  have hread : ∀ member ∈ manifest.files.toList,
      readBlob codec blobs member.2 = .ok (fileOf blobs member).2 := by
    intro member hmem
    have hentry := ExtTreeMap.mem_toList_iff_getElem?_eq_some.mp hmem
    exact (read_files hmanifest hblobs hentry).2
  have hne : ∀ f ∈ manifest.files.toList.map (fileOf blobs), f.1 ≠ [] := by
    intro f hf
    obtain ⟨member,-,rfl⟩ := List.mem_map.mp hf
    exact segments_ne_nil member.1
  obtain ⟨-,hroom⟩ := FileTree.holds_empty.addFiles hne List.Pairwise.nil
  rw [List.nil_append] at hroom
  simp only [materializeFiles_ok hread,hroom,pairwise_apart_iff,mem_files_iff hmanifest]

/-- A manifest is written with exactly its files where the file system has room for its paths. -/
theorem prepareDirectory_iff (codec : Codec) (blobs : Blobs) (state : WorkspaceState)
    (manifest : WorkspaceManifestV1) (hmanifest : state.toManifest = .ok manifest)
    (hblobs : BlobsPresent codec blobs state) :
    (∃ root, prepareDirectory codec blobs (manifestSnapshotId codec manifest) manifest = .ok root ∧
      Materialized blobs root manifest) ↔ Materializable state := by
  have hread : ∀ member ∈ manifest.files.toList,
      readBlob codec blobs member.2 = .ok (fileOf blobs member).2 := by
    intro member hmem
    have hentry := ExtTreeMap.mem_toList_iff_getElem?_eq_some.mp hmem
    exact (read_files hmanifest hblobs hentry).2
  have hne : ∀ f ∈ manifest.files.toList.map (fileOf blobs), f.1 ≠ [] := by
    intro f hf
    obtain ⟨member,-,rfl⟩ := List.mem_map.mp hf
    exact segments_ne_nil member.1
  obtain ⟨hholds,-⟩ := FileTree.holds_empty.addFiles hne List.Pairwise.nil
  rw [List.nil_append] at hholds
  have hapart := materializeFiles_iff hmanifest hblobs
  have hfree : (∀ f ∈ manifest.files.toList.map (fileOf blobs), ¬[outputName] <+: f.1) ↔
      ∀ path ∈ state.files, ¬[outputName] <+: segments path := by
    constructor
    · intro hall path hpath
      obtain ⟨entry,hentry⟩ := ExtTreeMap.mem_iff_isSome_getElem?.mp ((mem_files_iff hmanifest).mp hpath)
        |> Option.isSome_iff_exists.mp
      have hmem := ExtTreeMap.mem_toList_iff_getElem?_eq_some.mpr hentry
      exact hall _ (List.mem_map_of_mem hmem)
    · intro hall f hf
      obtain ⟨member,hmem,rfl⟩ := List.mem_map.mp hf
      have hentry := ExtTreeMap.mem_toList_iff_getElem?_eq_some.mp hmem
      have hpath : member.1 ∈ manifest.files := by
        rw [ExtTreeMap.mem_iff_isSome_getElem?,hentry]
        rfl
      exact hall _ ((mem_files_iff hmanifest).mpr hpath)
  constructor
  · rintro ⟨root,hprepared,-⟩
    obtain ⟨t,hfold,hmade⟩ := prepareDirectory_ok.mp hprepared
    have ht := hholds t ((materializeFiles_ok hread).mp hfold)
    have hmadeRoot : t.mkdir ([] ++ [outputName]) = .ok root := hmade
    have hnone := ((FileTree.mkdir_ok ht.wellFormed).mp hmadeRoot).2.1
    exact ⟨hapart.mp ⟨t,hfold⟩,hfree.mp ((output_free_iff ht).mp hnone)⟩
  · intro hall
    obtain ⟨t,hfold⟩ := hapart.mpr hall.apart
    have ht := hholds t ((materializeFiles_ok hread).mp hfold)
    have hnone := (output_free_iff ht).mpr (hfree.mpr hall.unreserved)
    have hmade : t.mkdir ([] ++ [outputName]) = .ok (Function.update t [outputName] (some .dir)) :=
      (FileTree.mkdir_ok ht.wellFormed).mpr ⟨ht.wellFormed.root,hnone,rfl⟩
    refine ⟨_,prepareDirectory_ok.mpr ⟨t,hfold,hmade⟩,?_⟩
    intro location bytes houtside
    have hother : location ≠ [outputName] := by
      rintro rfl
      exact houtside List.prefix_rfl
    rw [Function.update_of_ne hother,ht.file,mem_fileOf hmanifest hblobs]

/-! ## A file below a file -/

def chapterTex : LogicalPath := ⟨"chapter",by decide⟩
def sectionTex : LogicalPath := ⟨"chapter/section.tex",by decide⟩
def bibliography : LogicalPath := ⟨"references/main.bib",by decide⟩

/-- The hash of the one blob that the samples use. -/
def emptyCodec : Codec := jsonCodec (fun _ => blankDigest)

def emptyBlobs : Blobs := fun hash => if hash = blankDigest then .ok [] else .error (.notFound hash)

def emptyFile : WorkspaceFile := ⟨blankDigest,0⟩

def putting (first second : LogicalPath) : WorkspaceMutationV1 :=
  ⟨[.putFile first blankDigest 0,.putFile second blankDigest 0,.setMainFile first],by simp⟩

def twoFiles (first second : LogicalPath) : WorkspaceState :=
  ⟨1,1,some first,((∅ : ExtTreeMap LogicalPath WorkspaceFile).insert first emptyFile).insert second emptyFile⟩

theorem putting_ok (first second : LogicalPath) :
    (WorkspaceState.empty 1).apply (putting first second) 0 = .ok (twoFiles first second) := by
  have hmain : (((∅ : ExtTreeMap LogicalPath WorkspaceFile).insert first emptyFile).insert second
      emptyFile).contains first = true := by
    rw [ExtTreeMap.contains_insert,ExtTreeMap.contains_insert_self,Bool.or_true]
  simp only [WorkspaceState.apply,putting,bind_ok,ensure_ok,require_ok,pure_ok,WorkspaceState.validate_ok]
  refine ⟨(),by rfl,⟨1,0,some first,(twoFiles first second).files⟩,?_,(),?_,1,rfl,rfl⟩
  · simp only [List.foldlM_cons,List.foldlM_nil,bind_ok,pure_ok,WorkspaceState.applyOperation,ensure_ok]
    exact ⟨_,rfl,_,rfl,_,⟨(),hmain,rfl⟩,rfl⟩
  · intro main hsome
    cases hsome
    exact hmain

theorem mem_twoFiles {first second path : LogicalPath} :
    path ∈ (twoFiles first second).files ↔ path = first ∨ path = second := by
  simp only [twoFiles,ExtTreeMap.mem_insert,LawfulEqCmp.compare_eq_iff_eq,ExtTreeMap.not_mem_empty,or_false]
  tauto

theorem twoFiles_present (first second : LogicalPath) :
    BlobsPresent emptyCodec emptyBlobs (twoFiles first second) := by
  intro path file hfile
  have hempty : file = emptyFile := by
    simp only [twoFiles,ExtTreeMap.getElem?_insert] at hfile
    split at hfile
    · cases hfile
      rfl
    · split at hfile
      · cases hfile
        rfl
      · rw [ExtTreeMap.getElem?_empty] at hfile
        cases hfile
  rw [hempty]
  exact ⟨[],if_pos rfl,rfl,rfl⟩

theorem nested_file_not_materializable : ∃ state manifest,
    (WorkspaceState.empty 1).apply (putting chapterTex sectionTex) 0 = .ok state ∧
      state.toManifest = .ok manifest ∧ BlobsPresent emptyCodec emptyBlobs state ∧
      ¬∃ root, prepareDirectory emptyCodec emptyBlobs (manifestSnapshotId emptyCodec manifest) manifest =
        .ok root := by
  have hfails : ((twoFiles chapterTex sectionTex).toManifest.toOption.map (fun manifest =>
      (prepareDirectory emptyCodec emptyBlobs (manifestSnapshotId emptyCodec manifest) manifest).isOk)) =
        some false := by decide +kernel
  cases hmanifest : (twoFiles chapterTex sectionTex).toManifest with
  | error e =>
    rw [hmanifest] at hfails
    cases hfails
  | ok manifest =>
    refine ⟨_,manifest,putting_ok _ _,hmanifest,twoFiles_present _ _,?_⟩
    rintro ⟨root,hroot⟩
    rw [hmanifest,Except.toOption,Option.map_some,hroot] at hfails
    cases hfails

theorem bibliography_materialized : ∃ state manifest,
    (WorkspaceState.empty 1).apply (putting thesisTex bibliography) 0 = .ok state ∧
      state.toManifest = .ok manifest ∧ Materializable state ∧
      ∃ root, prepareDirectory emptyCodec emptyBlobs (manifestSnapshotId emptyCodec manifest) manifest =
        .ok root ∧ Materialized emptyBlobs root manifest := by
  have hwritten : (twoFiles thesisTex bibliography).toManifest.isOk = true := by decide +kernel
  have hroom : Materializable (twoFiles thesisTex bibliography) := by
    constructor
    · intro path hpath other hother hinit
      rcases mem_twoFiles.mp hpath with rfl | rfl <;> rcases mem_twoFiles.mp hother with rfl | rfl
      · rfl
      · exact absurd hinit (by decide)
      · exact absurd hinit (by decide)
      · rfl
    · intro path hpath
      rcases mem_twoFiles.mp hpath with rfl | rfl
      · decide
      · decide
  cases hmanifest : (twoFiles thesisTex bibliography).toManifest with
  | error e =>
    rw [hmanifest] at hwritten
    cases hwritten
  | ok manifest =>
    exact ⟨_,manifest,putting_ok _ _,hmanifest,hroom,
      (prepareDirectory_iff emptyCodec emptyBlobs _ manifest hmanifest (twoFiles_present _ _)).mpr hroom⟩

end LatexCore.Compiler
