import LatexCore.Compiler.Materialize
import LatexCore.Workspace.Archive

/-! # Ingested archives

What an accepted archive imports is bounded, and the walk over its central directory
stays inside the input. The imported files can be written to a directory exactly when no
entry is a file and, by its name, a directory of another file as well.
-/
namespace LatexCore.Compiler
open Core Foundation Workspace Std

/-- The names of two files of which one would have to be a directory for the other. -/
def NestedNames (archive : ZipArchive) : Prop :=
  ∃ entry other : ZipEntry, some entry ∈ archive.entries ∧ some other ∈ archive.entries ∧ entry.isDir = false ∧
    other.isDir = false ∧ (entry.name.toList ++ ['/']) <+: other.name.toList

/-- The bounds of an accepted archive. -/
structure Ingested (archive : ZipArchive) (imported : ImportedArchive) : Prop where
  plain : ∀ entry ∈ archive.entries, ∃ e, entry = some e ∧ e.Plain
  distinct : (imported.files.map (·.path)).Nodup
  deep : ∀ file ∈ imported.files, (segments file.path).length ≤ 32
  count : 1 ≤ imported.files.length ∧ imported.files.length ≤ 2000
  each : ∀ file ∈ imported.files, file.bytes.length ≤ 32 * 1024 * 1024
  total : (imported.files.map (·.bytes.length)).sum ≤ 128 * 1024 * 1024

theorem intercalate_append {pre rest : List (List Char)} (hpre : pre ≠ []) (hrest : rest ≠ []) :
    ['/'].intercalate (pre ++ rest) = ['/'].intercalate pre ++ '/' :: ['/'].intercalate rest := by
  induction pre with
  | nil => exact absurd rfl hpre
  | cons name pre ih =>
    cases pre with
    | nil =>
      rw [List.singleton_append,List.intercalate_cons_of_ne_nil hrest]
      simp
    | cons next pre =>
      have hnext := ih (by simp)
      rw [List.cons_append,List.cons_append,List.intercalate_cons_cons,← List.cons_append,hnext,
        List.intercalate_cons_cons,List.append_assoc,List.append_assoc,List.append_assoc]

/-- The names on a path begin those on another exactly when the paths are equal or the one is a
directory of the other. -/
theorem segments_prefix_iff {path other : LogicalPath} : segments path <+: segments other ↔
    path = other ∨ (path.text.toList ++ ['/']) <+: other.text.toList := by
  constructor
  · rintro ⟨rest,hrest⟩
    cases rest with
    | nil =>
      rw [List.append_nil] at hrest
      exact .inl (segments_injective hrest)
    | cons name rest =>
      have htext := congrArg ['/'].intercalate hrest
      rw [intercalate_append (segments_ne_nil path) (by simp),segments,segments,List.intercalate_splitOn,
        List.intercalate_splitOn] at htext
      exact .inr ⟨['/'].intercalate (name :: rest),by rw [← htext]; simp⟩
  · rintro (rfl | ⟨rest,hrest⟩)
    · exact List.prefix_rfl
    · refine ⟨rest.splitOn '/',?_⟩
      rw [segments,segments,← hrest,List.append_assoc,List.singleton_append,List.splitOn_append_cons_self]

theorem ingested_of_bounded {archive : ZipArchive} {imported : ImportedArchive} {entries : List ZipEntry}
    {expanded : ℕ} (hentries : archive.entries = entries.map some)
    (h : (⟨imported.files,expanded⟩ : Gathered).Bounded entries) (hne : imported.files ≠ []) :
    Ingested archive imported where
  plain := by
    intro entry hentry
    rw [hentries] at hentry
    obtain ⟨e,he,rfl⟩ := List.mem_map.mp hentry
    exact ⟨e,rfl,h.plain e he⟩
  distinct := h.distinct
  deep := h.deep
  count := ⟨List.length_pos_of_ne_nil hne,h.count⟩
  each := h.each
  total := h.total.trans h.expanded

theorem apart_iff_names {archive : ZipArchive} {imported : ImportedArchive} {entries : List ZipEntry}
    {expanded : ℕ} (hentries : archive.entries = entries.map some)
    (h : (⟨imported.files,expanded⟩ : Gathered).Bounded entries) :
    (∀ path ∈ imported.files.map (·.path), ∀ other ∈ imported.files.map (·.path),
      segments path <+: segments other → path = other) ↔ ¬NestedNames archive := by
  have hname : ∀ name : String, (∃ path ∈ imported.files.map (·.path), path.text = name) ↔
      ∃ entry, some entry ∈ archive.entries ∧ entry.isDir = false ∧ entry.name = name := by
    intro name
    have hmem : name ∈ imported.files.map (·.path.text) ↔
        name ∈ (entries.filter (fun entry => !entry.isDir)).map (·.name) := by rw [h.names]
    rw [hentries]
    simpa [and_assoc] using hmem
  constructor
  · rintro hapart ⟨entry,other,hentry,hother,hfile,hfile',hnested⟩
    obtain ⟨path,hpath,htext⟩ := (hname entry.name).mpr ⟨entry,hentry,hfile,rfl⟩
    obtain ⟨path',hpath',htext'⟩ := (hname other.name).mpr ⟨other,hother,hfile',rfl⟩
    rw [← htext,← htext'] at hnested
    have hsame := hapart path hpath path' hpath' (segments_prefix_iff.mpr (.inr hnested))
    rw [hsame] at hnested
    have hlength := hnested.length_le
    rw [List.length_append,List.length_singleton] at hlength
    omega
  · intro hnames path hpath other hother hprefix
    rcases segments_prefix_iff.mp hprefix with hsame | hnested
    · exact hsame
    · obtain ⟨entry,hentry,hfile,hentryName⟩ := (hname path.text).mp ⟨path,hpath,rfl⟩
      obtain ⟨entry',hentry',hfile',hentryName'⟩ := (hname other.text).mp ⟨other,hother,rfl⟩
      rw [← hentryName,← hentryName'] at hnested
      exact absurd ⟨entry,entry',hentry,hentry',hfile,hfile',hnested⟩ hnames

theorem materialize_ok_iff {codec : Codec} {blobs : Blobs} {manifest : WorkspaceManifestV1} {root : Root} :
    materialize codec blobs FileTree.empty (manifestSnapshotId codec manifest) manifest = .ok root ↔
      manifest.files.toList.foldlM (materializeFile codec blobs) FileTree.empty = .ok root := by
  simp only [materialize,bind_ok,ensure_ok,decide_true]
  constructor
  · rintro ⟨_,_,h⟩
    exact h
  · intro h
    exact ⟨(),trivial,h⟩

theorem imported_materializes_iff {openZip : Bytes → Option ZipArchive} {bytes : Bytes} {archive : ZipArchive}
    {imported : ImportedArchive} (hopen : openZip bytes = some archive)
    (accepted : readArchive openZip bytes = .ok imported) {codec : Codec} {blobs : Blobs}
    {state : WorkspaceState} {manifest : WorkspaceManifestV1}
    (hpaths : ∀ path, path ∈ state.files ↔ path ∈ imported.files.map (·.path))
    (hmanifest : state.toManifest = .ok manifest) (hblobs : BlobsPresent codec blobs state) :
    (∃ root, materialize codec blobs FileTree.empty (manifestSnapshotId codec manifest) manifest = .ok root) ↔
      ¬NestedNames archive := by
  obtain ⟨archive',entries,expanded,hopen',hentries,hbounded,-⟩ := readArchive_ok accepted
  obtain rfl : archive = archive' := Option.some.inj (hopen.symm.trans hopen')
  simp only [materialize_ok_iff]
  rw [materializeFiles_iff hmanifest hblobs,← apart_iff_names hentries hbounded]
  simp only [hpaths]

/-- An accepted archive is bounded, the walk over its central directory stays in the input, and a
workspace of its paths can be written exactly when the names of its files are not nested. -/
theorem archive_ingested_iff (openZip : Bytes → Option ZipArchive) (bytes : Bytes) (archive : ZipArchive)
    (imported : ImportedArchive) (hopen : openZip bytes = some archive)
    (accepted : readArchive openZip bytes = .ok imported) :
    Ingested archive imported ∧
      (rejectDuplicateCentralPaths bytes archive).Inside bytes (archive.offset + archive.centralDirectoryStart) ∧
      ∀ codec blobs state manifest, (∀ path, path ∈ state.files ↔ path ∈ imported.files.map (·.path)) →
        state.toManifest = .ok manifest → BlobsPresent codec blobs state →
        ((∃ root, materialize codec blobs FileTree.empty (manifestSnapshotId codec manifest) manifest = .ok root) ↔
          ¬NestedNames archive) := by
  obtain ⟨archive',entries,expanded,hopen',hentries,hbounded,hne⟩ := readArchive_ok accepted
  obtain rfl : archive = archive' := Option.some.inj (hopen.symm.trans hopen')
  exact ⟨ingested_of_bounded hentries hbounded hne,centralWalk_inside bytes [] _,
    fun _ _ _ _ hpaths hmanifest hblobs => imported_materializes_iff hopen accepted hpaths hmanifest hblobs⟩

/-! ## An archive with a file below a file -/

/-- A ZIP file of two empty files, as the usual tools write it. -/
def nestedBytes : Bytes :=
  [80,75,3,4,20,0,0,0,0,0,0,0,33,0,0,0,0,0,0,0,0,0,0,0,0,0,7,0,0,0,99,104,97,112,116,101,114,
    80,75,3,4,20,0,0,0,0,0,0,0,33,0,0,0,0,0,0,0,0,0,0,0,0,0,19,0,0,0,99,104,97,112,116,101,114,47,115,
    101,99,116,105,111,110,46,116,101,120,
    80,75,1,2,20,3,20,0,0,0,0,0,0,0,33,0,0,0,0,0,0,0,0,0,0,0,0,0,7,0,0,0,0,0,0,0,0,0,0,0,164,129,0,0,0,0,
    99,104,97,112,116,101,114,
    80,75,1,2,20,3,20,0,0,0,0,0,0,0,33,0,0,0,0,0,0,0,0,0,0,0,0,0,19,0,0,0,0,0,0,0,0,0,0,0,164,129,37,0,0,0,
    99,104,97,112,116,101,114,47,115,101,99,116,105,111,110,46,116,101,120,
    80,75,5,6,0,0,0,0,2,0,2,0,118,0,0,0,86,0,0,0,0,0]

def emptyEntry (name : String) : ZipEntry where
  nameRaw := encodeUtf8 name.toList
  name := name
  encrypted := false
  isSymlink := false
  unixMode := some 0o100644
  isDir := false
  isFile := true
  size := 0
  read _ := some []

def nestedArchive : ZipArchive := ⟨0,86,[some (emptyEntry "chapter"),some (emptyEntry "chapter/section.tex")]⟩

def openNested (bytes : Bytes) : Option ZipArchive := if bytes = nestedBytes then some nestedArchive else none

def nestedImport : ImportedArchive := ⟨[⟨chapterTex,[]⟩,⟨sectionTex,[]⟩],none⟩

theorem parsePath_self (path : LogicalPath) : parsePath path.text = .ok path := by
  rw [parsePath,LogicalPath.parse_text]
  rfl

theorem readEntry_empty (path : LogicalPath) (files : List ImportedFile)
    (hcheck : checkEntry (emptyEntry path.text) = .ok ()) (hdepth : depth path ≤ maxDepth)
    (hnew : path ∉ files.map (·.path)) (hcount : files.length ≠ maxFiles) :
    readEntry ⟨files,0⟩ (emptyEntry path.text) = .ok ⟨files ++ [⟨path,[]⟩],0⟩ := by
  have hfile : readFileEntry ⟨files,0⟩ (emptyEntry path.text) = .ok ⟨files ++ [⟨path,[]⟩],0⟩ := by
    simp only [readFileEntry,reserveDeclaredSize,bind_ok,ensure_ok,require_ok,pure_ok,decide_eq_true_eq,
      Bool.not_eq_true',List.contains_eq_mem,decide_eq_false_iff_not]
    exact ⟨(),rfl,path,parsePath_self path,(),hdepth,(),hnew,(),hcount,0,⟨(),Nat.zero_le _,(),Nat.zero_le _,rfl⟩,
      [],rfl,(),Nat.zero_le _,(),Nat.zero_le _,rfl⟩
  rw [readEntry,bind_ok]
  exact ⟨(),hcheck,hfile⟩

theorem addCentralPath_text (path : LogicalPath) (paths : List LogicalPath) (hnew : path ∉ paths)
    (hlast : path.text.toList.getLast? ≠ some '/') :
    addCentralPath paths (encodeUtf8 path.text.toList) = .ok (path :: paths) := by
  simp only [addCentralPath,decode_encode,bind_ok,require_ok]
  refine ⟨_,rfl,?_⟩
  rw [if_neg hlast]
  simp only [bind_ok,String.ofList_toList,ensure_ok,pure_ok,Bool.not_eq_true',List.contains_eq_mem,
    decide_eq_false_iff_not]
  exact ⟨path,parsePath_self path,(),hnew,rfl⟩

theorem centralWalk_step {bytes header name : Bytes} {paths more : List LogicalPath} {offset : ℕ}
    (hsignature : slice bytes offset (offset + 4) = some signature)
    (hheader : slice bytes offset (offset + 46) = some header)
    (hname : slice bytes (offset + 46) (offset + 46 + u16At header 28) = some name)
    (hmore : addCentralPath paths name = .ok more) :
    (centralWalk bytes paths offset).result =
      (centralWalk bytes more (offset + 46 + u16At header 28 + u16At header 30 + u16At header 32)).result := by
  rw [centralWalk.eq_def bytes paths offset,dif_pos hsignature]
  simp only [hheader,hname,hmore,Walk.after]

theorem centralWalk_stop {bytes : Bytes} (paths : List LogicalPath) {offset : ℕ}
    (hsignature : slice bytes offset (offset + 4) ≠ some signature) :
    (centralWalk bytes paths offset).result = .ok () := by
  rw [centralWalk.eq_def bytes paths offset,dif_neg hsignature]

theorem nested_walk : (rejectDuplicateCentralPaths nestedBytes nestedArchive).result = .ok () := by
  have hheader : slice nestedBytes 86 (86 + 46) = some ((nestedBytes.drop 86).take 46) := by decide +kernel
  have hheader' : slice nestedBytes 139 (139 + 46) = some ((nestedBytes.drop 139).take 46) := by decide +kernel
  have hfirst : (centralWalk nestedBytes [] 86).result = (centralWalk nestedBytes [chapterTex] 139).result :=
    centralWalk_step (by decide +kernel) hheader (by decide +kernel)
      (addCentralPath_text chapterTex [] (by simp) (by decide))
  have hsecond : (centralWalk nestedBytes [chapterTex] 139).result =
      (centralWalk nestedBytes [sectionTex,chapterTex] 204).result :=
    centralWalk_step (by decide +kernel) hheader' (by decide +kernel)
      (addCentralPath_text sectionTex [chapterTex] (by decide) (by decide))
  have hstop : (centralWalk nestedBytes [sectionTex,chapterTex] 204).result = .ok () :=
    centralWalk_stop _ (by decide +kernel)
  exact hfirst.trans (hsecond.trans hstop)

theorem nested_read : readArchive openNested nestedBytes = .ok nestedImport := by
  simp only [readArchive,bind_ok,ensure_ok,require_ok,pure_ok]
  have hentries : readEntries ⟨[],0⟩ nestedArchive.entries = .ok ⟨[⟨chapterTex,[]⟩,⟨sectionTex,[]⟩],0⟩ := by
    simp only [nestedArchive,readEntries,bind_ok,require_ok,pure_ok]
    exact ⟨_,rfl,_,readEntry_empty chapterTex [] (by decide +kernel) (by decide) (by simp) (by decide),_,rfl,_,
      readEntry_empty sectionTex [⟨chapterTex,[]⟩] (by decide +kernel) (by decide) (by decide) (by decide),rfl⟩
  refine ⟨(),by decide +kernel,nestedArchive,if_pos rfl,(),nested_walk,(),by decide,_,hentries,(),by decide,?_⟩
  rfl

/-- The archive is accepted, and a workspace of its paths cannot be written. -/
theorem nested_archive_not_written :
    readArchive openNested nestedBytes = .ok nestedImport ∧
      (∀ path, path ∈ (twoFiles chapterTex sectionTex).files ↔ path ∈ nestedImport.files.map (·.path)) ∧
      BlobsPresent emptyCodec emptyBlobs (twoFiles chapterTex sectionTex) ∧
      ∃ manifest, (twoFiles chapterTex sectionTex).toManifest = .ok manifest ∧
        ¬∃ root, materialize emptyCodec emptyBlobs FileTree.empty
          (manifestSnapshotId emptyCodec manifest) manifest = .ok root := by
  have hpaths : ∀ path, path ∈ (twoFiles chapterTex sectionTex).files ↔
      path ∈ nestedImport.files.map (·.path) := by
    intro path
    rw [mem_twoFiles]
    simp [nestedImport]
  have hwritten : (twoFiles chapterTex sectionTex).toManifest.isOk = true := by decide +kernel
  have hnested : NestedNames nestedArchive :=
    ⟨emptyEntry "chapter",emptyEntry "chapter/section.tex",by simp [nestedArchive],by simp [nestedArchive],rfl,rfl,
      by decide⟩
  refine ⟨nested_read,hpaths,twoFiles_present _ _,?_⟩
  cases hmanifest : (twoFiles chapterTex sectionTex).toManifest with
  | error e =>
    rw [hmanifest] at hwritten
    cases hwritten
  | ok manifest =>
    refine ⟨manifest,rfl,fun hroot => ?_⟩
    exact (imported_materializes_iff (if_pos rfl) nested_read hpaths hmanifest (twoFiles_present _ _)).mp hroot
      hnested

theorem nested_archive_bounded : Ingested nestedArchive nestedImport :=
  (archive_ingested_iff openNested nestedBytes nestedArchive nestedImport (if_pos rfl) nested_read).1

end LatexCore.Compiler
