import LatexCore.Core.Scan
import LatexCore.Workspace.Repository

/-! # ZIP ingestion

An uploaded archive is read entry by entry: unsafe names, links, encrypted and oversized
entries are refused, and each file is read no further than its bound. The library that
decodes the archive indexes names, so the central directory is walked as well for names
that occur twice. What the library reports of an archive is given.
-/
namespace LatexCore.Workspace
open Core Foundation

def maxArchiveBytes : ℕ := 32 * 1024 * 1024
def maxExpandedBytes : ℕ := 128 * 1024 * 1024
def maxFileBytes : ℕ := 32 * 1024 * 1024
def maxFiles : ℕ := 2000
def maxDepth : ℕ := 32

inductive ArchiveError
  | archiveTooLarge | invalid | unsafePath | unsupportedEntry | duplicatePath | tooManyFiles
  | fileTooLarge | expandedTooLarge | empty
deriving DecidableEq

structure ImportedFile where
  path : LogicalPath
  bytes : Bytes
deriving DecidableEq

structure ImportedArchive where
  files : List ImportedFile
  detectedMain : Option LogicalPath

/-- An entry of a `ZipArchive`. -/
structure ZipEntry where
  nameRaw : Bytes
  name : String
  encrypted : Bool
  isSymlink : Bool
  unixMode : Option ℕ
  isDir : Bool
  isFile : Bool
  size : ℕ
  /-- The first bytes of the contents, as many as asked for. -/
  read : ℕ → Option Bytes

/-- A `ZipArchive`; an entry may fail to decode. -/
structure ZipArchive where
  offset : ℕ
  centralDirectoryStart : ℕ
  entries : List (Option ZipEntry)

def fileName (path : LogicalPath) : List Char := (path.text.toList.splitOn '/').getLast?.getD []

def extension (path : LogicalPath) : Option String := do
  let (_,suffix) ← rsplitOnce '.' (fileName path)
  if suffix = [] then none else pure (String.ofList suffix)

def ImportedFile.isTex (file : ImportedFile) : Bool := extension file.path = some "tex"

def parsePath (name : String) : Except ArchiveError LogicalPath :=
  (LogicalPath.parse name).mapError (fun _ => .unsafePath)

def depth (path : LogicalPath) : ℕ := (path.text.toList.splitOn '/').length

/-! ## The central directory -/

/-- `<[u8]>::get` with a range. -/
def slice (bytes : Bytes) (start stop : ℕ) : Option Bytes :=
  if start ≤ stop ∧ stop ≤ bytes.length then some ((bytes.drop start).take (stop - start)) else none

def signature : Bytes := [80,75,1,2]

/-- `u16::from_le_bytes` at a place of a header. -/
def u16At (header : Bytes) (place : ℕ) : ℕ :=
  (header[place]?.getD 0).toNat + 256 * (header[place + 1]?.getD 0).toNat

structure Walk where
  reads : List (ℕ × ℕ)
  result : Except ArchiveError Unit

def Walk.after (read : ℕ × ℕ) (walk : Walk) : Walk := ⟨read :: walk.reads,walk.result⟩

/-- The path of a record, added to those before it; directories are passed over. -/
def addCentralPath (paths : List LogicalPath) (name : Bytes) : Except ArchiveError (List LogicalPath) := do
  let name ← require (decodeUtf8 name) .unsafePath
  if name.getLast? = some '/' then pure paths
  else do
    let path ← parsePath (String.ofList name)
    ensure (!paths.contains path) .duplicatePath
    pure (path :: paths)

/-- The walk of `reject_duplicate_central_paths` from an offset on. -/
def centralWalk (bytes : Bytes) (paths : List LogicalPath) (offset : ℕ) : Walk :=
  if _hsignature : slice bytes offset (offset + 4) = some signature then
    .after (offset,offset + 4) (match slice bytes offset (offset + 46) with
    | none => ⟨[],.error .invalid⟩
    | some header => .after (offset,offset + 46) (
      let nameStart := offset + 46
      let nameEnd := nameStart + u16At header 28
      match slice bytes nameStart nameEnd with
      | none => ⟨[],.error .invalid⟩
      | some name => .after (nameStart,nameEnd) (match addCentralPath paths name with
        | .error error => ⟨[],.error error⟩
        | .ok paths => centralWalk bytes paths (nameEnd + u16At header 30 + u16At header 32))))
  else ⟨[],.ok ()⟩
termination_by bytes.length - offset
decreasing_by
  have hin : offset + 4 ≤ bytes.length := by
    by_contra hout
    simp [slice,hout] at _hsignature
  omega

def rejectDuplicateCentralPaths (bytes : Bytes) (archive : ZipArchive) : Walk :=
  centralWalk bytes [] (archive.offset + archive.centralDirectoryStart)

/-! ## Entries -/

/-- What the loop over the entries has gathered. -/
structure Gathered where
  files : List ImportedFile
  expanded : ℕ

def reserveDeclaredSize (expanded size : ℕ) : Except ArchiveError ℕ := do
  ensure (size ≤ maxFileBytes) .fileTooLarge
  ensure (expanded + size ≤ maxExpandedBytes) .expandedTooLarge
  pure (expanded + size)

def validateDirectory (name : String) : Except ArchiveError Unit := do
  let value ← require (stripSuffix ['/'] name.toList) .unsafePath
  let path ← parsePath (String.ofList value)
  ensure (depth path ≤ maxDepth) .unsafePath

def unsafeName (entry : ZipEntry) : Bool :=
  entry.name.toList.head? = some '/' || entry.name.toList.head? = some '\\' ||
    (encodeUtf8 entry.name.toList)[1]? = some 58

/-- A mode that is neither a regular file's nor a directory's. -/
def specialMode (mode : ℕ) : Bool :=
  let kind := Nat.land mode 0o170000
  kind ≠ 0 && kind ≠ 0o100000 && kind ≠ 0o040000

def checkEntry (entry : ZipEntry) : Except ArchiveError Unit := do
  ensure (!entry.nameRaw.contains 0) .unsafePath
  ensure (!unsafeName entry) .unsafePath
  ensure (!entry.encrypted) .unsupportedEntry
  ensure (!entry.isSymlink) .unsupportedEntry
  ensure (!entry.unixMode.any specialMode) .unsupportedEntry

def readFileEntry (gathered : Gathered) (entry : ZipEntry) : Except ArchiveError Gathered := do
  ensure entry.isFile .unsupportedEntry
  let path ← parsePath entry.name
  ensure (depth path ≤ maxDepth) .unsafePath
  ensure (!(gathered.files.map (·.path)).contains path) .duplicatePath
  ensure (gathered.files.length ≠ maxFiles) .tooManyFiles
  let expanded ← reserveDeclaredSize gathered.expanded entry.size
  let content ← require (entry.read (maxFileBytes + 1)) .invalid
  ensure (content.length ≤ maxFileBytes) .fileTooLarge
  ensure (content.length ≤ entry.size) .expandedTooLarge
  pure ⟨gathered.files ++ [⟨path,content⟩],expanded⟩

def readEntry (gathered : Gathered) (entry : ZipEntry) : Except ArchiveError Gathered := do
  checkEntry entry
  if entry.isDir then do
    if entry.name ≠ "" then validateDirectory entry.name else pure ()
    pure gathered
  else readFileEntry gathered entry

def readEntries (gathered : Gathered) : List (Option ZipEntry) → Except ArchiveError Gathered
  | [] => pure gathered
  | entry :: rest => do
    let entry ← require entry .invalid
    let gathered ← readEntry gathered entry
    readEntries gathered rest

def detectMain (files : List ImportedFile) : Option LogicalPath :=
  match files.find? (fun file => file.path.text = "main.tex") with
  | some file => some file.path
  | none =>
    match files.filter (fun file => file.isTex && !file.path.text.toList.contains '/') with
    | [file] => some file.path
    | _ => none

/-- `read_archive`, with the archive that the library makes of the bytes. -/
def readArchive (openZip : Bytes → Option ZipArchive) (bytes : Bytes) : Except ArchiveError ImportedArchive := do
  ensure (bytes.length ≤ maxArchiveBytes) .archiveTooLarge
  let archive ← require (openZip bytes) .invalid
  (rejectDuplicateCentralPaths bytes archive).result
  ensure (archive.entries.length ≤ 2 * maxFiles) .tooManyFiles
  let gathered ← readEntries ⟨[],0⟩ archive.entries
  ensure (gathered.files ≠ []) .empty
  pure ⟨gathered.files,detectMain gathered.files⟩

theorem parse_text_eq {text : String} {path : LogicalPath} (h : LogicalPath.parse text = .ok path) :
    path.text = text := by
  unfold LogicalPath.parse at h
  split at h
  · obtain rfl := Except.ok.inj h
    rfl
  · cases h

theorem parsePath_text {name : String} {path : LogicalPath} (h : parsePath name = .ok path) :
    path.text = name := by
  rw [parsePath,mapError_ok] at h
  exact parse_text_eq h

/-! ## The loop over the entries -/

structure ZipEntry.Plain (entry : ZipEntry) : Prop where
  unencrypted : entry.encrypted = false
  noLink : entry.isSymlink = false
  regular : entry.unixMode.any specialMode = false

structure Gathered.Bounded (gathered : Gathered) (entries : List ZipEntry) : Prop where
  plain : ∀ entry ∈ entries, entry.Plain
  names : gathered.files.map (·.path.text) = (entries.filter (fun entry => !entry.isDir)).map (·.name)
  distinct : (gathered.files.map (·.path)).Nodup
  deep : ∀ file ∈ gathered.files, depth file.path ≤ maxDepth
  count : gathered.files.length ≤ maxFiles
  each : ∀ file ∈ gathered.files, file.bytes.length ≤ maxFileBytes
  total : (gathered.files.map (·.bytes.length)).sum ≤ gathered.expanded
  expanded : gathered.expanded ≤ maxExpandedBytes

theorem checkEntry_ok {entry : ZipEntry} (h : checkEntry entry = .ok ()) : entry.Plain := by
  simp only [checkEntry,bind_ok,ensure_ok,Bool.not_eq_true'] at h
  obtain ⟨-,-,-,-,-,hencrypted,-,hlink,hmode⟩ := h
  exact ⟨hencrypted,hlink,hmode⟩

theorem Gathered.Bounded.readFileEntry {gathered next : Gathered} {entries : List ZipEntry} {entry : ZipEntry}
    (h : gathered.Bounded entries) (hplain : entry.Plain) (hdir : entry.isDir = false)
    (hread : readFileEntry gathered entry = .ok next) : next.Bounded (entries ++ [entry]) := by
  simp only [Workspace.readFileEntry,reserveDeclaredSize,bind_ok,ensure_ok,require_ok,pure_ok,
    decide_eq_true_eq,Bool.not_eq_true',List.contains_eq_mem,decide_eq_false_iff_not] at hread
  obtain ⟨-,-,path,hpath,-,hdepth,-,hnew,-,hcount,expanded,⟨-,-,-,hexpanded,rfl⟩,content,-,-,hcontent,-,hsize,rfl⟩ :=
    hread
  have hless : gathered.files.length < maxFiles := lt_of_le_of_ne h.count hcount
  have htotal := h.total
  constructor
  · intro other hother
    rcases List.mem_append.mp hother with hother | hother
    · exact h.plain other hother
    · rw [List.mem_singleton.mp hother]
      exact hplain
  · rw [List.map_append,List.filter_append,List.map_append,h.names]
    simp [hdir,parsePath_text hpath]
  · rw [List.map_append]
    refine List.nodup_append.mpr ⟨h.distinct,by simp,?_⟩
    intro a ha b hb hab
    rw [List.map_cons,List.map_nil,List.mem_singleton] at hb
    rw [hab,hb] at ha
    exact hnew ha
  · intro file hfile
    rcases List.mem_append.mp hfile with hfile | hfile
    · exact h.deep file hfile
    · rw [List.mem_singleton.mp hfile]
      exact hdepth
  · simp only [List.length_append,List.length_singleton]
    omega
  · intro file hfile
    rcases List.mem_append.mp hfile with hfile | hfile
    · exact h.each file hfile
    · rw [List.mem_singleton.mp hfile]
      exact hcontent
  · simp only [List.map_append,List.sum_append,List.map_cons,List.map_nil,List.sum_singleton]
    omega
  · exact hexpanded

theorem Gathered.Bounded.readEntry {gathered next : Gathered} {entries : List ZipEntry} {entry : ZipEntry}
    (h : gathered.Bounded entries) (hread : readEntry gathered entry = .ok next) :
    next.Bounded (entries ++ [entry]) := by
  rw [Workspace.readEntry,bind_ok] at hread
  obtain ⟨_,hcheck,hread⟩ := hread
  have hplain := checkEntry_ok hcheck
  cases hdir : entry.isDir with
  | false =>
    rw [hdir,if_neg Bool.false_ne_true] at hread
    exact h.readFileEntry hplain hdir hread
  | true =>
    have hsame : gathered = next := by
      rw [hdir,if_pos rfl] at hread
      split at hread
      · obtain ⟨_,-,hsame⟩ := bind_ok.mp hread
        exact pure_ok.mp hsame
      · exact pure_ok.mp hread
    subst hsame
    refine { h with plain := ?_, names := ?_ }
    · intro other hother
      rcases List.mem_append.mp hother with hother | hother
      · exact h.plain other hother
      · rw [List.mem_singleton.mp hother]
        exact hplain
    · rw [List.filter_append,List.map_append,h.names]
      simp [hdir]

theorem Gathered.Bounded.readEntries {gathered next : Gathered} {entries : List ZipEntry}
    {more : List (Option ZipEntry)} (h : gathered.Bounded entries)
    (hread : readEntries gathered more = .ok next) :
    ∃ later, more = later.map some ∧ next.Bounded (entries ++ later) := by
  induction more generalizing gathered entries with
  | nil =>
    rw [Workspace.readEntries,pure_ok] at hread
    subst hread
    exact ⟨[],rfl,by simpa using h⟩
  | cons entry rest ih =>
    simp only [Workspace.readEntries,bind_ok,require_ok] at hread
    obtain ⟨entry,rfl,middle,hentry,hread⟩ := hread
    obtain ⟨later,rfl,hnext⟩ := ih (h.readEntry hentry) hread
    exact ⟨entry :: later,rfl,by simpa using hnext⟩

theorem bounded_nothing : (⟨[],0⟩ : Gathered).Bounded [] := by
  constructor <;> simp

/-! ## The walk over the central directory -/

/-- The ranges that a walk reads lie in the input, and there are no more of them than its records
have room for. -/
structure Walk.Inside (walk : Walk) (bytes : Bytes) (offset : ℕ) : Prop where
  within : ∀ read ∈ walk.reads, read.1 ≤ read.2 ∧ read.2 ≤ bytes.length
  count : 46 * walk.reads.length ≤ 3 * (bytes.length - offset) + 138

theorem slice_some {bytes part : Bytes} {start stop : ℕ} (h : slice bytes start stop = some part) :
    start ≤ stop ∧ stop ≤ bytes.length := by
  unfold slice at h
  split at h
  · assumption
  · cases h

theorem centralWalk_inside (bytes : Bytes) (paths : List LogicalPath) (offset : ℕ) :
    (centralWalk bytes paths offset).Inside bytes offset := by
  induction paths, offset using centralWalk.induct bytes with
  | case1 paths offset hsignature ih =>
    unfold centralWalk
    rw [dif_pos hsignature]
    cases hheader : slice bytes offset (offset + 46) with
    | none =>
      refine ⟨?_,by simp [Walk.after]⟩
      intro read hread
      rw [List.mem_singleton.mp hread]
      exact slice_some hsignature
    | some header =>
      cases hname : slice bytes (offset + 46) (offset + 46 + u16At header 28) with
      | none =>
        simp only [hname,Walk.after]
        refine ⟨?_,by simp⟩
        intro read hread
        rcases List.mem_pair.mp hread with rfl | rfl
        · exact slice_some hsignature
        · exact slice_some hheader
      | some name =>
        have hin := (slice_some hname).2
        have hcalls : ∀ read ∈ [(offset,offset + 4),(offset,offset + 46),
            (offset + 46,offset + 46 + u16At header 28)], read.1 ≤ read.2 ∧ read.2 ≤ bytes.length := by
          intro read hread
          simp only [List.mem_cons,List.not_mem_nil,or_false] at hread
          rcases hread with rfl | rfl | rfl
          · exact slice_some hsignature
          · exact slice_some hheader
          · exact slice_some hname
        cases hpaths : addCentralPath paths name with
        | error error =>
          simp only [hname,hpaths,Walk.after]
          exact ⟨hcalls,by simp⟩
        | ok more =>
          have hrest := ih header more
          have hcount := hrest.count
          simp only [hname,hpaths,Walk.after]
          refine ⟨?_,?_⟩
          · intro read hread
            simp only [List.mem_cons] at hread
            rcases hread with rfl | rfl | rfl | hread
            · exact slice_some hsignature
            · exact slice_some hheader
            · exact slice_some hname
            · exact hrest.within read hread
          · simp only [List.length_cons]
            omega
  | case2 paths offset hsignature =>
    unfold centralWalk
    rw [dif_neg hsignature]
    exact ⟨by simp,by simp⟩

theorem readArchive_ok {openZip : Bytes → Option ZipArchive} {bytes : Bytes} {imported : ImportedArchive}
    (h : readArchive openZip bytes = .ok imported) :
    ∃ archive entries expanded, openZip bytes = some archive ∧ archive.entries = entries.map some ∧
      (⟨imported.files,expanded⟩ : Gathered).Bounded entries ∧ imported.files ≠ [] := by
  simp only [readArchive,bind_ok,ensure_ok,require_ok,pure_ok,decide_eq_true_eq] at h
  obtain ⟨-,-,archive,harchive,-,-,-,-,gathered,hgathered,-,hne,rfl⟩ := h
  obtain ⟨entries,hentries,hbounded⟩ := bounded_nothing.readEntries hgathered
  exact ⟨archive,entries,gathered.expanded,harchive,hentries,hbounded,hne⟩

end LatexCore.Workspace
