import LatexCore.Core.Scan
import LatexCore.Core.Types
import LatexCore.Foundation.Transaction
import Std.Data.ExtTreeMap

/-! # The package database of TeX Live

The database is a text of records separated by blank lines. A line of a record is a
key and its value, and the lines after `runfiles` or `binfiles` that start with a blank
are the paths of a file section. Every path is checked before it is kept: whatever the
text, joined to a root it names a place under that root.
-/
namespace LatexCore.TexIndex
open Core Foundation Std

inductive TlpdbError
  | invalidTlpdb (message : List Char)
  | invalidPackagePath (value : List Char)
deriving DecidableEq

/-- A component of a path; there are no prefixes on Unix. -/
inductive Component
  | rootDir
  | curDir
  | parentDir
  | normal (name : List Char)
deriving DecidableEq

def isAbsolute (path : List Char) : Bool := path.head? == some '/'

def leadComponents (path : List Char) : List Component :=
  if isAbsolute path then [.rootDir]
  else if (path.splitOn '/').head? = some ['.'] then [.curDir] else []

def componentOf (name : List Char) : Component := if name = ['.','.'] then .parentDir else .normal name

/-- Repeated separators and dots that do not lead say nothing. -/
def bodyComponents (path : List Char) : List Component :=
  ((path.splitOn '/').filter (fun name => name ≠ [] ∧ name ≠ ['.'])).map componentOf

def components (path : List Char) : List Component := leadComponents path ++ bodyComponents path

def joinPath (root path : List Char) : List Char :=
  if isAbsolute path then path
  else if root = [] ∨ root.getLast? = some '/' then root ++ path
  else root ++ '/' :: path

def validateRelativePackagePath (value : List Char) : Except TlpdbError Unit :=
  ensure (¬(value = [] ∨ '\x00' ∈ value ∨ '\\' ∈ value ∨ isAbsolute value ∨
    (components value).any (fun c => c = .parentDir ∨ c = .rootDir))) (.invalidPackagePath value)

structure TlpdbPackageRecord where
  name : List Char
  category : List Char
  revision : ℕ
  catalogueVersion : Option (List Char)
  catalogueLicense : Option (List Char)
  runfiles : List (List Char)
  binfiles : List (List Char)
deriving DecidableEq

/-- The file section that the lines with a leading blank belong to. -/
inductive FileMode
  | none
  | runfiles
  | binfiles
deriving DecidableEq

@[ext] structure RecordFields where
  name : Option (List Char)
  category : Option (List Char)
  revision : Option ℕ
  catalogueVersion : Option (List Char)
  catalogueLicense : Option (List Char)
  runfiles : List (List Char)
  binfiles : List (List Char)
  mode : FileMode
deriving DecidableEq

def RecordFields.unread : RecordFields := ⟨none,none,none,none,none,[],[],.none⟩

def readPath (s : RecordFields) (path : List Char) : Except TlpdbError RecordFields :=
  match s.mode with
  | .none => pure s
  | .runfiles => do
    validateRelativePackagePath path
    pure { s with runfiles := s.runfiles ++ [path] }
  | .binfiles => do
    validateRelativePackagePath path
    pure { s with binfiles := s.binfiles ++ [path] }

/-- The keys the reader knows. -/
inductive TlpdbKey
  | name
  | category
  | revision
  | catalogueVersion
  | catalogueLicense
  | runfiles
  | binfiles
deriving DecidableEq

namespace TlpdbKey

def text : TlpdbKey → List Char
  | name => "name".toList
  | category => "category".toList
  | revision => "revision".toList
  | catalogueVersion => "catalogue-version".toList
  | catalogueLicense => "catalogue-license".toList
  | runfiles => "runfiles".toList
  | binfiles => "binfiles".toList

def parse? (text : List Char) : Option TlpdbKey :=
  [name,category,revision,catalogueVersion,catalogueLicense,runfiles,binfiles].find? (fun key => key.text = text)

@[simp] theorem parse?_text (key : TlpdbKey) : parse? key.text = some key := by
  cases key <;> decide

end TlpdbKey

def readField (s : RecordFields) (key value : List Char) : Except TlpdbError RecordFields :=
  match TlpdbKey.parse? key with
  | some .name => pure { s with name := some value }
  | some .category => pure { s with category := some value }
  | some .revision => do
    let revision ← require (parseUnsigned u64Max value)
      (.invalidTlpdb ("invalid revision: ".toList ++ value))
    pure { s with revision := some revision }
  | some .catalogueVersion => pure { s with catalogueVersion := some value }
  | some .catalogueLicense => pure { s with catalogueLicense := some value }
  | some .runfiles => pure { s with mode := .runfiles }
  | some .binfiles => pure { s with mode := .binfiles }
  | none => pure s

def keyValue (line : List Char) : List Char × List Char := (splitOnce ' ' line).getD (line,[])

def readLine (s : RecordFields) (line : List Char) : Except TlpdbError RecordFields :=
  match stripPrefix [' '] line with
  | some path => readPath s path
  | none => readField { s with mode := .none } (keyValue line).1 (keyValue line).2

/-- The records read so far and the names they were found under. -/
structure Database where
  result : ExtTreeMap (List Char) TlpdbPackageRecord
  seenNames : List (List Char)

def Database.empty : Database := ⟨∅,[]⟩

/-- The two records of a database that describe the installation itself. -/
def isMetadata (name category : List Char) (revision : Option ℕ) : Bool :=
  (name = "00texlive.config".toList || name = "00texlive.installation".toList) &&
    category = "TLCore".toList && revision.isNone

def addRecord (s : Database) (fields : RecordFields) : Except TlpdbError Database := do
  let name ← require (fields.name.filter (· ≠ [])) (.invalidTlpdb "record missing name".toList)
  let category ← require (fields.category.filter (· ≠ []))
    (.invalidTlpdb (name ++ ": missing category".toList))
  ensure (name ∉ s.seenNames) (.invalidTlpdb ("duplicate package: ".toList ++ name))
  if isMetadata name category fields.revision then
    pure { s with seenNames := name :: s.seenNames }
  else do
    let revision ← require fields.revision (.invalidTlpdb (name ++ ": missing revision".toList))
    pure ⟨s.result.insert name ⟨name,category,revision,fields.catalogueVersion,fields.catalogueLicense,
      fields.runfiles,fields.binfiles⟩,name :: s.seenNames⟩

/-- `str::replace` of `\r\n` by `\n`. -/
def replaceCrlf : List Char → List Char
  | [] => []
  | '\r' :: '\n' :: rest => '\n' :: replaceCrlf rest
  | c :: rest => c :: replaceCrlf rest

/-- `str::split` at `\n\n`. -/
def blocks : List Char → List (List Char)
  | [] => [[]]
  | '\n' :: '\n' :: rest => [] :: blocks rest
  | c :: rest => (blocks rest).modifyHead (c :: ·)

def readBlock (s : Database) (block : List Char) : Except TlpdbError Database :=
  if block.all isWhitespace then pure s
  else do
    let fields ← (lines block).foldlM readLine .unread
    addRecord s fields

def readTlpdb (input : List Char) : Except TlpdbError Database :=
  (blocks (replaceCrlf input)).foldlM readBlock .empty

def parseTlpdb (input : List Char) : Except TlpdbError (ExtTreeMap (List Char) TlpdbPackageRecord) :=
  (readTlpdb input).map Database.result

/-! ## The paths -/

/-- The place a walk along components ends at, as the names from the top directory on. -/
def walk (place : List (List Char)) : List Component → List (List Char)
  | [] => place
  | .rootDir :: rest => walk [] rest
  | .curDir :: rest => walk place rest
  | .parentDir :: rest => walk place.dropLast rest
  | .normal name :: rest => walk (place ++ [name]) rest

/-- Past the root, no step along the joined path leaves it. -/
def StaysUnder (root path : List Char) : Prop :=
  ∃ rest, components (joinPath root path) = components root ++ rest ∧
    ∀ (place : List (List Char)) (k : ℕ), place <+: walk place (rest.take k)

structure RelativePath (path : List Char) : Prop where
  named : path ≠ []
  noNul : '\x00' ∉ path
  noBackslash : '\\' ∉ path
  relative : isAbsolute path = false
  noParent : .parentDir ∉ components path

variable {path root : List Char}

theorem walk_prefix {comps : List Component} (h : ∀ c ∈ comps, c ≠ .parentDir ∧ c ≠ .rootDir)
    (place : List (List Char)) : place <+: walk place comps := by
  induction comps generalizing place with
  | nil => exact List.prefix_refl _
  | cons c comps ih =>
    rw [List.forall_mem_cons] at h
    cases c with
    | rootDir => exact absurd rfl h.1.2
    | parentDir => exact absurd rfl h.1.1
    | curDir => exact ih h.2 place
    | normal name => exact (List.prefix_append place [name]).trans (ih h.2 _)

theorem rootDir_not_mem_body : .rootDir ∉ bodyComponents path := by
  intro hmem
  obtain ⟨name,-,hname⟩ := List.mem_map.mp hmem
  unfold componentOf at hname
  split at hname <;> cases hname

theorem body_append : bodyComponents (root ++ '/' :: path) = bodyComponents root ++ bodyComponents path := by
  simp [bodyComponents,List.splitOn_append_cons_self]

theorem lead_append (hroot : root ≠ []) (tail : List Char) :
    leadComponents (root ++ '/' :: tail) = leadComponents root := by
  have hhead : (root ++ '/' :: tail).head? = root.head? := List.head?_append_of_ne_nil root hroot
  have hfirst : ((root ++ '/' :: tail).splitOn '/').head? = (root.splitOn '/').head? := by
    rw [List.splitOn_append_cons_self]
    exact List.head?_append_of_ne_nil _ (List.splitOn_ne_nil _ _)
  unfold leadComponents isAbsolute
  rw [hhead,hfirst]

theorem components_root_slash (path : List Char) :
    components ('/' :: path) = .rootDir :: bodyComponents path := by
  have hbody : bodyComponents ('/' :: path) = bodyComponents path := by
    have happend : bodyComponents ([] ++ '/' :: path) = bodyComponents [] ++ bodyComponents path := body_append
    simpa [bodyComponents] using happend
  simp [components,leadComponents,isAbsolute,hbody]

theorem components_join (hpath : isAbsolute path = false) :
    ∃ rest, components (joinPath root path) = components root ++ rest ∧
      ∀ c ∈ rest, c ∈ components path := by
  have hbody : ∀ c ∈ bodyComponents path, c ∈ components path := fun c hc => List.mem_append_right _ hc
  unfold joinPath
  rw [hpath,if_neg (by simp)]
  by_cases hroot : root = []
  · subst hroot
    refine ⟨components path,?_,fun c hc => hc⟩
    simp [components,leadComponents,bodyComponents,isAbsolute]
  by_cases hslash : root.getLast? = some '/'
  · rw [if_pos (.inr hslash)]
    obtain ⟨init,rfl⟩ := List.getLast?_eq_some_iff.mp hslash
    refine ⟨bodyComponents path,?_,hbody⟩
    rw [List.append_assoc,List.singleton_append]
    by_cases hinit : init = []
    · subst hinit
      rw [List.nil_append,List.nil_append,components_root_slash,components_root_slash]
      rfl
    · have hnone : bodyComponents [] = [] := rfl
      rw [components,components,lead_append hinit,lead_append hinit,body_append,body_append,hnone]
      simp
  · rw [if_neg (by simp [hroot,hslash])]
    refine ⟨bodyComponents path,?_,hbody⟩
    rw [components,components,lead_append hroot,body_append,List.append_assoc]

theorem rootDir_not_mem_components (hpath : isAbsolute path = false) : .rootDir ∉ components path := by
  intro hmem
  rcases List.mem_append.mp hmem with hlead | hbody
  · rw [leadComponents,hpath,if_neg (by simp)] at hlead
    split_ifs at hlead
    · cases List.mem_singleton.mp hlead
    · cases hlead
  · exact rootDir_not_mem_body hbody

theorem validate_ok : validateRelativePackagePath path = .ok () ↔ RelativePath path := by
  have hcheck : validateRelativePackagePath path = .ok () ↔
      path ≠ [] ∧ '\x00' ∉ path ∧ '\\' ∉ path ∧ isAbsolute path = false ∧
        ∀ c ∈ components path, c ≠ .parentDir ∧ c ≠ .rootDir := by
    simp [validateRelativePackagePath]
  rw [hcheck]
  constructor
  · rintro ⟨hnamed,hnul,hback,hrel,hcomps⟩
    exact ⟨hnamed,hnul,hback,hrel,fun hmem => (hcomps _ hmem).1 rfl⟩
  · intro h
    refine ⟨h.named,h.noNul,h.noBackslash,h.relative,fun c hc => ⟨?_,?_⟩⟩
    · rintro rfl
      exact h.noParent hc
    · rintro rfl
      exact rootDir_not_mem_components h.relative hc

theorem RelativePath.staysUnder (h : RelativePath path) (root : List Char) : StaysUnder root path := by
  obtain ⟨rest,hjoin,hrest⟩ : ∃ rest, components (joinPath root path) = components root ++ rest ∧
      ∀ c ∈ rest, c ∈ components path := components_join h.relative
  refine ⟨rest,hjoin,fun place k => walk_prefix ?_ place⟩
  intro c hc
  have hmem := hrest c (List.mem_of_mem_take hc)
  constructor
  · rintro rfl
    exact h.noParent hmem
  · rintro rfl
    exact rootDir_not_mem_components h.relative hmem

/-! ## What is kept -/

def RecordFields.Checked (s : RecordFields) : Prop :=
  ∀ path ∈ s.runfiles ++ s.binfiles, validateRelativePackagePath path = .ok ()

def Database.Checked (s : Database) : Prop :=
  ∀ (name : List Char) (record : TlpdbPackageRecord), s.result[name]? = some record →
    ∀ path ∈ record.runfiles ++ record.binfiles, validateRelativePackagePath path = .ok ()

theorem readField_files {s s' : RecordFields} {key value : List Char}
    (h : readField s key value = .ok s') : s'.runfiles = s.runfiles ∧ s'.binfiles = s.binfiles := by
  unfold readField at h
  split at h
  all_goals first
    | (obtain rfl := pure_ok.mp h; exact ⟨rfl,rfl⟩)
    | (obtain ⟨revision,-,hs⟩ := bind_ok.mp h; obtain rfl := pure_ok.mp hs; exact ⟨rfl,rfl⟩)

theorem readPath_checked {s s' : RecordFields} (h : readPath s path = .ok s') (hs : s.Checked) :
    s'.Checked := by
  unfold readPath at h
  cases hmode : s.mode with
  | none =>
    rw [hmode] at h
    obtain rfl := pure_ok.mp h
    exact hs
  | runfiles =>
    rw [hmode] at h
    obtain ⟨⟨⟩,hvalid,hs'⟩ := bind_ok.mp h
    obtain rfl := pure_ok.mp hs'
    intro other hother
    simp only [List.mem_append,List.mem_singleton] at hother
    rcases hother with (hother | rfl) | hother
    · exact hs other (List.mem_append_left _ hother)
    · exact hvalid
    · exact hs other (List.mem_append_right _ hother)
  | binfiles =>
    rw [hmode] at h
    obtain ⟨⟨⟩,hvalid,hs'⟩ := bind_ok.mp h
    obtain rfl := pure_ok.mp hs'
    intro other hother
    simp only [List.mem_append,List.mem_singleton] at hother
    rcases hother with hother | hother | rfl
    · exact hs other (List.mem_append_left _ hother)
    · exact hs other (List.mem_append_right _ hother)
    · exact hvalid

theorem readLine_checked {s s' : RecordFields} {line : List Char} (h : readLine s line = .ok s')
    (hs : s.Checked) : s'.Checked := by
  unfold readLine at h
  split at h
  · exact readPath_checked h hs
  · obtain ⟨hrun,hbin⟩ := readField_files h
    rw [RecordFields.Checked,hrun,hbin]
    exact hs

/-- What a step keeps and a run starts with holds where the run ends. -/
theorem foldlM_ok {σ α ε : Type} {step : σ → α → Except ε σ} (p : σ → Prop)
    (hstep : ∀ s a s', step s a = .ok s' → p s → p s') {l : List α} {s s' : σ}
    (h : l.foldlM step s = .ok s') (hs : p s) : p s' := by
  induction l generalizing s with
  | nil =>
    obtain rfl := pure_ok.mp h
    exact hs
  | cons a l ih =>
    rw [List.foldlM_cons] at h
    obtain ⟨next,hnext,hrest⟩ := bind_ok.mp h
    exact ih hrest (hstep s a next hnext hs)

theorem addRecord_ok {s s' : Database} {fields : RecordFields} :
    addRecord s fields = .ok s' ↔ ∃ name category, fields.name = some name ∧ name ≠ [] ∧
      fields.category = some category ∧ category ≠ [] ∧ name ∉ s.seenNames ∧
      (isMetadata name category fields.revision = true ∧ s' = ⟨s.result,name :: s.seenNames⟩ ∨
        isMetadata name category fields.revision = false ∧ ∃ revision, fields.revision = some revision ∧
          s' = ⟨s.result.insert name ⟨name,category,revision,fields.catalogueVersion,
            fields.catalogueLicense,fields.runfiles,fields.binfiles⟩,name :: s.seenNames⟩) := by
  unfold addRecord
  simp only [bind_ok,require_ok,ensure_ok,Option.filter_eq_some_iff,decide_eq_true_eq]
  constructor
  · rintro ⟨name,⟨hname,hnamed⟩,category,⟨hcategory,hne⟩,⟨⟩,hnew,h⟩
    refine ⟨name,category,hname,hnamed,hcategory,hne,hnew,?_⟩
    cases hmeta : isMetadata name category fields.revision with
    | true =>
      rw [hmeta,if_pos rfl] at h
      exact .inl ⟨rfl,(pure_ok.mp h).symm⟩
    | false =>
      rw [hmeta,if_neg (by simp)] at h
      obtain ⟨revision,hrevision,hs⟩ := bind_ok.mp h
      exact .inr ⟨rfl,revision,require_ok.mp hrevision,(pure_ok.mp hs).symm⟩
  · rintro ⟨name,category,hname,hnamed,hcategory,hne,hnew,h⟩
    refine ⟨name,⟨hname,hnamed⟩,category,⟨hcategory,hne⟩,(),hnew,?_⟩
    rcases h with ⟨hmeta,rfl⟩ | ⟨hmeta,revision,hrevision,rfl⟩
    · rw [hmeta,if_pos rfl]
      rfl
    · rw [hmeta,if_neg (by simp)]
      exact bind_ok.mpr ⟨revision,require_ok.mpr hrevision,rfl⟩

theorem addRecord_checked {s s' : Database} {fields : RecordFields} (h : addRecord s fields = .ok s')
    (hfields : fields.Checked) (hs : s.Checked) : s'.Checked := by
  obtain ⟨name,category,-,-,-,-,-,⟨-,rfl⟩ | ⟨-,revision,-,rfl⟩⟩ := addRecord_ok.mp h
  · exact hs
  · intro other record hrecord
    rw [ExtTreeMap.getElem?_insert] at hrecord
    split_ifs at hrecord
    · obtain rfl := Option.some.inj hrecord
      exact hfields
    · exact hs other record hrecord

theorem readBlock_checked {s s' : Database} {block : List Char} (h : readBlock s block = .ok s')
    (hs : s.Checked) : s'.Checked := by
  unfold readBlock at h
  split_ifs at h
  · obtain rfl := pure_ok.mp h
    exact hs
  · obtain ⟨fields,hfields,hadd⟩ := bind_ok.mp h
    have hstart : RecordFields.unread.Checked := by simp [RecordFields.Checked,RecordFields.unread]
    have hchecked := foldlM_ok RecordFields.Checked (fun _ _ _ => readLine_checked) hfields hstart
    exact addRecord_checked hadd hchecked hs

theorem parsed_relative {input : List Char} {result : ExtTreeMap (List Char) TlpdbPackageRecord}
    (h : parseTlpdb input = .ok result) {name : List Char} {record : TlpdbPackageRecord}
    (hrecord : result[name]? = some record) :
    ∀ path ∈ record.runfiles ++ record.binfiles, RelativePath path := by
  obtain ⟨s,hread,rfl⟩ := map_ok.mp h
  have hempty : Database.empty.Checked := by simp [Database.Checked,Database.empty]
  have hchecked := foldlM_ok Database.Checked (fun _ _ _ => readBlock_checked) hread hempty
  intro path hpath
  exact validate_ok.mp (hchecked name record hrecord path hpath)

end LatexCore.TexIndex
