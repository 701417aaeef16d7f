import LatexCore.Core.Types
import LatexCore.Foundation.Transaction
import Std.Data.ExtTreeMap

/-! # The index of a TeX environment

An index holds the release, the packages with their runtime files, the tools and
the configuration files of one installed environment, each under its name. The
constructors check what they are given and sort the files of a package; the index
also lists the files by their basename.
-/
namespace LatexCore.TexIndex
open Core Foundation Std

inductive TexIndexError
  | unsupportedSchema (version : ℕ)
  | serialization (message : String)
  | internalInvariant (message : String)
deriving DecidableEq

inductive TexToolKind
  | kpsewhich | tlmgr | pdfLatex | luaLatex | xeLatex | bibtex | biber | makeindex | makeglossaries
  | latexmk
deriving DecidableEq

namespace TexToolKind

/-- The place in the derived order. -/
def index : TexToolKind → ℕ
  | kpsewhich => 0
  | tlmgr => 1
  | pdfLatex => 2
  | luaLatex => 3
  | xeLatex => 4
  | bibtex => 5
  | biber => 6
  | makeindex => 7
  | makeglossaries => 8
  | latexmk => 9

theorem index_injective {a b : TexToolKind} (h : a.index = b.index) : a = b := by
  cases a <;> cases b <;> first | rfl | cases h

instance : Ord TexToolKind := ⟨fun a b => compare a.index b.index⟩

theorem compare_eq (a b : TexToolKind) : compare a b = compare a.index b.index := rfl

instance : TransOrd TexToolKind where
  eq_swap := by
    intro a b
    rw [compare_eq,compare_eq]
    exact OrientedCmp.eq_swap
  isLE_trans := by
    intro a b c hab hbc
    rw [compare_eq] at hab hbc ⊢
    exact TransCmp.isLE_trans hab hbc

instance : LawfulEqOrd TexToolKind where
  compare_self := by
    intro a
    rw [compare_eq]
    exact ReflCmp.compare_self
  eq_of_compare := by
    intro a b h
    rw [compare_eq] at h
    exact index_injective (LawfulEqCmp.eq_of_compare h)

end TexToolKind

def validateHash (value : String) : Except TexIndexError Unit :=
  ensure (isDigestText value) (.internalInvariant ("invalid SHA-256: " ++ value))

structure TexToolRecord where
  kind : TexToolKind
  versionOutput : String
  binarySha256 : String
deriving DecidableEq

def TexToolRecord.new (kind : TexToolKind) (versionOutput binarySha256 : String) :
    Except TexIndexError TexToolRecord := do
  validateHash binarySha256
  ensure (versionOutput ≠ "") (.internalInvariant "empty tool version")
  pure ⟨kind,versionOutput,binarySha256⟩

structure TexLiveRelease where
  year : UInt16
  platform : String
deriving DecidableEq

def isAscii (text : String) : Bool := text.toList.all (fun c => c.toNat < 128)

def TexLiveRelease.new (year : UInt16) (platform : String) : Except TexIndexError TexLiveRelease := do
  ensure (¬(year = 0 ∨ platform = "" ∨ isAscii platform = false))
    (.internalInvariant "invalid release")
  pure ⟨year,platform⟩

inductive TexFileKind
  | style | class_ | bibliographyStyle | biblatexStyle | biblatexCitationStyle | openTypeFont
  | trueTypeFont | type1Font | teXFontMetric | otherRuntime
deriving DecidableEq

structure IndexedTexFile where
  relativePath : String
  basename : String
  kind : TexFileKind
  sha256 : String
deriving DecidableEq

def afterLast (separator : Char) (text : List Char) : List Char :=
  (text.reverse.takeWhile (· ≠ separator)).reverse

def kindOf (basename : List Char) : TexFileKind :=
  let ext := if '.' ∈ basename then (afterLast '.' basename).map Char.toLower else []
  match String.ofList ext with
  | "sty" => .style
  | "cls" => .class_
  | "bst" => .bibliographyStyle
  | "bbx" => .biblatexStyle
  | "cbx" => .biblatexCitationStyle
  | "otf" => .openTypeFont
  | "ttf" => .trueTypeFont
  | "pfb" => .type1Font
  | "tfm" => .teXFontMetric
  | _ => .otherRuntime

def IndexedTexFile.new (relativePath sha256 : String) : Except TexIndexError IndexedTexFile := do
  validateHash sha256
  let basename := afterLast '/' relativePath.toList
  ensure (basename ≠ []) (.internalInvariant "runtime path has no basename")
  pure ⟨relativePath,String.ofList basename,kindOf basename,sha256⟩

structure TexLivePackage where
  name : String
  category : String
  revision : UInt64
  catalogueVersion : Option String
  catalogueLicense : Option String
  runtimeFiles : List IndexedTexFile
deriving DecidableEq

def pathAtMost (a b : IndexedTexFile) : Bool := (compare a.relativePath b.relativePath).isLE

def TexLivePackage.new (name category : String) (revision : UInt64)
    (catalogueVersion catalogueLicense : Option String) (runtimeFiles : List IndexedTexFile) :
    Except TexIndexError TexLivePackage := do
  ensure (¬(name = "" ∨ category = "")) (.internalInvariant "invalid package")
  pure ⟨name,category,revision,catalogueVersion,catalogueLicense,runtimeFiles.mergeSort pathAtMost⟩

structure TexConfigRecord where
  logicalName : String
  sha256 : String
deriving DecidableEq

def TexConfigRecord.new (logicalName sha256 : String) : Except TexIndexError TexConfigRecord := do
  validateHash sha256
  ensure (logicalName ≠ "") (.internalInvariant "empty config name")
  pure ⟨logicalName,sha256⟩

abbrev Packages := ExtTreeMap String TexLivePackage
abbrev Tools := ExtTreeMap TexToolKind TexToolRecord
abbrev ConfigFiles := ExtTreeMap String TexConfigRecord
abbrev FilesByBasename := ExtTreeMap String (List (String × IndexedTexFile))

structure TexEnvironmentIndexV1 where
  schemaVersion : ℕ
  release : TexLiveRelease
  packages : Packages
  tools : Tools
  configFiles : ConfigFiles
  filesByBasename : FilesByBasename

/-! ## The constructor of the index -/

/-- The checks of a loop, in its order. -/
def checkAll {α : Type} (check : α → Except TexIndexError Unit) : List α → Except TexIndexError Unit
  | [] => pure ()
  | a :: rest => do
    check a
    checkAll check rest

theorem checkAll_ok {α : Type} {check : α → Except TexIndexError Unit} {items : List α} {u : Unit} :
    checkAll check items = .ok u ↔ ∀ a ∈ items, check a = .ok () := by
  induction items with
  | nil => simp [checkAll,pure,Except.pure]
  | cons a rest ih =>
    rw [checkAll,bind_ok,List.forall_mem_cons]
    constructor
    · rintro ⟨⟨⟩,ha,hrest⟩
      exact ⟨ha,ih.mp hrest⟩
    · rintro ⟨ha,hrest⟩
      exact ⟨(),ha,ih.mpr hrest⟩

def checkPackage (entry : String × TexLivePackage) : Except TexIndexError Unit := do
  ensure (entry.1 = entry.2.name) (.internalInvariant "package map key mismatch")
  checkAll (fun file => validateHash file.sha256) entry.2.runtimeFiles

def checkTool (entry : TexToolKind × TexToolRecord) : Except TexIndexError Unit := do
  ensure (entry.1 = entry.2.kind) (.internalInvariant "tool map key mismatch")
  validateHash entry.2.binarySha256

def checkConfigFile (entry : String × TexConfigRecord) : Except TexIndexError Unit := do
  ensure (entry.1 = entry.2.logicalName) (.internalInvariant "config map key mismatch")
  validateHash entry.2.sha256

def addFile (package : String) (files : FilesByBasename) (file : IndexedTexFile) : FilesByBasename :=
  files.insert file.basename ((files[file.basename]?.getD []) ++ [(package,file)])

def rebuildQueries (packages : Packages) : FilesByBasename :=
  packages.toList.foldl (fun files entry => entry.2.runtimeFiles.foldl (addFile entry.1) files) ∅

namespace TexEnvironmentIndexV1

def new (release : TexLiveRelease) (packages : Packages) (tools : Tools) (configFiles : ConfigFiles) :
    Except TexIndexError TexEnvironmentIndexV1 := do
  checkAll checkPackage packages.toList
  checkAll checkTool tools.toList
  checkAll checkConfigFile configFiles.toList
  pure ⟨1,release,packages,tools,configFiles,rebuildQueries packages⟩

/-- What every index keeps, since the constructor is the only way to one. -/
structure Kept (x : TexEnvironmentIndexV1) : Prop where
  schema : x.schemaVersion = 1
  queries : x.filesByBasename = rebuildQueries x.packages
  packages : ∀ entry ∈ x.packages.toList, checkPackage entry = .ok ()
  tools : ∀ entry ∈ x.tools.toList, checkTool entry = .ok ()
  configFiles : ∀ entry ∈ x.configFiles.toList, checkConfigFile entry = .ok ()

theorem new_ok {release : TexLiveRelease} {packages : Packages} {tools : Tools}
    {configFiles : ConfigFiles} {x : TexEnvironmentIndexV1}
    (h : new release packages tools configFiles = .ok x) :
    x.Kept ∧ x.release = release ∧ x.packages = packages ∧ x.tools = tools ∧
      x.configFiles = configFiles := by
  simp only [new,bind_ok,checkAll_ok,pure_ok] at h
  obtain ⟨_,hpackages,_,htools,_,hconfig,rfl⟩ := h
  exact ⟨⟨rfl,rfl,hpackages,htools,hconfig⟩,rfl,rfl,rfl,rfl⟩

/-- Constructing an index again from its parts. -/
theorem Kept.new {x : TexEnvironmentIndexV1} (h : x.Kept) :
    new x.release x.packages x.tools x.configFiles = .ok x := by
  simp only [TexEnvironmentIndexV1.new,bind_ok,checkAll_ok,pure_ok]
  refine ⟨(),h.packages,(),h.tools,(),h.configFiles,?_⟩
  cases x
  rw [TexEnvironmentIndexV1.mk.injEq]
  exact ⟨h.schema.symm,rfl,rfl,rfl,rfl,h.queries.symm⟩

theorem Kept.package_name {x : TexEnvironmentIndexV1} (h : x.Kept) {name : String}
    {package : TexLivePackage} (hget : x.packages[name]? = some package) : package.name = name := by
  have hcheck := h.packages (name,package) (ExtTreeMap.mem_toList_iff_getElem?_eq_some.mpr hget)
  simp only [checkPackage,bind_ok,ensure_ok,decide_eq_true_eq] at hcheck
  obtain ⟨_,hname,_⟩ := hcheck
  exact hname.symm

end TexEnvironmentIndexV1

/-! ## Built indexes -/

def IndexedTexFile.Built (file : IndexedTexFile) : Prop :=
  ∃ relativePath sha256, IndexedTexFile.new relativePath sha256 = .ok file

def TexLivePackage.Built (package : TexLivePackage) : Prop :=
  ∃ name category revision catalogueVersion catalogueLicense files,
    (∀ file ∈ files, file.Built) ∧ (files.map IndexedTexFile.relativePath).Nodup ∧
      TexLivePackage.new name category revision catalogueVersion catalogueLicense files = .ok package

def TexToolRecord.Built (tool : TexToolRecord) : Prop :=
  ∃ kind versionOutput binarySha256,
    TexToolRecord.new kind versionOutput binarySha256 = .ok tool

def TexConfigRecord.Built (config : TexConfigRecord) : Prop :=
  ∃ logicalName sha256, TexConfigRecord.new logicalName sha256 = .ok config

/-- An index that the public constructors build. -/
def TexEnvironmentIndexV1.Built (x : TexEnvironmentIndexV1) : Prop :=
  ∃ (year : UInt16) (platform : String) (release : TexLiveRelease) (packages : Packages)
    (tools : Tools) (configFiles : ConfigFiles),
    TexLiveRelease.new year platform = .ok release ∧
      (∀ (name : String) (package : TexLivePackage), packages[name]? = some package → package.Built) ∧
      (∀ (kind : TexToolKind) (tool : TexToolRecord), tools[kind]? = some tool → tool.Built) ∧
      (∀ (name : String) (config : TexConfigRecord), configFiles[name]? = some config → config.Built) ∧
      TexEnvironmentIndexV1.new release packages tools configFiles = .ok x

end LatexCore.TexIndex
