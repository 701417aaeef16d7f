import LatexCore.Core.Scan
import LatexCore.Foundation.Value
import LatexCore.Workspace.Archive
import LatexCore.Workspace.Snapshot

/-! # Front Matter Packs

A pack is an archive with a manifest, which declares its sections and its fields, and
with TeX files that name the fields in placeholders. The checks of an upload accept a
pack only if its files and its manifest agree.

The values of the fields come from the team, from its data or from the defaults of the
pack. With every required value there, each TeX file is copied under the managed root
with its placeholders replaced by the LaTeX text of their values.
-/
namespace LatexCore.FrontMatter
open Core Foundation Workspace

def manifestPath : String := "frontmatter.json"
def managedRoot : String := ".latex-core/frontmatter"

def allowedSources : List String :=
  ["team.name","team.academic_year","team.semester","team.dominant_programme_code","writers.names",
    "writers.registration_numbers","writers.names_and_registration_numbers","leader.name",
    "leader.registration_number","mentor.name","mentor.honorific","mentor.designation","mentor.faculty_id",
    "department.id","school.id"]

structure FrontMatterSection where
  key : String
  label : String
  file : String
  required : Bool
  defaultEnabled : Bool

inductive FrontMatterFieldType
  | text | multiline | date | boolean
deriving DecidableEq

structure FrontMatterField where
  key : String
  label : String
  fieldType : FrontMatterFieldType
  required : Bool
  source : Option String
  default : Option Value
  allowTeamOverride : Bool

structure FrontMatterManifest where
  schemaVersion : ℕ
  entryFile : String
  sections : List FrontMatterSection
  fields : List FrontMatterField

structure ValidatedPack where
  manifest : FrontMatterManifest
  files : List ImportedFile

inductive FrontMatterError
  | missingManifest | invalidManifest | schemaVersion | missingTex
  | unsupportedFile (path : String)
  | invalidPath (path : String)
  | missingFile (path : String)
  | duplicateKey (key : String)
  | invalidKey (key : String)
  | invalidLabel
  | unsupportedSource (source : String)
  | invalidDefault (key : String)
  | unknownPlaceholder (key : String)
  | malformedPlaceholder (path : String)
  | missingRequired (labels : List String)
  | invalidValue (key : String)
deriving DecidableEq

/-! ## Values -/

def isLower (c : Char) : Bool := 'a' ≤ c && c ≤ 'z'

def validateKey (value : String) : Except FrontMatterError Unit :=
  ensure (match value.toList with
    | [] => false
    | first :: rest => isLower first && value.utf8ByteSize ≤ 100 &&
      rest.all (fun c => isLower c || c.isDigit || c == '_')) (.invalidKey value)

def validateLabel (value : String) : Except FrontMatterError Unit :=
  ensure (trim value ≠ "" && value.length ≤ 200) .invalidLabel

def daysOf (year month : ℕ) : ℕ :=
  if month ∈ [1,3,5,7,8,10,12] then 31
  else if month ∈ [4,6,9,11] then 30
  else if month = 2 then
    if year % 4 = 0 ∧ (year % 100 ≠ 0 ∨ year % 400 = 0) then 29 else 28
  else 0

def validDate (value : String) : Bool :=
  match value.toList with
  | [a,b,c,d,'-',e,f,'-',g,h] =>
    [a,b,c,d,e,f,g,h].all Char.isDigit &&
      (let day := digitsValue [g,h]
       1 ≤ day && day ≤ daysOf (digitsValue [a,b,c,d]) (digitsValue [e,f]))
  | _ => false

def valueMatches (fieldType : FrontMatterFieldType) (value : Value) : Bool :=
  match fieldType with
  | .boolean => value.asBool?.isSome
  | .date => value.asStr?.any validDate
  | .text => value.asStr?.isSome
  | .multiline => value.asStr?.isSome || value.asArr?.any (·.all (·.asStr?.isSome))

/-- The value counts as missing where one is required. -/
def emptyValue (value : Value) : Bool :=
  value.asStr?.any (fun text => trim text = "") || value.asArr?.any List.isEmpty

/-! ## Placeholders -/

def openBraces : List Char := ['{','{']
def closeBraces : List Char := ['}','}']

theorem length_after_lt {source literal rest inner after : List Char}
    (hopen : splitAtText openBraces source = some (literal,rest))
    (hclose : splitAtText closeBraces rest = some (inner,after)) : after.length < source.length := by
  have hsource := congrArg List.length (splitAtText_eq_some hopen)
  have hrest := congrArg List.length (splitAtText_eq_some hclose)
  simp only [List.length_append,openBraces,closeBraces,List.length_cons,List.length_nil] at hsource hrest
  omega

/-- The keys of the placeholders of a TeX file, in order. -/
def placeholders (path : String) (source : List Char) : Except FrontMatterError (List String) :=
  match _hopen : splitAtText openBraces source with
  | none => .ok []
  | some (_,rest) =>
    match _hclose : splitAtText closeBraces rest with
    | none => .error (.malformedPlaceholder path)
    | some (inner,after) => do
      let key := trim (String.ofList inner)
      validateKey key
      let later ← placeholders path after
      pure (key :: later)
termination_by source.length
decreasing_by exact length_after_lt _hopen _hclose

/-! ## Validation -/

def validateReferencedTex (value : String) (files : List ImportedFile) : Except FrontMatterError Unit := do
  let path ← (LogicalPath.parse value).mapError (fun _ => .invalidPath value)
  ensure (extension path = some "tex") (.invalidPath value)
  ensure (files.any (fun file => file.path.text = path.text)) (.missingFile value)

def validateSections (files : List ImportedFile) (seen : List String) :
    List FrontMatterSection → Except FrontMatterError Unit
  | [] => pure ()
  | item :: rest => do
    validateKey item.key
    validateLabel item.label
    ensure (!seen.contains item.key) (.duplicateKey item.key)
    ensure (!item.required || item.defaultEnabled) (.invalidDefault item.key)
    validateReferencedTex item.file files
    validateSections files (item.key :: seen) rest

def validateFields (seen : List String) : List FrontMatterField → Except FrontMatterError Unit
  | [] => pure ()
  | field :: rest => do
    validateKey field.key
    validateLabel field.label
    ensure (!seen.contains field.key) (.duplicateKey field.key)
    ensure (field.source.all (allowedSources.contains ·)) (.unsupportedSource (field.source.getD ""))
    ensure (field.default.all (valueMatches field.fieldType)) (.invalidDefault field.key)
    validateFields (field.key :: seen) rest

def checkDeclared (fields : List FrontMatterField) : List String → Except FrontMatterError Unit
  | [] => pure ()
  | key :: rest => do
    ensure (fields.any (fun field => field.key = key)) (.unknownPlaceholder key)
    checkDeclared fields rest

def validateTex (fields : List FrontMatterField) (file : ImportedFile) : Except FrontMatterError Unit :=
  if file.isTex then do
    let text ← require (decodeUtf8 file.bytes) .invalidManifest
    let keys ← placeholders file.path.text text
    checkDeclared fields keys
  else pure ()

def validatePlaceholders (fields : List FrontMatterField) : List ImportedFile → Except FrontMatterError Unit
  | [] => pure ()
  | file :: rest => do
    validateTex fields file
    validatePlaceholders fields rest

def validateManifest (manifest : FrontMatterManifest) (files : List ImportedFile) :
    Except FrontMatterError Unit := do
  ensure (manifest.schemaVersion = 1) .schemaVersion
  validateReferencedTex manifest.entryFile files
  validateSections files [] manifest.sections
  validateFields [] manifest.fields
  validatePlaceholders manifest.fields files

def allowedExtensions : List String := ["tex","png","jpg","jpeg","pdf","bib"]

def checkFiles : List ImportedFile → Except FrontMatterError Unit
  | [] => pure ()
  | file :: rest => do
    let suffix := (((extension file.path).getD "").toList.map Char.toLower)
    ensure (allowedExtensions.contains (String.ofList suffix) || file.path.text = manifestPath)
      (.unsupportedFile file.path.text)
    checkFiles rest

/-- The checks of an upload. Decoding the manifest from JSON is left to its reader. -/
def validateArchive (readManifest : Bytes → Option FrontMatterManifest) (archive : ImportedArchive) :
    Except FrontMatterError ValidatedPack := do
  let manifestFile ← require (archive.files.find? (fun file => file.path.text = manifestPath)) .missingManifest
  ensure (archive.files.any ImportedFile.isTex) .missingTex
  checkFiles archive.files
  let manifest ← require (readManifest manifestFile.bytes) .invalidManifest
  validateManifest manifest archive.files
  pure ⟨manifest,archive.files⟩

theorem checkDeclared_ok {fields : List FrontMatterField} {keys : List String}
    (h : checkDeclared fields keys = .ok ()) : ∀ key ∈ keys, ∃ field ∈ fields, field.key = key := by
  induction keys with
  | nil => simp
  | cons key rest ih =>
    simp only [checkDeclared,bind_ok,ensure_ok,List.any_eq_true,decide_eq_true_eq] at h
    obtain ⟨-,hkey,hrest⟩ := h
    intro other hother
    rcases List.mem_cons.mp hother with rfl | hother
    · exact hkey
    · exact ih hrest other hother

theorem validatePlaceholders_ok {fields : List FrontMatterField} {files : List ImportedFile}
    (h : validatePlaceholders fields files = .ok ()) : ∀ file ∈ files, file.isTex = true →
      ∃ text keys, decodeUtf8 file.bytes = some text ∧ placeholders file.path.text text = .ok keys ∧
        ∀ key ∈ keys, ∃ field ∈ fields, field.key = key := by
  induction files with
  | nil => simp
  | cons file rest ih =>
    intro other hother htex
    rw [validatePlaceholders,bind_ok] at h
    obtain ⟨_,hfile,hrest⟩ := h
    rcases List.mem_cons.mp hother with rfl | hother
    · rw [validateTex,if_pos htex] at hfile
      simp only [bind_ok,require_ok] at hfile
      obtain ⟨text,htext,keys,hkeys,hdeclared⟩ := hfile
      exact ⟨text,keys,htext,hkeys,checkDeclared_ok hdeclared⟩
    · exact ih hrest other hother htex

theorem validateArchive_ok {readManifest : Bytes → Option FrontMatterManifest} {archive : ImportedArchive}
    {pack : ValidatedPack} (h : validateArchive readManifest archive = .ok pack) :
    pack.files = archive.files ∧ validatePlaceholders pack.manifest.fields pack.files = .ok () := by
  simp only [validateArchive,validateManifest,bind_ok,pure_ok] at h
  obtain ⟨_,-,_,-,_,-,manifest,-,_,⟨_,-,_,-,_,-,_,-,hplaceholders⟩,rfl⟩ := h
  exact ⟨rfl,hplaceholders⟩

/-! ## Rendering -/

open Core Foundation Workspace Std

abbrev StringMap (α : Type) := ExtTreeMap String α compare

structure ResolvedValue where
  value : Value
  source : String

structure RenderedFile where
  path : LogicalPath
  bytes : Bytes

structure RenderedPack where
  files : List RenderedFile
  resolved : StringMap ResolvedValue
  enabledSections : StringMap Bool

/-! ## LaTeX text of values -/

def escapeLatexChar (c : Char) : List Char :=
  match c with
  | '\\' => "\\textbackslash\x7b\x7d".toList
  | '{' => ['\\','{']
  | '}' => ['\\','}']
  | '$' => ['\\','$']
  | '&' => ['\\','&']
  | '#' => ['\\','#']
  | '%' => ['\\','%']
  | '_' => ['\\','_']
  | '^' => "\\textasciicircum\x7b\x7d".toList
  | '~' => "\\textasciitilde\x7b\x7d".toList
  | c => [c]

def escapeLatexText (value : List Char) : List Char := value.flatMap escapeLatexChar

def itemBreak : List Char := ['\\','\\','\n']
def lineEnd : List Char := "\\par\n".toList

/-- `str::replace` of the line ends by spaces. -/
def onOneLine (text : List Char) : List Char := text.map (fun c => if c = '\r' ∨ c = '\n' then ' ' else c)

def itemsOf (items : List Value) : List (List Char) := (items.filterMap Value.asStr?).map String.toList

def renderValue (fieldType : FrontMatterFieldType) (value : Value) : List Char :=
  match value.asArr? with
  | some items => itemBreak.intercalate ((itemsOf items).map escapeLatexText)
  | none =>
    match value.asBool? with
    | some value => if value then "true".toList else "false".toList
    | none =>
      let text := (value.asStr?.getD "").toList
      if fieldType = .multiline then lineEnd.intercalate ((lines text).map escapeLatexText)
      else escapeLatexText (onOneLine text)

/-! ## Templates -/

def fieldAt (manifest : FrontMatterManifest) (key : String) : Option FrontMatterField :=
  manifest.fields.reverse.find? (fun field => field.key = key)

/-- The text that replaces a placeholder; a field without a value leaves nothing. -/
def replacement (values : StringMap ResolvedValue) (field : FrontMatterField) (key : String) : List Char :=
  values[key]?.elim [] (fun value => renderValue field.fieldType value.value)

def renderTex (path : String) (manifest : FrontMatterManifest) (values : StringMap ResolvedValue)
    (source : List Char) : Except FrontMatterError (List Char) :=
  match _hopen : splitAtText openBraces source with
  | none => .ok source
  | some (literal,rest) =>
    match _hclose : splitAtText closeBraces rest with
    | none => .error (.malformedPlaceholder path)
    | some (inner,after) => do
      let key := trim (String.ofList inner)
      let field ← require (fieldAt manifest key) (.unknownPlaceholder key)
      let output ← renderTex path manifest values after
      pure (literal ++ replacement values field key ++ output)
termination_by source.length
decreasing_by exact length_after_lt _hopen _hclose

/-! ## Values -/

def selectedValue (automatic overrides : StringMap Value) (field : FrontMatterField) :
    Option ResolvedValue :=
  let override := if field.allowTeamOverride then
    overrides[field.key]?.map (fun value => (⟨value,"TEAM_OVERRIDE"⟩ : ResolvedValue)) else none
  let auto := (field.source.bind (fun source => automatic[source]?)).map
    (fun value => (⟨value,"AUTO"⟩ : ResolvedValue))
  let packDefault := field.default.map (fun value => (⟨value,"PACK_DEFAULT"⟩ : ResolvedValue))
  override.or (auto.or packDefault)

def resolveFields (automatic overrides : StringMap Value) (resolved : StringMap ResolvedValue)
    (missing : List String) :
    List FrontMatterField → Except FrontMatterError (StringMap ResolvedValue × List String)
  | [] => pure (resolved,missing)
  | field :: rest =>
    match selectedValue automatic overrides field with
    | some selected => do
      ensure (valueMatches field.fieldType selected.value) (.invalidValue field.key)
      let missing := if field.required && emptyValue selected.value then missing ++ [field.label] else missing
      resolveFields automatic overrides (resolved.insert field.key selected) missing rest
    | none =>
      resolveFields automatic overrides resolved
        (if field.required then missing ++ [field.label] else missing) rest

def checkOverrides (fields : List FrontMatterField) : List String → Except FrontMatterError Unit
  | [] => pure ()
  | key :: rest => do
    let field ← require (fields.find? (fun field => field.key = key)) (.invalidValue key)
    ensure field.allowTeamOverride (.invalidValue key)
    checkOverrides fields rest

def checkChoices (sections : List FrontMatterSection) : List String → Except FrontMatterError Unit
  | [] => pure ()
  | key :: rest => do
    ensure (sections.any (fun item => item.key = key)) (.invalidValue key)
    checkChoices sections rest

/-! ## The pack -/

def sectionEnabled (choices : StringMap Bool) (item : FrontMatterSection) : Bool :=
  item.required || choices[item.key]?.getD item.defaultEnabled

def enabledSections (manifest : FrontMatterManifest) (choices : StringMap Bool) : StringMap Bool :=
  ExtTreeMap.ofList (manifest.sections.map (fun item => (item.key,sectionEnabled choices item)))

def disabledFiles (manifest : FrontMatterManifest) (enabled : StringMap Bool) : List String :=
  (manifest.sections.filter (fun item => enabled[item.key]? ≠ some true)).map (·.file)

def disabledText : List Char := "% Disabled by document details.\n".toList

def renderBytes (manifest : FrontMatterManifest) (values : StringMap ResolvedValue) (disabled : List String)
    (file : ImportedFile) : Except FrontMatterError Bytes :=
  if file.isTex then
    if disabled.contains file.path.text then pure (encodeUtf8 disabledText)
    else do
      let source ← require (decodeUtf8 file.bytes) .invalidManifest
      let output ← renderTex file.path.text manifest values source
      pure (encodeUtf8 output)
  else pure file.bytes

def renderFile (manifest : FrontMatterManifest) (values : StringMap ResolvedValue) (disabled : List String)
    (file : ImportedFile) : Except FrontMatterError RenderedFile := do
  let path ← (LogicalPath.parse (managedRoot ++ "/" ++ file.path.text)).mapError
    (fun _ => .invalidPath file.path.text)
  let bytes ← renderBytes manifest values disabled file
  pure ⟨path,bytes⟩

def renderFiles (manifest : FrontMatterManifest) (values : StringMap ResolvedValue) (disabled : List String) :
    List ImportedFile → Except FrontMatterError (List RenderedFile)
  | [] => pure []
  | file :: rest => do
    let rendered ← renderFile manifest values disabled file
    let later ← renderFiles manifest values disabled rest
    pure (rendered :: later)

def managedEntry : LogicalPath := ⟨".latex-core/frontmatter/frontmatter.tex",by decide⟩

def entryFiles (manifest : FrontMatterManifest) : List RenderedFile :=
  if manifest.entryFile ≠ "frontmatter.tex" then
    [⟨managedEntry,encodeUtf8 ("\\input\x7b".toList ++ manifest.entryFile.toList ++ "\x7d\n".toList)⟩]
  else []

def isManifest (file : ImportedFile) : Bool := file.path.text = manifestPath

def resolveAndRender (pack : ValidatedPack) (automatic overrides : StringMap Value)
    (choices : StringMap Bool) : Except FrontMatterError RenderedPack := do
  checkOverrides pack.manifest.fields overrides.keys
  checkChoices pack.manifest.sections choices.keys
  let (resolved,missing) ← resolveFields automatic overrides ∅ [] pack.manifest.fields
  ensure (missing = []) (.missingRequired missing)
  let enabled := enabledSections pack.manifest choices
  let rendered ← renderFiles pack.manifest resolved (disabledFiles pack.manifest enabled)
    (pack.files.filter (fun file => !isManifest file))
  let files := (rendered ++ entryFiles pack.manifest).mergeSort (fun a b => (compare a.path b.path).isLE)
  pure ⟨files,resolved,enabled⟩

end LatexCore.FrontMatter
