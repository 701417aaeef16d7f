import LatexCore.Foundation.Json
import LatexCore.TexIndex.Model

/-! # Wire forms of the index

The canonical JSON of an index and of the material that its identity is taken
from. Maps are objects in key order, a tool kind is the name of its variant.
Decoding a record takes its fields by name, and every encoding is exact.
-/
namespace LatexCore.TexIndex
open Core Foundation Std

/-! ## Fields -/

def stringFromValue (v : Value) : Option String := v.asStr?

def u16FromValue (v : Value) : Option UInt16 :=
  (v.asU64?.filter (fun n => n < 2 ^ 16)).map UInt16.ofNat

def u64FromValue (v : Value) : Option UInt64 := v.asU64?.map UInt64.ofNat

/-- A field that the record must have, once. -/
def field {α : Type} (decode : Value → Option α) (v : Value) (name : String) : Option α :=
  (v.field? name).bind decode

def optionFromValue : Value → Option (Option String)
  | .null => some none
  | v => v.asStr?.map some

def optionField (v : Value) (name : String) : Option (Option String) :=
  match v.field? name with
  | some w => optionFromValue w
  | none => if (v.get? name).isNone then some none else none

def optionToValue : Option String → Value
  | none => .null
  | some text => .str text

theorem field_eq {α : Type} {decode : Value → Option α} {v w : Value} {name : String}
    (h : v.field? name = some w) : field decode v name = decode w := by
  rw [field,h,Option.bind_some]

theorem optionField_eq {v w : Value} {name : String} (h : v.field? name = some w) :
    optionField v name = optionFromValue w := by
  rw [optionField,h]

@[simp] theorem u16FromValue_ofNat (n : UInt16) : u16FromValue (.ofNat n.toNat) = some n := by
  have hn := n.toNat_lt
  rw [u16FromValue,Value.asU64?_ofNat (by omega)]
  simp [Option.filter,hn]

@[simp] theorem u64FromValue_ofNat (n : UInt64) : u64FromValue (.ofNat n.toNat) = some n := by
  rw [u64FromValue,Value.asU64?_ofNat n.toNat_lt,Option.map_some,UInt64.ofNat_toNat]

@[simp] theorem optionFromValue_toValue (o : Option String) : optionFromValue (optionToValue o) = some o := by
  cases o <;> rfl

/-! ## Maps -/

section Maps
variable {κ ν : Type} [DecidableEq κ] [Ord κ] [TransOrd κ] [LawfulEqOrd κ]

/-- A map as an object, in the order of its keys. -/
def mapToValue (name : κ → String) (toValue : ν → Value) (m : ExtTreeMap κ ν) : Value :=
  .obj (m.toList.map (fun entry => (name entry.1,toValue entry.2)))

def entryFromField (key : String → Option κ) (fromValue : Value → Option ν) (f : String × Value) :
    Option (κ × ν) := do
  let k ← key f.1
  let v ← fromValue f.2
  return (k,v)

def mapFromValue (key : String → Option κ) (fromValue : Value → Option ν) (v : Value) :
    Option (ExtTreeMap κ ν) := do
  let fields ← v.asObj?
  let entries ← decodeAll (entryFromField key fromValue) fields
  return ExtTreeMap.ofList entries

theorem ofList_of_perm {entries : List (κ × ν)} {m : ExtTreeMap κ ν} (h : entries.Perm m.toList) :
    ExtTreeMap.ofList entries = m := by
  have hdistinct : entries.Pairwise (fun a b => ¬compare a.1 b.1 = .eq) := by
    apply h.symm.pairwise ExtTreeMap.distinct_keys_toList
    intro a b hab heq
    exact hab (OrientedCmp.eq_symm heq)
  apply ExtTreeMap.ext_getElem?
  intro k
  cases hk : m[k]? with
  | some v =>
    have hmem := h.mem_iff.mpr (ExtTreeMap.mem_toList_iff_getElem?_eq_some.mpr hk)
    exact ExtTreeMap.getElem?_ofList_of_mem ReflCmp.compare_self hdistinct hmem
  | none =>
    apply ExtTreeMap.getElem?_ofList_of_contains_eq_false
    have hkeys : k ∉ m.toList.map Prod.fst := by
      rw [ExtTreeMap.map_fst_toList_eq_keys]
      simpa using hk
    rw [List.contains_eq_mem,decide_eq_false_iff_not]
    exact fun hmem => hkeys ((h.map Prod.fst).mem_iff.mp hmem)

theorem mapFromValue_toValue {name : κ → String} {key : String → Option κ} {toValue : ν → Value}
    {fromValue : Value → Option ν} (hkey : ∀ k, key (name k) = some k)
    (hvalue : ∀ v, fromValue (toValue v) = some v) (m : ExtTreeMap κ ν) :
    mapFromValue key fromValue (mapToValue name toValue m) = some m := by
  have hentry : ∀ entry ∈ m.toList,
      entryFromField key fromValue (name entry.1,toValue entry.2) = some entry := by
    intro entry _
    simp [entryFromField,hkey,hvalue]
  have hall := decodeAll_map hentry
  simp only [mapFromValue,mapToValue,Value.asObj?_obj,Option.bind_eq_bind,Option.bind_some,hall]
  exact congrArg some (ofList_of_perm (List.Perm.refl _))

theorem namedFromValue_toValue {toValue : ν → Value} {fromValue : Value → Option ν}
    (hvalue : ∀ v, fromValue (toValue v) = some v) (m : ExtTreeMap String ν) :
    mapFromValue some fromValue (mapToValue id toValue m) = some m :=
  mapFromValue_toValue (fun _ => rfl) hvalue m

theorem mapToValue_injective {name : κ → String} {key : String → Option κ} {toValue : ν → Value}
    {fromValue : Value → Option ν} (hkey : ∀ k, key (name k) = some k)
    (hvalue : ∀ v, fromValue (toValue v) = some v) :
    Function.Injective (mapToValue name toValue) := by
  intro m m' h
  have hm := mapFromValue_toValue hkey hvalue m
  rw [h,mapFromValue_toValue hkey hvalue m'] at hm
  exact (Option.some.inj hm).symm

theorem namedToValue_injective {toValue : ν → Value} {fromValue : Value → Option ν}
    (hvalue : ∀ v, fromValue (toValue v) = some v) :
    Function.Injective (mapToValue (id : String → String) toValue) :=
  @mapToValue_injective String ν _ _ _ _ id some toValue fromValue (fun _ => rfl) hvalue

end Maps

/-! ## Records -/

namespace TexToolKind

def name : TexToolKind → String
  | kpsewhich => "Kpsewhich"
  | tlmgr => "Tlmgr"
  | pdfLatex => "PdfLatex"
  | luaLatex => "LuaLatex"
  | xeLatex => "XeLatex"
  | bibtex => "Bibtex"
  | biber => "Biber"
  | makeindex => "Makeindex"
  | makeglossaries => "Makeglossaries"
  | latexmk => "Latexmk"

def fromName : String → Option TexToolKind
  | "Kpsewhich" => some kpsewhich
  | "Tlmgr" => some tlmgr
  | "PdfLatex" => some pdfLatex
  | "LuaLatex" => some luaLatex
  | "XeLatex" => some xeLatex
  | "Bibtex" => some bibtex
  | "Biber" => some biber
  | "Makeindex" => some makeindex
  | "Makeglossaries" => some makeglossaries
  | "Latexmk" => some latexmk
  | _ => none

@[simp] theorem fromName_name (kind : TexToolKind) : fromName kind.name = some kind := by
  cases kind <;> rfl

end TexToolKind

namespace TexFileKind

def name : TexFileKind → String
  | style => "Style"
  | class_ => "Class"
  | bibliographyStyle => "BibliographyStyle"
  | biblatexStyle => "BiblatexStyle"
  | biblatexCitationStyle => "BiblatexCitationStyle"
  | openTypeFont => "OpenTypeFont"
  | trueTypeFont => "TrueTypeFont"
  | type1Font => "Type1Font"
  | teXFontMetric => "TeXFontMetric"
  | otherRuntime => "OtherRuntime"

def fromName : String → Option TexFileKind
  | "Style" => some style
  | "Class" => some class_
  | "BibliographyStyle" => some bibliographyStyle
  | "BiblatexStyle" => some biblatexStyle
  | "BiblatexCitationStyle" => some biblatexCitationStyle
  | "OpenTypeFont" => some openTypeFont
  | "TrueTypeFont" => some trueTypeFont
  | "Type1Font" => some type1Font
  | "TeXFontMetric" => some teXFontMetric
  | "OtherRuntime" => some otherRuntime
  | _ => none

@[simp] theorem fromName_name (kind : TexFileKind) : fromName kind.name = some kind := by
  cases kind <;> rfl

end TexFileKind

namespace TexToolRecord

def toValue (tool : TexToolRecord) : Value :=
  .obj [("kind",.str tool.kind.name),("version_output",.str tool.versionOutput),
    ("binary_sha256",.str tool.binarySha256)]

def fromValue (v : Value) : Option TexToolRecord := do
  let kind ← (← field stringFromValue v "kind") |> TexToolKind.fromName
  let versionOutput ← field stringFromValue v "version_output"
  let binarySha256 ← field stringFromValue v "binary_sha256"
  return ⟨kind,versionOutput,binarySha256⟩

@[simp] theorem fromValue_toValue (tool : TexToolRecord) : fromValue tool.toValue = some tool := by
  simp [fromValue,toValue,field,stringFromValue]

end TexToolRecord

namespace TexLiveRelease

def toValue (release : TexLiveRelease) : Value :=
  .obj [("year",.ofNat release.year.toNat),("platform",.str release.platform)]

def fromValue (v : Value) : Option TexLiveRelease := do
  let year ← field u16FromValue v "year"
  let platform ← field stringFromValue v "platform"
  return ⟨year,platform⟩

@[simp] theorem fromValue_toValue (release : TexLiveRelease) :
    fromValue release.toValue = some release := by
  have hyear : release.toValue.field? "year" = some (.ofNat release.year.toNat) := by simp [toValue]
  have hplatform : release.toValue.field? "platform" = some (.str release.platform) := by
    simp [toValue]
  rw [fromValue,field_eq hyear,field_eq hplatform,u16FromValue_ofNat]
  rfl

end TexLiveRelease

namespace IndexedTexFile

def toValue (file : IndexedTexFile) : Value :=
  .obj [("relative_path",.str file.relativePath),("basename",.str file.basename),
    ("kind",.str file.kind.name),("sha256",.str file.sha256)]

def fromValue (v : Value) : Option IndexedTexFile := do
  let relativePath ← field stringFromValue v "relative_path"
  let basename ← field stringFromValue v "basename"
  let kind ← (← field stringFromValue v "kind") |> TexFileKind.fromName
  let sha256 ← field stringFromValue v "sha256"
  return ⟨relativePath,basename,kind,sha256⟩

@[simp] theorem fromValue_toValue (file : IndexedTexFile) : fromValue file.toValue = some file := by
  simp [fromValue,toValue,field,stringFromValue]

end IndexedTexFile

namespace TexLivePackage

def toValue (package : TexLivePackage) : Value :=
  .obj [("name",.str package.name),("category",.str package.category),
    ("revision",.ofNat package.revision.toNat),
    ("catalogue_version",optionToValue package.catalogueVersion),
    ("catalogue_license",optionToValue package.catalogueLicense),
    ("runtime_files",.arr (package.runtimeFiles.map IndexedTexFile.toValue))]

def fromValue (v : Value) : Option TexLivePackage := do
  let name ← field stringFromValue v "name"
  let category ← field stringFromValue v "category"
  let revision ← field u64FromValue v "revision"
  let catalogueVersion ← optionField v "catalogue_version"
  let catalogueLicense ← optionField v "catalogue_license"
  let items ← field Value.asArr? v "runtime_files"
  let runtimeFiles ← decodeAll IndexedTexFile.fromValue items
  return ⟨name,category,revision,catalogueVersion,catalogueLicense,runtimeFiles⟩

@[simp] theorem fromValue_toValue (package : TexLivePackage) :
    fromValue package.toValue = some package := by
  have hfiles := decodeAll_map (fun file (_ : file ∈ package.runtimeFiles) =>
    IndexedTexFile.fromValue_toValue file)
  have hname : package.toValue.field? "name" = some (.str package.name) := by simp [toValue]
  have hcategory : package.toValue.field? "category" = some (.str package.category) := by
    simp [toValue]
  have hrevision : package.toValue.field? "revision" = some (.ofNat package.revision.toNat) := by
    simp [toValue]
  have hversion : package.toValue.field? "catalogue_version" =
      some (optionToValue package.catalogueVersion) := by simp [toValue]
  have hlicense : package.toValue.field? "catalogue_license" =
      some (optionToValue package.catalogueLicense) := by simp [toValue]
  have hitems : package.toValue.field? "runtime_files" =
      some (.arr (package.runtimeFiles.map IndexedTexFile.toValue)) := by simp [toValue]
  rw [fromValue,field_eq hname,field_eq hcategory,field_eq hrevision,optionField_eq hversion,
    optionField_eq hlicense,field_eq hitems,u64FromValue_ofNat,optionFromValue_toValue,
    optionFromValue_toValue]
  simp [stringFromValue,hfiles]

end TexLivePackage

namespace TexConfigRecord

def toValue (config : TexConfigRecord) : Value :=
  .obj [("logical_name",.str config.logicalName),("sha256",.str config.sha256)]

def fromValue (v : Value) : Option TexConfigRecord := do
  let logicalName ← field stringFromValue v "logical_name"
  let sha256 ← field stringFromValue v "sha256"
  return ⟨logicalName,sha256⟩

@[simp] theorem fromValue_toValue (config : TexConfigRecord) :
    fromValue config.toValue = some config := by
  simp [fromValue,toValue,field,stringFromValue]

end TexConfigRecord

end LatexCore.TexIndex
