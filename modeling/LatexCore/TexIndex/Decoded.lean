import LatexCore.Foundation.Lockstep
import LatexCore.TexIndex.Environment

/-! # Decoded indexes

The records of an index are decoded field by field, and the constructor of the index
checks the map keys and the hashes only. A decoded index is one that the constructors
build exactly when its document keeps the rest of what they check: names that are not
empty, files in the order of their paths and the basename and kind of each file.
-/
namespace LatexCore.TexIndex
open Core Foundation Std

/-! ## What the constructors build -/

def TexLivePackage.Constructible (package : TexLivePackage) : Prop :=
  ∃ name category revision catalogueVersion catalogueLicense files,
    (∀ file ∈ files, IndexedTexFile.Built file) ∧
      TexLivePackage.new name category revision catalogueVersion catalogueLicense files = .ok package

/-- An index that the public constructors build. -/
def TexEnvironmentIndexV1.Constructible (x : TexEnvironmentIndexV1) : Prop :=
  ∃ (year : UInt16) (platform : String) (release : TexLiveRelease) (packages : Packages)
    (tools : Tools) (configFiles : ConfigFiles),
    TexLiveRelease.new year platform = .ok release ∧
      (∀ (name : String) (package : TexLivePackage), packages[name]? = some package →
        package.Constructible) ∧
      (∀ (kind : TexToolKind) (tool : TexToolRecord), tools[kind]? = some tool → tool.Built) ∧
      (∀ (name : String) (config : TexConfigRecord), configFiles[name]? = some config → config.Built) ∧
      TexEnvironmentIndexV1.new release packages tools configFiles = .ok x

structure IndexedTexFile.Determined (file : IndexedTexFile) : Prop where
  named : afterLast '/' file.relativePath.toList ≠ []
  basename : file.basename = String.ofList (afterLast '/' file.relativePath.toList)
  kind : file.kind = kindOf (afterLast '/' file.relativePath.toList)

theorem IndexedTexFile.built_iff {file : IndexedTexFile} :
    file.Built ↔ validateHash file.sha256 = .ok () ∧ file.Determined := by
  constructor
  · rintro ⟨relativePath,sha256,hnew⟩
    simp only [IndexedTexFile.new,bind_ok,ensure_ok,decide_eq_true_eq,pure_ok] at hnew
    obtain ⟨_,hhash,_,hnamed,rfl⟩ := hnew
    exact ⟨hhash,hnamed,rfl,rfl⟩
  · rintro ⟨hhash,hnamed,hbasename,hkind⟩
    refine ⟨file.relativePath,file.sha256,?_⟩
    simp only [IndexedTexFile.new,bind_ok,ensure_ok,decide_eq_true_eq,pure_ok]
    refine ⟨(),hhash,(),hnamed,?_⟩
    rw [← hbasename,← hkind]

theorem TexLivePackage.constructible_iff {package : TexLivePackage} : package.Constructible ↔
    package.name ≠ "" ∧ package.category ≠ "" ∧
      package.runtimeFiles.Pairwise (fun a b => pathAtMost a b) ∧
      ∀ file ∈ package.runtimeFiles, IndexedTexFile.Built file := by
  constructor
  · rintro ⟨name,category,revision,version,license,files,hfiles,hnew⟩
    simp only [TexLivePackage.new,bind_ok,ensure_ok,decide_eq_true_eq,pure_ok,not_or] at hnew
    obtain ⟨_,⟨hname,hcategory⟩,rfl⟩ := hnew
    refine ⟨hname,hcategory,List.pairwise_mergeSort pathAtMost_trans pathAtMost_total files,?_⟩
    exact fun file hfile => hfiles file ((List.mergeSort_perm files pathAtMost).mem_iff.mp hfile)
  · rintro ⟨hname,hcategory,hsorted,hfiles⟩
    refine ⟨package.name,package.category,package.revision,package.catalogueVersion,
      package.catalogueLicense,package.runtimeFiles,hfiles,?_⟩
    simp only [TexLivePackage.new,bind_ok,ensure_ok,decide_eq_true_eq,pure_ok,not_or]
    exact ⟨(),⟨hname,hcategory⟩,by rw [List.mergeSort_of_pairwise hsorted]⟩

theorem TexToolRecord.built_iff {tool : TexToolRecord} :
    tool.Built ↔ validateHash tool.binarySha256 = .ok () ∧ tool.versionOutput ≠ "" := by
  constructor
  · rintro ⟨kind,version,hash,hnew⟩
    simp only [TexToolRecord.new,bind_ok,ensure_ok,decide_eq_true_eq,pure_ok] at hnew
    obtain ⟨_,hhash,_,hversion,rfl⟩ := hnew
    exact ⟨hhash,hversion⟩
  · rintro ⟨hhash,hversion⟩
    refine ⟨tool.kind,tool.versionOutput,tool.binarySha256,?_⟩
    simp only [TexToolRecord.new,bind_ok,ensure_ok,decide_eq_true_eq,pure_ok]
    exact ⟨(),hhash,(),hversion,trivial⟩

theorem TexConfigRecord.built_iff {config : TexConfigRecord} :
    config.Built ↔ validateHash config.sha256 = .ok () ∧ config.logicalName ≠ "" := by
  constructor
  · rintro ⟨name,hash,hnew⟩
    simp only [TexConfigRecord.new,bind_ok,ensure_ok,decide_eq_true_eq,pure_ok] at hnew
    obtain ⟨_,hhash,_,hname,rfl⟩ := hnew
    exact ⟨hhash,hname⟩
  · rintro ⟨hhash,hname⟩
    refine ⟨config.logicalName,config.sha256,?_⟩
    simp only [TexConfigRecord.new,bind_ok,ensure_ok,decide_eq_true_eq,pure_ok]
    exact ⟨(),hhash,(),hname,trivial⟩

def TexLiveRelease.Accepted (release : TexLiveRelease) : Prop :=
  ¬(release.year = 0 ∨ release.platform = "" ∨ isAscii release.platform = false)

/-- What the constructors check of a package and the decoder does not. -/
structure TexLivePackage.Accepted (package : TexLivePackage) : Prop where
  name : package.name ≠ ""
  category : package.category ≠ ""
  sorted : package.runtimeFiles.Pairwise (fun a b => pathAtMost a b)
  files : ∀ file ∈ package.runtimeFiles, IndexedTexFile.Determined file

namespace TexEnvironmentIndexV1

/-- What is left to check of an index that its constructor returns. -/
structure Accepted (x : TexEnvironmentIndexV1) : Prop where
  release : x.release.Accepted
  packages : ∀ (name : String) (package : TexLivePackage), x.packages[name]? = some package →
    package.Accepted
  tools : ∀ (kind : TexToolKind) (tool : TexToolRecord), x.tools[kind]? = some tool →
    tool.versionOutput ≠ ""
  configFiles : ∀ (name : String) (config : TexConfigRecord), x.configFiles[name]? = some config →
    config.logicalName ≠ ""

variable {x : TexEnvironmentIndexV1}

theorem Kept.package_checked (h : x.Kept) {name : String} {package : TexLivePackage}
    (hget : x.packages[name]? = some package) :
    ∀ file ∈ package.runtimeFiles, validateHash file.sha256 = .ok () := by
  have hcheck := h.packages (name,package) (ExtTreeMap.mem_toList_iff_getElem?_eq_some.mpr hget)
  simp only [checkPackage,bind_ok,checkAll_ok] at hcheck
  exact hcheck.choose_spec.2

theorem Kept.tool_checked (h : x.Kept) {kind : TexToolKind} {tool : TexToolRecord}
    (hget : x.tools[kind]? = some tool) : validateHash tool.binarySha256 = .ok () := by
  have hcheck := h.tools (kind,tool) (ExtTreeMap.mem_toList_iff_getElem?_eq_some.mpr hget)
  simp only [checkTool,bind_ok] at hcheck
  exact hcheck.choose_spec.2

theorem Kept.configFile_checked (h : x.Kept) {name : String} {config : TexConfigRecord}
    (hget : x.configFiles[name]? = some config) : validateHash config.sha256 = .ok () := by
  have hcheck := h.configFiles (name,config) (ExtTreeMap.mem_toList_iff_getElem?_eq_some.mpr hget)
  simp only [checkConfigFile,bind_ok] at hcheck
  exact hcheck.choose_spec.2

theorem Kept.constructible_iff (h : x.Kept) : x.Constructible ↔ x.Accepted := by
  constructor
  · rintro ⟨year,platform,release,packages,tools,configFiles,hrelease,hpackages,htools,hconfig,hnew⟩
    obtain ⟨-,rfl,rfl,rfl,rfl⟩ := new_ok hnew
    refine ⟨?_,fun name package hget => ?_,fun kind tool hget => ?_,fun name config hget => ?_⟩
    · simp only [TexLiveRelease.new,bind_ok,ensure_ok,decide_eq_true_eq,pure_ok] at hrelease
      obtain ⟨_,hrelease,heq⟩ := hrelease
      rw [TexLiveRelease.Accepted,← heq]
      exact hrelease
    · obtain ⟨hname,hcategory,hsorted,hfiles⟩ :=
        TexLivePackage.constructible_iff.mp (hpackages name package hget)
      exact ⟨hname,hcategory,hsorted,fun file hfile => (IndexedTexFile.built_iff.mp (hfiles file hfile)).2⟩
    · exact (TexToolRecord.built_iff.mp (htools kind tool hget)).2
    · exact (TexConfigRecord.built_iff.mp (hconfig name config hget)).2
  · rintro ⟨hrelease,hpackages,htools,hconfig⟩
    refine ⟨x.release.year,x.release.platform,x.release,x.packages,x.tools,x.configFiles,?_,
      fun name package hget => ?_,fun kind tool hget => ?_,fun name config hget => ?_,h.new⟩
    · simp only [TexLiveRelease.new,bind_ok,ensure_ok,decide_eq_true_eq,pure_ok]
      exact ⟨(),hrelease,trivial⟩
    · obtain ⟨hname,hcategory,hsorted,hfiles⟩ := hpackages name package hget
      exact TexLivePackage.constructible_iff.mpr ⟨hname,hcategory,hsorted,fun file hfile =>
        IndexedTexFile.built_iff.mpr ⟨h.package_checked hget file hfile,hfiles file hfile⟩⟩
    · exact TexToolRecord.built_iff.mpr ⟨h.tool_checked hget,htools kind tool hget⟩
    · exact TexConfigRecord.built_iff.mpr ⟨h.configFile_checked hget,hconfig name config hget⟩

end TexEnvironmentIndexV1

/-! ## Documents -/

/-- The entry of an object that a map keeps under a name: the last one. -/
def mapped (v : Value) (name : String) : Option Value :=
  (v.asObj?.getD []).findSomeRev? (fun f => if f.1 = name then some f.2 else none)

theorem decodeAll_cons {α β : Type} {decode : α → Option β} {a : α} {rest : List α} {bs : List β}
    (h : decodeAll decode (a :: rest) = some bs) :
    ∃ b bs', decode a = some b ∧ decodeAll decode rest = some bs' ∧ bs = b :: bs' := by
  rw [decodeAll] at h
  split at h
  · next b bs' hb hbs => exact ⟨b,bs',hb,hbs,(Option.some.inj h).symm⟩
  · cases h

theorem decodeAll_forall₂ {α β : Type} {decode : α → Option β} {items : List α} {bs : List β}
    (h : decodeAll decode items = some bs) : List.Forall₂ (fun a b => decode a = some b) items bs := by
  induction items generalizing bs with
  | nil =>
    obtain rfl := Option.some.inj h
    exact .nil
  | cons a rest ih =>
    obtain ⟨b,later,hb,hlater,rfl⟩ := decodeAll_cons h
    exact .cons hb (ih hlater)

section Maps
variable {κ ν : Type} {key : String → Option κ} {fromValue : Value → Option ν}

theorem entryFromField_eq {f : String × Value} {entry : κ × ν}
    (h : entryFromField key fromValue f = some entry) : key f.1 = some entry.1 ∧ fromValue f.2 = some entry.2 := by
  simp only [entryFromField,Option.bind_eq_bind,Option.bind_eq_some_iff] at h
  obtain ⟨k,hk,v,hv,hentry⟩ := h
  obtain rfl := Option.some.inj hentry
  exact ⟨hk,hv⟩

variable [DecidableEq κ] [Ord κ] [TransOrd κ] [LawfulEqOrd κ]

omit [DecidableEq κ] [TransOrd κ] in
theorem last_entry (hkey : ∀ a b k, key a = some k → key b = some k → a = b) {name : String} {k : κ}
    (hname : key name = some k) {fields : List (String × Value)} {entries : List (κ × ν)}
    (h : decodeAll (entryFromField key fromValue) fields = some entries) :
    entries.findSomeRev? (fun e => if compare e.1 k = .eq then some e.2 else none) =
        (fields.findSomeRev? (fun f => if f.1 = name then some f.2 else none)).bind fromValue ∧
      ∀ w, fields.findSomeRev? (fun f => if f.1 = name then some f.2 else none) = some w →
        ∃ v, fromValue w = some v := by
  induction fields generalizing entries with
  | nil =>
    obtain rfl := Option.some.inj h
    exact ⟨rfl,fun w hw => by cases hw⟩
  | cons f rest ih =>
    obtain ⟨entry,later,hentry,hlater,rfl⟩ := decodeAll_cons h
    obtain ⟨hk,hv⟩ := entryFromField_eq hentry
    obtain ⟨hsame,hdecoded⟩ := ih hlater
    have hfirst : compare entry.1 k = .eq ↔ f.1 = name := by
      rw [Std.compare_eq_iff_eq]
      constructor
      · rintro rfl
        exact hkey _ _ _ hk hname
      · rintro rfl
        exact Option.some.inj (hk.symm.trans hname)
    rw [List.findSomeRev?,List.findSomeRev?,hsame]
    cases hrest : rest.findSomeRev? (fun f => if f.1 = name then some f.2 else none) with
    | some w =>
      obtain ⟨v,hw⟩ := hdecoded w hrest
      rw [Option.bind_some,hw]
      exact ⟨rfl,fun other hother => Option.some.inj hother ▸ ⟨v,hw⟩⟩
    | none =>
      rw [Option.bind_none]
      by_cases hf : f.1 = name
      · dsimp only
        rw [if_pos (hfirst.mpr hf),if_pos hf,Option.bind_some]
        exact ⟨hv.symm,fun other hother => Option.some.inj hother ▸ ⟨_,hv⟩⟩
      · dsimp only
        rw [if_neg (fun heq => hf (hfirst.mp heq)),if_neg hf]
        exact ⟨rfl,fun w hw => by cases hw⟩

theorem mapFromValue_get (hkey : ∀ a b k, key a = some k → key b = some k → a = b) {v : Value}
    {m : ExtTreeMap κ ν} (h : mapFromValue key fromValue v = some m) {name : String} {k : κ}
    (hname : key name = some k) : m[k]? = (mapped v name).bind fromValue := by
  simp only [mapFromValue,Option.bind_eq_bind,Option.bind_eq_some_iff] at h
  obtain ⟨fields,hfields,entries,hentries,hm⟩ := h
  obtain rfl := Option.some.inj hm
  rw [mapped,hfields,Option.getD_some,ExtTreeMap.ofList_eq_insertMany_empty,
    ExtTreeMap.getElem?_insertMany_list,ExtTreeMap.getElem?_empty,Option.or_none]
  exact (last_entry hkey hname hentries).1

omit [DecidableEq κ] [TransOrd κ] [LawfulEqOrd κ] in
theorem mapFromValue_key {v : Value} {m : ExtTreeMap κ ν} (h : mapFromValue key fromValue v = some m)
    {name : String} {w : Value} (hmapped : mapped v name = some w) :
    ∃ k t, key name = some k ∧ fromValue w = some t := by
  simp only [mapFromValue,Option.bind_eq_bind,Option.bind_eq_some_iff] at h
  obtain ⟨fields,hfields,entries,hentries,-⟩ := h
  rw [mapped,hfields,Option.getD_some,List.findSomeRev?_eq_findSome?_reverse] at hmapped
  obtain ⟨f,hf,heq⟩ := List.exists_of_findSome?_eq_some hmapped
  split at heq
  · next hname =>
    obtain rfl := Option.some.inj heq
    have hall : ∀ f ∈ fields, ∃ k t, key f.1 = some k ∧ fromValue f.2 = some t :=
      (related_all (q := fun _ => True) (decodeAll_forall₂ hentries) fun f entry hentry =>
        ⟨fun _ => trivial,fun _ => ⟨_,_,entryFromField_eq hentry⟩⟩).mpr fun _ _ => trivial
    exact hname ▸ hall f (List.mem_reverse.mp hf)
  · cases heq

theorem mapFromValue_all (hkey : ∀ a b k, key a = some k → key b = some k → a = b)
    (hnames : ∀ k, ∃ name, key name = some k) {v : Value} {m : ExtTreeMap κ ν}
    (h : mapFromValue key fromValue v = some m) {p : ν → Prop} {q : Value → Prop}
    (hpq : ∀ w t, fromValue w = some t → (q w ↔ p t)) :
    (∀ name w, mapped v name = some w → q w) ↔ ∀ (k : κ) (t : ν), m[k]? = some t → p t := by
  constructor
  · intro hall k t hget
    obtain ⟨name,hname⟩ := hnames k
    rw [mapFromValue_get hkey h hname] at hget
    obtain ⟨w,hmapped,hw⟩ := Option.bind_eq_some_iff.mp hget
    exact (hpq w t hw).mp (hall name w hmapped)
  · intro hall name w hmapped
    obtain ⟨k,t,hname,hw⟩ := mapFromValue_key h hmapped
    refine (hpq w t hw).mpr (hall k t ?_)
    rw [mapFromValue_get hkey h hname,hmapped,Option.bind_some,hw]

end Maps

theorem fromName_eq_some {name : String} {kind : TexToolKind} (h : TexToolKind.fromName name = some kind) :
    name = kind.name := by
  unfold TexToolKind.fromName at h
  split at h <;> first | (cases h; rfl) | cases h

abbrev textOf (v : Value) (name : String) : Option String := field stringFromValue v name

structure FileDocument (file : Value) : Prop where
  named : ∀ path, textOf file "relative_path" = some path → afterLast '/' path.toList ≠ []
  basename : ∀ path, textOf file "relative_path" = some path →
    textOf file "basename" = some (String.ofList (afterLast '/' path.toList))
  kind : ∀ path, textOf file "relative_path" = some path →
    textOf file "kind" = some (kindOf (afterLast '/' path.toList)).name

def PathsSorted (files : List Value) : Prop :=
  files.Pairwise (fun a b => ∀ s t, textOf a "relative_path" = some s → textOf b "relative_path" = some t →
    (compare s t).isLE = true)

structure PackageDocument (package : Value) : Prop where
  name : textOf package "name" ≠ some ""
  category : textOf package "category" ≠ some ""
  sorted : ∀ files, field Value.asArr? package "runtime_files" = some files → PathsSorted files
  files : ∀ files, field Value.asArr? package "runtime_files" = some files →
    ∀ file ∈ files, FileDocument file

structure ReleaseDocument (release : Value) : Prop where
  year : field u16FromValue release "year" ≠ some 0
  platform : textOf release "platform" ≠ some ""
  ascii : ∀ platform, textOf release "platform" = some platform → isAscii platform = true

/-- What an index needs of its document besides what the decoder checks. -/
structure Document (v : Value) : Prop where
  release : ∀ release, v.field? "release" = some release → ReleaseDocument release
  packages : ∀ packages, v.field? "packages" = some packages → ∀ name package,
    mapped packages name = some package → PackageDocument package
  tools : ∀ tools, v.field? "tools" = some tools → ∀ name tool,
    mapped tools name = some tool → textOf tool "version_output" ≠ some ""
  configFiles : ∀ configFiles, v.field? "config_files" = some configFiles → ∀ name config,
    mapped configFiles name = some config → textOf config "logical_name" ≠ some ""

theorem IndexedTexFile.fromValue_eq {v : Value} {file : IndexedTexFile} (h : fromValue v = some file) :
    textOf v "relative_path" = some file.relativePath ∧ textOf v "basename" = some file.basename ∧
      textOf v "kind" = some file.kind.name := by
  simp only [fromValue,Option.bind_eq_bind,Option.bind_eq_some_iff] at h
  obtain ⟨path,hpath,basename,hbasename,text,htext,kind,hkind,hash,-,hfile⟩ := h
  obtain rfl := Option.some.inj hfile
  have hname : TexFileKind.name kind = text := by
    unfold TexFileKind.fromName at hkind
    split at hkind <;> first | (cases hkind; rfl) | cases hkind
  exact ⟨hpath,hbasename,hname ▸ htext⟩

theorem fileDocument_iff {v : Value} {file : IndexedTexFile} (h : IndexedTexFile.fromValue v = some file) :
    FileDocument v ↔ file.Determined := by
  obtain ⟨hpath,hbasename,hkind⟩ := IndexedTexFile.fromValue_eq h
  have hpaths {path : String} (hother : textOf v "relative_path" = some path) : file.relativePath = path :=
    Option.some.inj (hpath.symm.trans hother)
  constructor
  · rintro ⟨hnamed,hbase,hof⟩
    refine ⟨hnamed _ hpath,Option.some.inj (hbasename.symm.trans (hbase _ hpath)),?_⟩
    have hname := Option.some.inj (hkind.symm.trans (hof _ hpath))
    have hsame := congrArg TexFileKind.fromName hname
    rw [TexFileKind.fromName_name,TexFileKind.fromName_name] at hsame
    exact Option.some.inj hsame
  · rintro ⟨hnamed,hbase,hof⟩
    refine ⟨fun path hother => ?_,fun path hother => ?_,fun path hother => ?_⟩
    · exact hpaths hother ▸ hnamed
    · rw [hbasename,hbase,hpaths hother]
    · rw [hkind,hof,hpaths hother]

theorem pathsSorted_iff {items : List Value} {files : List IndexedTexFile}
    (h : decodeAll IndexedTexFile.fromValue items = some files) :
    PathsSorted items ↔ files.Pairwise (fun a b => pathAtMost a b) := by
  refine related_pairwise (decodeAll_forall₂ h) fun a b a' b' ha ha' => ?_
  obtain ⟨hpath,-⟩ := IndexedTexFile.fromValue_eq ha
  obtain ⟨hpath',-⟩ := IndexedTexFile.fromValue_eq ha'
  simp only [hpath,hpath',Option.some.injEq,pathAtMost]
  exact ⟨fun hall => hall _ _ rfl rfl,fun hle s t hs ht => hs ▸ ht ▸ hle⟩

theorem packageDocument_iff {v : Value} {package : TexLivePackage}
    (h : TexLivePackage.fromValue v = some package) : PackageDocument v ↔ package.Accepted := by
  simp only [TexLivePackage.fromValue,Option.bind_eq_bind,Option.bind_eq_some_iff] at h
  obtain ⟨name,hname,category,hcategory,revision,-,version,-,license,-,items,hitems,files,hfiles,hpackage⟩ := h
  obtain rfl := Option.some.inj hpackage
  have hall := related_all (decodeAll_forall₂ hfiles) fun item file => fileDocument_iff
  constructor
  · rintro ⟨hnamed,hcategorised,hsorted,hdocuments⟩
    exact ⟨fun hempty => hnamed (hempty ▸ hname),fun hempty => hcategorised (hempty ▸ hcategory),
      (pathsSorted_iff hfiles).mp (hsorted items hitems),hall.mp (hdocuments items hitems)⟩
  · rintro ⟨hnamed,hcategorised,hsorted,hdetermined⟩
    refine ⟨fun hempty => hnamed (Option.some.inj (hname.symm.trans hempty)),
      fun hempty => hcategorised (Option.some.inj (hcategory.symm.trans hempty)),fun other hother => ?_,
      fun other hother => ?_⟩
    · obtain rfl := Option.some.inj (hitems.symm.trans hother)
      exact (pathsSorted_iff hfiles).mpr hsorted
    · obtain rfl := Option.some.inj (hitems.symm.trans hother)
      exact hall.mpr hdetermined

theorem releaseDocument_iff {v : Value} {release : TexLiveRelease}
    (h : TexLiveRelease.fromValue v = some release) : ReleaseDocument v ↔ release.Accepted := by
  simp only [TexLiveRelease.fromValue,Option.bind_eq_bind,Option.bind_eq_some_iff] at h
  obtain ⟨year,hyear,platform,hplatform,hrelease⟩ := h
  obtain rfl := Option.some.inj hrelease
  simp only [TexLiveRelease.Accepted,not_or,Bool.not_eq_false]
  constructor
  · rintro ⟨hzero,hempty,hascii⟩
    exact ⟨fun heq => hzero (heq ▸ hyear),fun heq => hempty (heq ▸ hplatform),hascii _ hplatform⟩
  · rintro ⟨hzero,hempty,hascii⟩
    refine ⟨fun heq => hzero (Option.some.inj (hyear.symm.trans heq)),
      fun heq => hempty (Option.some.inj (hplatform.symm.trans heq)),fun other hother => ?_⟩
    exact Option.some.inj (hplatform.symm.trans hother) ▸ hascii

theorem toolDocument_iff {v : Value} {tool : TexToolRecord} (h : TexToolRecord.fromValue v = some tool) :
    textOf v "version_output" ≠ some "" ↔ tool.versionOutput ≠ "" := by
  simp only [TexToolRecord.fromValue,Option.bind_eq_bind,Option.bind_eq_some_iff] at h
  obtain ⟨text,-,kind,-,version,hversion,hash,-,htool⟩ := h
  obtain rfl := Option.some.inj htool
  rw [textOf,hversion,ne_eq,Option.some.injEq]

theorem configDocument_iff {v : Value} {config : TexConfigRecord} (h : TexConfigRecord.fromValue v = some config) :
    textOf v "logical_name" ≠ some "" ↔ config.logicalName ≠ "" := by
  simp only [TexConfigRecord.fromValue,Option.bind_eq_bind,Option.bind_eq_some_iff] at h
  obtain ⟨name,hname,hash,-,hconfig⟩ := h
  obtain rfl := Option.some.inj hconfig
  rw [textOf,hname,ne_eq,Option.some.injEq]

theorem some_injective (a b k : String) (ha : some a = some k) (hb : some b = some k) : a = b :=
  Option.some.inj (ha.trans hb.symm)

theorem fromName_injective (a b : String) (kind : TexToolKind) (ha : TexToolKind.fromName a = some kind)
    (hb : TexToolKind.fromName b = some kind) : a = b := (fromName_eq_some ha).trans (fromName_eq_some hb).symm

namespace TexEnvironmentIndexV1
variable {v : Value} {x : TexEnvironmentIndexV1}

/-- The parts of a decoded index are those of its document. -/
structure DecodedFrom (v : Value) (x : TexEnvironmentIndexV1) : Prop where
  kept : x.Kept
  release : ∃ w, v.field? "release" = some w ∧ TexLiveRelease.fromValue w = some x.release
  packages : ∃ w, v.field? "packages" = some w ∧ mapFromValue some TexLivePackage.fromValue w = some x.packages
  tools : ∃ w, v.field? "tools" = some w ∧
    mapFromValue TexToolKind.fromName TexToolRecord.fromValue w = some x.tools
  configFiles : ∃ w, v.field? "config_files" = some w ∧
    mapFromValue some TexConfigRecord.fromValue w = some x.configFiles

theorem decodedFrom (h : fromValue v = some x) : DecodedFrom v x := by
  simp only [fromValue,field,Option.bind_eq_bind,Option.bind_eq_some_iff] at h
  obtain ⟨schema,-,release,hrelease,packages,hpackages,tools,htools,configFiles,hconfig,h⟩ := h
  split at h
  · cases h
  · have hnew : new release packages tools configFiles = .ok x := by
      cases hcase : new release packages tools configFiles with
      | error error =>
        rw [hcase] at h
        cases h
      | ok y =>
        rw [hcase] at h
        exact congrArg Except.ok (Option.some.inj h)
    obtain ⟨hkept,rfl,rfl,rfl,rfl⟩ := new_ok hnew
    exact ⟨hkept,hrelease,hpackages,htools,hconfig⟩

theorem fromJsonBytes_decodedFrom {bytes : Bytes} (hvalue : Json.fromSlice bytes = some v)
    (h : fromJsonBytes bytes = .ok x) : DecodedFrom v x := by
  simp only [fromJsonBytes,bind_ok,require_ok] at h
  obtain ⟨w,hw,_,-,_,-,h⟩ := h
  obtain rfl := Option.some.inj (hvalue.symm.trans hw)
  exact decodedFrom h

/-- A decoded index has what its constructor leaves open exactly when its document has. -/
theorem DecodedFrom.accepted_iff (h : DecodedFrom v x) : x.Accepted ↔ Document v := by
  obtain ⟨-,⟨release,hrelease,hreleased⟩,⟨packages,hpackages,hpackaged⟩,⟨tools,htools,htooled⟩,
    ⟨configFiles,hconfig,hconfigured⟩⟩ := h
  have hpackage := mapFromValue_all some_injective (fun k => ⟨k,rfl⟩) hpackaged
    (fun w t => packageDocument_iff)
  have htool := mapFromValue_all fromName_injective (fun k => ⟨k.name,TexToolKind.fromName_name k⟩) htooled
    (fun w t => toolDocument_iff)
  have hconfigFile := mapFromValue_all some_injective (fun k => ⟨k,rfl⟩) hconfigured
    (fun w t => configDocument_iff)
  constructor
  · rintro ⟨hr,hp,ht,hc⟩
    refine ⟨fun w hw => ?_,fun w hw => ?_,fun w hw => ?_,fun w hw => ?_⟩
    · obtain rfl := Option.some.inj (hrelease.symm.trans hw)
      exact (releaseDocument_iff hreleased).mpr hr
    · obtain rfl := Option.some.inj (hpackages.symm.trans hw)
      exact hpackage.mpr hp
    · obtain rfl := Option.some.inj (htools.symm.trans hw)
      exact htool.mpr ht
    · obtain rfl := Option.some.inj (hconfig.symm.trans hw)
      exact hconfigFile.mpr hc
  · rintro ⟨hr,hp,ht,hc⟩
    exact ⟨(releaseDocument_iff hreleased).mp (hr release hrelease),hpackage.mp (hp packages hpackages),
      htool.mp (ht tools htools),hconfigFile.mp (hc configFiles hconfig)⟩

end TexEnvironmentIndexV1

end LatexCore.TexIndex
