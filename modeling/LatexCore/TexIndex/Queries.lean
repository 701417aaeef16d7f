import LatexCore.TexIndex.Decoded

/-! # Queries and the order of the arrays

The queries read the files of a basename, package by package and each in the order of
its array. Two documents that differ in the order of their arrays only give the same id
and the same answers exactly when the orders that the id and the queries see are the
same; sorted arrays of files at distinct paths have one order.
-/
namespace LatexCore.TexIndex
open Core Foundation Std

namespace TexEnvironmentIndexV1

def existsKind (x : TexEnvironmentIndexV1) (n suffix : String) (kinds : List TexFileKind) : Bool :=
  let key := if suffix.toList.isSuffixOf n.toList then n else n ++ suffix
  (x.filesByBasename[key]?).any (fun found => found.any (fun file => kinds.contains file.2.kind))

def styleExists (x : TexEnvironmentIndexV1) (n : String) : Bool := x.existsKind n ".sty" [.style]

def classExists (x : TexEnvironmentIndexV1) (n : String) : Bool := x.existsKind n ".cls" [.class_]

def bibliographyStyleExists (x : TexEnvironmentIndexV1) (n : String) : Bool :=
  x.existsKind n ".bst" [.bibliographyStyle]

def biblatexStyleExists (x : TexEnvironmentIndexV1) (n : String) : Bool :=
  x.existsKind n ".bbx" [.biblatexStyle] || x.existsKind n ".cbx" [.biblatexCitationStyle]

def fontExists (x : TexEnvironmentIndexV1) (n : String) : Bool :=
  (x.filesByBasename[n]?).any (fun found => found.any (fun file =>
    [TexFileKind.openTypeFont,.trueTypeFont,.type1Font,.teXFontMetric].contains file.2.kind))

def findFilesByBasename (x : TexEnvironmentIndexV1) (n : String) : List IndexedTexFile :=
  (x.filesByBasename[n]?).elim [] (List.map Prod.snd)

def ownersOfBasename (x : TexEnvironmentIndexV1) (n : String) : List String :=
  (x.filesByBasename[n]?).elim [] (List.map Prod.fst)

/-- The queries about names, files and owners have the same answers. -/
structure SameAnswers (x y : TexEnvironmentIndexV1) : Prop where
  styles : ∀ n, x.styleExists n = y.styleExists n
  classes : ∀ n, x.classExists n = y.classExists n
  bibliographyStyles : ∀ n, x.bibliographyStyleExists n = y.bibliographyStyleExists n
  biblatexStyles : ∀ n, x.biblatexStyleExists n = y.biblatexStyleExists n
  fonts : ∀ n, x.fontExists n = y.fontExists n
  files : ∀ n, x.findFilesByBasename n = y.findFilesByBasename n
  owners : ∀ n, x.ownersOfBasename n = y.ownersOfBasename n

def filesNamed (x : TexEnvironmentIndexV1) (n : String) : List (String × IndexedTexFile) :=
  (x.filesByBasename[n]?).getD []

variable {x y : TexEnvironmentIndexV1}

theorem any_eq_getD {α : Type} (o : Option (List α)) (p : α → Bool) :
    o.any (fun found => found.any p) = (o.getD []).any p := by
  cases o <;> rfl

theorem elim_eq_getD {α β : Type} (o : Option (List α)) (f : α → β) :
    o.elim [] (List.map f) = (o.getD []).map f := by
  cases o <;> rfl

theorem existsKind_congr (h : ∀ n, x.filesNamed n = y.filesNamed n) (n suffix : String)
    (kinds : List TexFileKind) : x.existsKind n suffix kinds = y.existsKind n suffix kinds := by
  simp only [existsKind,any_eq_getD]
  exact congrArg (fun found => found.any (fun file => kinds.contains file.2.kind)) (h _)

theorem sameAnswers_iff : SameAnswers x y ↔ ∀ n, x.filesNamed n = y.filesNamed n := by
  constructor
  · intro h n
    have hfiles := h.files n
    have howners := h.owners n
    simp only [findFilesByBasename,ownersOfBasename,elim_eq_getD] at hfiles howners
    have hzip := congrArg₂ List.zip howners hfiles
    simpa [filesNamed,List.zip_map'] using hzip
  · intro h
    refine ⟨fun n => existsKind_congr h _ _ _,fun n => existsKind_congr h _ _ _,
      fun n => existsKind_congr h _ _ _,fun n => ?_,fun n => ?_,fun n => ?_,fun n => ?_⟩
    · rw [biblatexStyleExists,biblatexStyleExists,existsKind_congr h,existsKind_congr h]
    · simp only [fontExists,any_eq_getD]
      exact congrArg (fun found => found.any (fun file =>
        [TexFileKind.openTypeFont,.trueTypeFont,.type1Font,.teXFontMetric].contains file.2.kind)) (h n)
    · simp only [findFilesByBasename,elim_eq_getD]
      exact congrArg (List.map Prod.snd) (h n)
    · simp only [ownersOfBasename,elim_eq_getD]
      exact congrArg (List.map Prod.fst) (h n)

end TexEnvironmentIndexV1

/-! ## The files of a basename -/

theorem addFile_named (package : String) (files : FilesByBasename) (file : IndexedTexFile) (n : String) :
    ((addFile package files file)[n]?).getD [] =
      (files[n]?).getD [] ++ if file.basename = n then [(package,file)] else [] := by
  rw [addFile,ExtTreeMap.getElem?_insert]
  by_cases h : file.basename = n
  · subst h
    rw [if_pos ReflCmp.compare_self,if_pos rfl,Option.getD_some]
  · rw [if_neg (by simpa using h),if_neg h,List.append_nil]

theorem addFiles_named (package : String) (added : List IndexedTexFile) (files : FilesByBasename) (n : String) :
    ((added.foldl (addFile package) files)[n]?).getD [] =
      (files[n]?).getD [] ++ (added.filter (·.basename = n)).map (Prod.mk package) := by
  induction added generalizing files with
  | nil => simp
  | cons file rest ih =>
    rw [List.foldl_cons,ih,addFile_named,List.filter_cons]
    by_cases h : file.basename = n <;> simp [h]

def namedIn (packages : Packages) (n : String) : ExtTreeMap String (List IndexedTexFile) :=
  packages.map (fun _ package => package.runtimeFiles.filter (·.basename = n))

def keyed {α : Type} (m : ExtTreeMap String (List α)) : List (String × α) :=
  m.toList.flatMap (fun entry => entry.2.map (Prod.mk entry.1))

theorem rebuildQueries_named (packages : Packages) (n : String) :
    ((rebuildQueries packages)[n]?).getD [] = keyed (namedIn packages n) := by
  have hloop : ∀ (entries : List (String × TexLivePackage)) (files : FilesByBasename),
      ((entries.foldl (fun files entry => entry.2.runtimeFiles.foldl (addFile entry.1) files) files)[n]?).getD [] =
        (files[n]?).getD [] ++ entries.flatMap (fun entry =>
          (entry.2.runtimeFiles.filter (·.basename = n)).map (Prod.mk entry.1)) := by
    intro entries
    induction entries with
    | nil => simp
    | cons entry rest ih =>
      intro files
      rw [List.foldl_cons,ih,addFiles_named,List.flatMap_cons,List.append_assoc]
  rw [rebuildQueries,hloop,keyed,namedIn,ExtTreeMap.toList_map,List.flatMap_map]
  rfl

theorem ofKey_map {α : Type} (owner name : String) (items : List α) :
    (items.map (Prod.mk owner)).filterMap (fun e => if e.1 = name then some e.2 else none) =
      if owner = name then items else [] := by
  rw [List.filterMap_map]
  by_cases h : owner = name
  · subst h
    simp
  · simp [h]

theorem ofKey_flatMap {α : Type} (name : String) {entries : List (String × List α)}
    (h : entries.Pairwise (fun a b => ¬compare a.1 b.1 = .eq)) :
    (entries.flatMap (fun entry => entry.2.map (Prod.mk entry.1))).filterMap
        (fun e => if e.1 = name then some e.2 else none) =
      ((entries.find? (fun entry => entry.1 = name)).map Prod.snd).getD [] := by
  induction entries with
  | nil => rfl
  | cons entry rest ih =>
    obtain ⟨hfirst,hrest⟩ := List.pairwise_cons.mp h
    rw [List.flatMap_cons,List.filterMap_append,ih hrest,ofKey_map]
    by_cases hname : entry.1 = name
    · have hnone : rest.find? (fun entry => entry.1 = name) = none := by
        rw [List.find?_eq_none]
        intro other hother heq
        exact hfirst other hother (Std.compare_eq_iff_eq.mpr (hname.trans (of_decide_eq_true heq).symm))
      simp [hname,hnone]
    · simp [hname]

theorem keyed_of_key {α : Type} (m : ExtTreeMap String (List α)) (name : String) :
    (keyed m).filterMap (fun e => if e.1 = name then some e.2 else none) = (m[name]?).getD [] := by
  rw [keyed,ofKey_flatMap name ExtTreeMap.distinct_keys_toList]
  cases hget : m[name]? with
  | none =>
    have hnone : m.toList.find? (fun entry => entry.1 = name) = none := by
      rw [List.find?_eq_none]
      intro entry hentry heq
      have hsome := ExtTreeMap.mem_toList_iff_getElem?_eq_some.mp hentry
      rw [of_decide_eq_true heq,hget] at hsome
      cases hsome
    rw [hnone]
    rfl
  | some items =>
    have hmem := ExtTreeMap.mem_toList_iff_getElem?_eq_some.mpr hget
    cases hfind : m.toList.find? (fun entry => entry.1 = name) with
    | none => exact absurd (decide_eq_true rfl) (List.find?_eq_none.mp hfind _ hmem)
    | some entry =>
      have hentry := ExtTreeMap.mem_toList_iff_getElem?_eq_some.mp (List.mem_of_find?_eq_some hfind)
      have hname : entry.1 = name := by simpa using List.find?_some hfind
      rw [hname,hget] at hentry
      exact (Option.some.inj hentry).symm

theorem keyed_getD {α : Type} {m m' : ExtTreeMap String (List α)} (h : keyed m = keyed m') (name : String) :
    (m[name]?).getD [] = (m'[name]?).getD [] := by
  rw [← keyed_of_key,← keyed_of_key,h]

/-! ## Documents that list the same files -/

structure TexLivePackage.Rearranged (p q : TexLivePackage) : Prop where
  others : { p with runtimeFiles := [] } = { q with runtimeFiles := [] }
  files : p.runtimeFiles.Perm q.runtimeFiles

/-- The id and the queries see the files in the same order. -/
structure TexLivePackage.SameOrder (p q : TexLivePackage) : Prop where
  contents : p.contents = q.contents
  named : ∀ n, p.runtimeFiles.filter (·.basename = n) = q.runtimeFiles.filter (·.basename = n)

def packageAt (v : Value) (name : String) : Option TexLivePackage :=
  ((v.field? "packages").bind (mapped · name)).bind TexLivePackage.fromValue

/-- The documents list the same packages with the same files, in any order of the arrays. -/
structure Rearranged (v v' : Value) : Prop where
  release : (v.field? "release").bind TexLiveRelease.fromValue =
    (v'.field? "release").bind TexLiveRelease.fromValue
  packages : ∀ name, Option.Rel TexLivePackage.Rearranged (packageAt v name) (packageAt v' name)
  tools : (v.field? "tools").bind (mapFromValue TexToolKind.fromName TexToolRecord.fromValue) =
    (v'.field? "tools").bind (mapFromValue TexToolKind.fromName TexToolRecord.fromValue)
  configFiles : (v.field? "config_files").bind (mapFromValue some TexConfigRecord.fromValue) =
    (v'.field? "config_files").bind (mapFromValue some TexConfigRecord.fromValue)

def SameOrder (v v' : Value) : Prop := ∀ name p q, packageAt v name = some p → packageAt v' name = some q →
  p.SameOrder q

variable {v v' : Value} {x y : TexEnvironmentIndexV1}

theorem TexEnvironmentIndexV1.DecodedFrom.packageAt (h : x.DecodedFrom v) (name : String) :
    packageAt v name = x.packages[name]? := by
  obtain ⟨packages,hpackages,hdecoded⟩ := h.packages
  rw [TexIndex.packageAt,hpackages,Option.bind_some,mapFromValue_get some_injective hdecoded rfl]

namespace TexEnvironmentIndexV1

theorem Rearranged.parts (h : Rearranged v v') (hx : x.DecodedFrom v) (hy : y.DecodedFrom v') :
    x.release = y.release ∧ x.tools = y.tools ∧ x.configFiles = y.configFiles ∧
      ∀ name : String, Option.Rel TexLivePackage.Rearranged (x.packages[name]?) (y.packages[name]?) := by
  obtain ⟨r,hr,hrx⟩ := hx.release
  obtain ⟨r',hr',hry⟩ := hy.release
  obtain ⟨t,ht,htx⟩ := hx.tools
  obtain ⟨t',ht',hty⟩ := hy.tools
  obtain ⟨c,hc,hcx⟩ := hx.configFiles
  obtain ⟨c',hc',hcy⟩ := hy.configFiles
  have hrelease := h.release
  have htools := h.tools
  have hconfig := h.configFiles
  rw [hr,hr',Option.bind_some,Option.bind_some,hrx,hry] at hrelease
  rw [ht,ht',Option.bind_some,Option.bind_some,htx,hty] at htools
  rw [hc,hc',Option.bind_some,Option.bind_some,hcx,hcy] at hconfig
  refine ⟨Option.some.inj hrelease,Option.some.inj htools,Option.some.inj hconfig,fun name => ?_⟩
  rw [← hx.packageAt,← hy.packageAt]
  exact h.packages name

theorem material_iff (hx : x.Kept) (hy : y.Kept) (hrelease : x.release = y.release) (htools : x.tools = y.tools)
    (hconfig : x.configFiles = y.configFiles) : x.identityMaterial = y.identityMaterial ↔
      ∀ name : String, (x.packages[name]?).map TexLivePackage.identity =
        (y.packages[name]?).map TexLivePackage.identity := by
  have hpackages : x.identities = y.identities ↔ ∀ name : String,
      (x.packages[name]?).map TexLivePackage.identity = (y.packages[name]?).map TexLivePackage.identity := by
    have hget (z : TexEnvironmentIndexV1) (name : String) :
        z.identities[name]? = (z.packages[name]?).map TexLivePackage.identity := ExtTreeMap.getElem?_map ..
    constructor
    · intro h name
      rw [← hget,← hget,h]
    · intro h
      refine ExtTreeMap.ext_getElem? fun name => ?_
      rw [hget,hget,h name]
  rw [← hpackages,← identities_eq_iff hx hy]
  have hmaterial (z : TexEnvironmentIndexV1) : z.identityMaterial =
      ⟨1,z.release.year,z.release.platform,z.identityMaterial.packages,z.tools,z.configFiles⟩ := rfl
  constructor
  · exact fun h => congrArg TexEnvironmentIdentityV1.packages h
  · intro h
    rw [hmaterial x,hmaterial y,h,hrelease,htools,hconfig]

end TexEnvironmentIndexV1

open TexEnvironmentIndexV1

theorem rel_some {α β : Type} {r : α → β → Prop} {o : Option α} {o' : Option β} (h : Option.Rel r o o') {a : α}
    (ha : o = some a) : ∃ b, o' = some b ∧ r a b := by
  cases h with
  | some hr => exact ⟨_,rfl,Option.some.inj ha ▸ hr⟩
  | none => cases ha

/-- Two packages that differ in the order of their files only have one identity when the files are
listed in one order. -/
theorem identity_iff_contents {p q : TexLivePackage} (h : p.Rearranged q) :
    p.identity = q.identity ↔ p.contents = q.contents := by
  have hname : p.name = q.name := (TexLivePackage.mk.inj h.others).1
  have hrevision : p.revision = q.revision := (TexLivePackage.mk.inj h.others).2.2.1
  rw [TexLivePackage.identity,TexLivePackage.identity,IdentityPackageV1.mk.injEq]
  exact ⟨fun heq => heq.2.2,fun heq => ⟨hname,hrevision,heq⟩⟩

theorem material_iff_contents (hx : x.DecodedFrom v) (hy : y.DecodedFrom v') (h : Rearranged v v') :
    x.identityMaterial = y.identityMaterial ↔
      ∀ name p q, packageAt v name = some p → packageAt v' name = some q → p.contents = q.contents := by
  obtain ⟨hrelease,htools,hconfig,hpackages⟩ := Rearranged.parts h hx hy
  rw [material_iff hx.kept hy.kept hrelease htools hconfig]
  constructor
  · intro hall name p q hp hq
    rw [hx.packageAt] at hp
    rw [hy.packageAt] at hq
    have hname := hall name
    rw [hp,hq,Option.map_some,Option.map_some,Option.some.injEq] at hname
    obtain ⟨q',hq',hrel⟩ := rel_some (hpackages name) hp
    obtain rfl := Option.some.inj (hq.symm.trans hq')
    exact (identity_iff_contents hrel).mp hname
  · intro hall name
    have hname := hpackages name
    cases hp : x.packages[name]? with
    | none =>
      rw [hp] at hname
      cases hq : y.packages[name]? with
      | none => rfl
      | some q =>
        rw [hq] at hname
        cases hname
    | some p =>
      obtain ⟨q,hq,hrel⟩ := rel_some hname hp
      rw [hq,Option.map_some,Option.map_some,(identity_iff_contents hrel).mpr
        (hall name p q ((hx.packageAt name).trans hp) ((hy.packageAt name).trans hq))]

theorem answers_iff_named (hx : x.DecodedFrom v) (hy : y.DecodedFrom v') (h : Rearranged v v') :
    SameAnswers x y ↔ ∀ name p q, packageAt v name = some p → packageAt v' name = some q →
      ∀ n, p.runtimeFiles.filter (·.basename = n) = q.runtimeFiles.filter (·.basename = n) := by
  obtain ⟨-,-,-,hpackages⟩ := Rearranged.parts h hx hy
  have hnamed (z : TexEnvironmentIndexV1) (hz : z.Kept) (n : String) :
      z.filesNamed n = keyed (namedIn z.packages n) := by
    rw [filesNamed,hz.queries,rebuildQueries_named]
  have hget (z : TexEnvironmentIndexV1) (n name : String) : (namedIn z.packages n)[name]? =
      (z.packages[name]?).map (fun package => package.runtimeFiles.filter (·.basename = n)) :=
    ExtTreeMap.getElem?_map ..
  rw [sameAnswers_iff]
  simp only [hnamed x hx.kept,hnamed y hy.kept]
  constructor
  · intro hall name p q hp hq n
    rw [hx.packageAt] at hp
    rw [hy.packageAt] at hq
    have hlists := keyed_getD (hall n) name
    rwa [hget,hget,hp,hq] at hlists
  · intro hall n
    refine congrArg keyed (ExtTreeMap.ext_getElem? fun name => ?_)
    rw [hget,hget]
    have hname := hpackages name
    cases hp : x.packages[name]? with
    | none =>
      rw [hp] at hname
      cases hq : y.packages[name]? with
      | none => rfl
      | some q =>
        rw [hq] at hname
        cases hname
    | some p =>
      obtain ⟨q,hq,-⟩ := rel_some hname hp
      rw [hq,Option.map_some,Option.map_some,
        hall name p q ((hx.packageAt name).trans hp) ((hy.packageAt name).trans hq) n]

theorem TexLivePackage.Rearranged.sameOrder {p q : TexLivePackage} (h : p.Rearranged q) (hp : p.Accepted)
    (hq : q.Accepted) (hdistinct : (p.runtimeFiles.map IndexedTexFile.relativePath).Nodup) : p.SameOrder q := by
  have hsame : p.runtimeFiles = q.runtimeFiles := by
    refine List.Perm.eq_of_pairwise ?_ hp.sorted hq.sorted h.files
    intro a b ha hb hab hba
    exact List.inj_on_of_nodup_map hdistinct ha (h.files.mem_iff.mpr hb) (compare_antisymm hab hba)
  exact ⟨by rw [TexLivePackage.contents,TexLivePackage.contents,hsame],fun n => by rw [hsame]⟩

theorem Built.constructible {x : TexEnvironmentIndexV1} (h : x.Built) : x.Constructible := by
  obtain ⟨year,platform,release,packages,tools,configFiles,hrelease,hpackages,htools,hconfig,hnew⟩ := h
  refine ⟨year,platform,release,packages,tools,configFiles,hrelease,fun name package hget => ?_,htools,hconfig,hnew⟩
  obtain ⟨name,category,revision,version,license,files,hfiles,-,hpackage⟩ := hpackages name package hget
  exact ⟨name,category,revision,version,license,files,hfiles,hpackage⟩

def swappedPackage : TexLivePackage :=
  { samplePackage none with runtimeFiles := [styleFile "b.sty",styleFile "a.sty"] }

def swappedIndex : TexEnvironmentIndexV1 :=
  { sampleIndex none with
    packages := ExtTreeMap.ofList [("amsmath",swappedPackage)]
    filesByBasename := rebuildQueries (ExtTreeMap.ofList [("amsmath",swappedPackage)]) }

theorem swappedIndex_kept : swappedIndex.Kept := by
  obtain ⟨hkept,-⟩ := (sampleIndex_built none).kept
  refine ⟨rfl,rfl,?_,hkept.tools,hkept.configFiles⟩
  rintro ⟨name,package⟩ hentry
  obtain ⟨rfl,rfl⟩ := get?_single (ExtTreeMap.mem_toList_iff_getElem?_eq_some.mp hentry)
  decide +kernel

end LatexCore.TexIndex
