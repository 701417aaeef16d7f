import LatexCore.Foundation.Transaction
import Mathlib.Data.List.Infix
import Mathlib.Logic.Function.Basic

/-! # Trees of directories and files

A file system below one root, by the paths of its entries. Directories and files
are created as the system calls do: the parents are resolved first and an entry
that is there already is refused. A list of files can be written into an empty
root exactly when none of their paths is a prefix of another.
-/
namespace LatexCore.Foundation
variable {ν β : Type}

inductive Entry (β : Type)
  | dir
  | file (contents : β)

inductive IoError
  | notFound | notADirectory | alreadyExists
deriving DecidableEq

abbrev FileTree (ν β : Type) := List ν → Option (Entry β)

def Entry.isFile : Entry β → Bool
  | .file _ => true
  | .dir => false

namespace FileTree
variable [DecidableEq ν] (t : FileTree ν β)

def empty : FileTree ν β := fun path => if path = [] then some .dir else none

def isFile (path : List ν) : Bool := (t path).any Entry.isFile

def isDir (path : List ν) : Bool := (t path).any (fun entry => !entry.isFile)

/-- The directories on the way to a path. -/
def resolve (path : List ν) : Except IoError Unit := do
  ensure (!path.dropLast.inits.any t.isFile) .notADirectory
  ensure (path.dropLast.inits.all t.isDir) .notFound

def mkdir (path : List ν) : Except IoError (FileTree ν β) := do
  t.resolve path
  ensure (t path).isNone .alreadyExists
  pure (Function.update t path (some .dir))

/-- The opening of a file with `create_new`, and its contents. -/
def createNew (path : List ν) (contents : β) : Except IoError (FileTree ν β) := do
  t.resolve path
  ensure (t path).isNone .alreadyExists
  pure (Function.update t path (some (.file contents)))

/-- `create_dir_all`, on the names of the path from the last one on. -/
def createDirs : List ν → Except IoError (FileTree ν β)
  | [] => .ok t
  | name :: parents =>
    let path := (name :: parents).reverse
    match t.mkdir path with
    | .ok t => .ok t
    | .error .notFound => do
      let t ← createDirs parents
      match t.mkdir path with
      | .ok t => .ok t
      | .error e => if t.isDir path then .ok t else .error e
    | .error e => if t.isDir path then .ok t else .error e

def createDirAll (path : List ν) : Except IoError (FileTree ν β) := t.createDirs path.reverse

/-- A file with the directories above it. -/
def addFile (file : List ν × β) : Except IoError (FileTree ν β) := do
  let t ← t.createDirAll file.1.dropLast
  t.createNew file.1 file.2

/-! ## Trees without a hole -/

/-- Whatever is there lies in directories. -/
structure WellFormed : Prop where
  root : t [] = some .dir
  parent : ∀ path name, (t (path ++ [name])).isSome → t path = some .dir

variable {t}

omit [DecidableEq ν] in
theorem isDir_iff {path : List ν} : t.isDir path = true ↔ t path = some .dir := by
  unfold isDir
  cases t path with
  | none => simp
  | some entry => cases entry <;> simp [Entry.isFile]

omit [DecidableEq ν] in
theorem isFile_iff {path : List ν} : t.isFile path = true ↔ ∃ contents, t path = some (.file contents) := by
  unfold isFile
  cases t path with
  | none => simp
  | some entry => cases entry <;> simp [Entry.isFile]

omit [DecidableEq ν] in
theorem WellFormed.above (h : t.WellFormed) {path other : List ν} (hinit : other <+: path)
    (hne : other ≠ path) (hsome : (t path).isSome) : t other = some .dir := by
  obtain ⟨rest,rfl⟩ := hinit
  induction rest using List.reverseRecOn with
  | nil => exact absurd (List.append_nil other).symm hne
  | append_singleton rest name ih =>
    rw [← List.append_assoc] at hsome
    have hparent := h.parent (other ++ rest) name hsome
    by_cases hrest : other = other ++ rest
    · rw [hrest]
      exact hparent
    · exact ih hrest (by rw [hparent]; rfl)

/-! ## Single calls -/

omit [DecidableEq ν] in
theorem not_file_above {path : List ν} :
    (!path.inits.any t.isFile) = true ↔ ∀ other, other <+: path → t.isFile other = false := by
  simp only [Bool.not_eq_true',List.any_eq_false,List.mem_inits,Bool.not_eq_true]

omit [DecidableEq ν] in
theorem resolve_ok (h : t.WellFormed) {path : List ν} {name : ν} {u : Unit} :
    t.resolve (path ++ [name]) = .ok u ↔ t path = some .dir := by
  simp only [resolve,List.dropLast_concat,bind_ok,ensure_ok,not_file_above,List.all_eq_true,List.mem_inits,
    isDir_iff,exists_const]
  constructor
  · exact fun hall => hall.2 path List.prefix_rfl
  · intro hdir
    have hall : ∀ other, other <+: path → t other = some .dir := by
      intro other hother
      by_cases hne : other = path
      · rw [hne]
        exact hdir
      · exact h.above hother hne (by rw [hdir]; rfl)
    refine ⟨?_,hall⟩
    intro other hother
    rw [isFile,hall other hother]
    rfl

theorem mkdir_ok (h : t.WellFormed) {path : List ν} {name : ν} {t' : FileTree ν β} :
    t.mkdir (path ++ [name]) = .ok t' ↔ t path = some .dir ∧ t (path ++ [name]) = none ∧
      t' = Function.update t (path ++ [name]) (some .dir) := by
  simp only [mkdir,bind_ok,ensure_ok,pure_ok,resolve_ok h,Option.isNone_iff_eq_none]
  constructor
  · rintro ⟨_,hdir,_,hnone,rfl⟩
    exact ⟨hdir,hnone,rfl⟩
  · rintro ⟨hdir,hnone,rfl⟩
    exact ⟨(),hdir,(),hnone,rfl⟩

theorem createNew_ok (h : t.WellFormed) {path : List ν} {name : ν} {contents : β} {t' : FileTree ν β} :
    t.createNew (path ++ [name]) contents = .ok t' ↔ t path = some .dir ∧ t (path ++ [name]) = none ∧
      t' = Function.update t (path ++ [name]) (some (.file contents)) := by
  simp only [createNew,bind_ok,ensure_ok,pure_ok,resolve_ok h,Option.isNone_iff_eq_none]
  constructor
  · rintro ⟨_,hdir,_,hnone,rfl⟩
    exact ⟨hdir,hnone,rfl⟩
  · rintro ⟨hdir,hnone,rfl⟩
    exact ⟨(),hdir,(),hnone,rfl⟩

/-- A path whose parents are no files is missing a parent or has all of them. -/
theorem mkdir_notFound {path : List ν} {name : ν}
    (hfile : ∀ other, other <+: path → t.isFile other = false) (hdir : t path ≠ some .dir) :
    t.mkdir (path ++ [name]) = .error .notFound := by
  have hmissing : ¬path.inits.all t.isDir = true := by
    rw [List.all_eq_true]
    intro hall
    exact hdir (isDir_iff.mp (hall path (List.mem_inits _ _ |>.mpr List.prefix_rfl)))
  rw [mkdir,resolve,List.dropLast_concat,ensure,if_pos (not_file_above.mpr hfile)]
  simp only [ensure,hmissing]
  rfl

theorem WellFormed.grow (h : t.WellFormed) {path : List ν} {name : ν} {entry : Entry β}
    (hdir : t path = some .dir) (hnone : t (path ++ [name]) = none) :
    WellFormed (Function.update t (path ++ [name]) (some entry)) := by
  have hkeep : ∀ other, t other = some .dir → Function.update t (path ++ [name]) (some entry) other =
      some .dir := by
    intro other hother
    rw [Function.update_of_ne]
    · exact hother
    · rintro rfl
      rw [hnone] at hother
      cases hother
  refine ⟨hkeep [] h.root,?_⟩
  intro other last hsome
  rw [Function.update_apply] at hsome
  split at hsome
  · next heq =>
    have hpath := List.append_inj_left' heq rfl
    rw [hpath]
    exact hkeep path hdir
  · exact hkeep other (h.parent other last hsome)

/-! ## All directories of a path -/

theorem createDirAll_concat (path : List ν) (name : ν) : t.createDirAll (path ++ [name]) =
    match t.mkdir (path ++ [name]) with
    | .ok t => .ok t
    | .error .notFound => do
      let t ← t.createDirAll path
      match t.mkdir (path ++ [name]) with
      | .ok t => .ok t
      | .error e => if t.isDir (path ++ [name]) then .ok t else .error e
    | .error e => if t.isDir (path ++ [name]) then .ok t else .error e := by
  rw [createDirAll,List.reverse_concat,createDirs]
  simp only [List.reverse_cons,List.reverse_reverse,createDirAll]

theorem createDirAll_ok (h : t.WellFormed) {path : List ν}
    (hfile : ∀ other, other <+: path → t.isFile other = false) :
    ∃ t', t.createDirAll path = .ok t' ∧ t'.WellFormed ∧
      ∀ other, t' other = if other <+: path then some .dir else t other := by
  induction path using List.reverseRecOn with
  | nil =>
    refine ⟨t,rfl,h,?_⟩
    intro other
    split
    · next hother =>
      rw [List.prefix_nil.mp hother]
      exact h.root
    · rfl
  | append_singleton path name ih =>
    have hparents : ∀ other, other <+: path → t.isFile other = false :=
      fun other hother => hfile other (hother.trans (List.prefix_append _ _))
    have hself := hfile (path ++ [name]) List.prefix_rfl
    have hcases : ∀ other, other <+: path ++ [name] ↔ other = path ++ [name] ∨ other <+: path := by
      intro other
      exact List.prefix_concat_iff
    rw [createDirAll_concat]
    by_cases hdir : t path = some .dir
    · cases hnode : t (path ++ [name]) with
      | none =>
        have hmade := (mkdir_ok h).mpr ⟨hdir,hnode,rfl⟩
        rw [hmade]
        refine ⟨_,rfl,h.grow hdir hnode,?_⟩
        intro other
        rw [Function.update_apply]
        by_cases heq : other = path ++ [name]
        · rw [if_pos heq,if_pos (heq ▸ List.prefix_rfl)]
        · rw [if_neg heq]
          split
          · next hother =>
            rcases (hcases other).mp hother with hsame | hother
            · exact absurd hsame heq
            · by_cases hpath : other = path
              · rw [hpath]
                exact hdir
              · exact h.above hother hpath (by rw [hdir]; rfl)
          · rfl
      | some entry =>
        have hentry : t (path ++ [name]) = some .dir := by
          cases entry with
          | dir => exact hnode
          | file contents =>
            rw [isFile,hnode] at hself
            cases hself
        have hresolved : t.resolve (path ++ [name]) = .ok () := (resolve_ok h).mpr hdir
        have hmade : t.mkdir (path ++ [name]) = .error .alreadyExists := by
          rw [mkdir,hresolved,hentry]
          rfl
        rw [hmade]
        dsimp only
        rw [if_pos (isDir_iff.mpr hentry)]
        refine ⟨t,rfl,h,?_⟩
        intro other
        split
        · next hother =>
          by_cases heq : other = path ++ [name]
          · rw [heq]
            exact hentry
          · exact h.above hother heq (by rw [hentry]; rfl)
        · rfl
    · obtain ⟨t₁,hparent,hwf,hget⟩ := ih hparents
      have hnone : t (path ++ [name]) = none := by
        rw [← Option.not_isSome_iff_eq_none]
        exact fun hsome => hdir (h.parent path name hsome)
      have hfirst : t₁ (path ++ [name]) = none := by
        rw [hget,if_neg,hnone]
        intro hinit
        have hlength := hinit.length_le
        rw [List.length_append,List.length_singleton] at hlength
        omega
      have hdir₁ : t₁ path = some .dir := by rw [hget,if_pos List.prefix_rfl]
      have hmade := (mkdir_ok hwf).mpr ⟨hdir₁,hfirst,rfl⟩
      rw [mkdir_notFound hparents hdir]
      dsimp only
      rw [hparent]
      refine ⟨Function.update t₁ (path ++ [name]) (some .dir),?_,hwf.grow hdir₁ hfirst,?_⟩
      · change (match t₁.mkdir (path ++ [name]) with
          | .ok t => Except.ok t
          | .error e => if t₁.isDir (path ++ [name]) then .ok t₁ else .error e) = _
        rw [hmade]
      · intro other
        rw [Function.update_apply]
        by_cases heq : other = path ++ [name]
        · rw [if_pos heq,if_pos (heq ▸ List.prefix_rfl)]
        · rw [if_neg heq,hget]
          have hsame : other <+: path ++ [name] ↔ other <+: path :=
            (hcases other).trans (or_iff_right heq)
          simp only [hsame]

theorem createDirAll_error (h : t.WellFormed) {path other : List ν} (hinit : other <+: path)
    (hfile : t.isFile other = true) : ∃ e, t.createDirAll path = .error e := by
  obtain ⟨contents,hcontents⟩ := isFile_iff.mp hfile
  induction path using List.reverseRecOn with
  | nil =>
    rw [List.prefix_nil.mp hinit,h.root] at hcontents
    cases hcontents
  | append_singleton path name ih =>
    rw [createDirAll_concat]
    have hnotDir : t.isDir (path ++ [name]) = false := by
      rw [← Bool.not_eq_true,isDir_iff]
      intro hdir
      by_cases heq : other = path ++ [name]
      · rw [heq,hdir] at hcontents
        cases hcontents
      · rw [h.above hinit heq (by rw [hdir]; rfl)] at hcontents
        cases hcontents
    rcases List.prefix_concat_iff.mp hinit with heq | hparent
    · subst heq
      have hdir := h.parent path name (by rw [hcontents]; rfl)
      have hmade : t.mkdir (path ++ [name]) = .error .alreadyExists := by
        have hresolved : t.resolve (path ++ [name]) = .ok () := (resolve_ok h).mpr hdir
        rw [mkdir,hresolved,hcontents]
        rfl
      rw [hmade]
      dsimp only
      rw [hnotDir]
      exact ⟨_,rfl⟩
    · have hmade : t.mkdir (path ++ [name]) = .error .notADirectory := by
        have hany : path.inits.any t.isFile = true :=
          List.any_eq_true.mpr ⟨other,(List.mem_inits _ _).mpr hparent,hfile⟩
        rw [mkdir,resolve,List.dropLast_concat,hany]
        rfl
      rw [hmade]
      dsimp only
      rw [hnotDir]
      exact ⟨_,rfl⟩

/-! ## Files in an empty root -/

/-- The tree holds the files, the directories above them, and nothing else. -/
structure Holds (t : FileTree ν β) (files : List (List ν × β)) : Prop where
  wellFormed : t.WellFormed
  file : ∀ path contents, t path = some (.file contents) ↔ (path,contents) ∈ files
  dir : ∀ path, t path = some .dir ↔ path = [] ∨ ∃ f ∈ files, path <+: f.1 ∧ path ≠ f.1

/-- The paths are in nobody's way. -/
def Apart (path other : List ν) : Prop := ¬path <+: other ∧ ¬other <+: path

omit [DecidableEq ν] in
theorem holds_empty : (empty : FileTree ν β).Holds [] := by
  refine ⟨⟨if_pos rfl,?_⟩,?_,?_⟩
  · intro path name hsome
    rw [empty,if_neg (by simp)] at hsome
    cases hsome
  · intro path contents
    unfold empty
    split <;> simp
  · intro path
    unfold empty
    split <;> simp_all

variable {files : List (List ν × β)}

theorem Holds.addFile_ok (h : t.Holds files) {path : List ν} {name : ν} {contents : β}
    (hapart : ∀ f ∈ files, Apart f.1 (path ++ [name])) :
    ∃ t', t.addFile (path ++ [name],contents) = .ok t' ∧ t'.Holds (files ++ [(path ++ [name],contents)]) := by
  have hfile : ∀ other, other <+: path → t.isFile other = false := by
    intro other hother
    rw [← Bool.not_eq_true,isFile_iff]
    rintro ⟨contents',hcontents⟩
    have hmem := (h.file other contents').mp hcontents
    exact (hapart _ hmem).1 (hother.trans (List.prefix_append _ _))
  obtain ⟨t₁,hdirs,hwf,hget⟩ := createDirAll_ok h.wellFormed hfile
  have hdir : t₁ path = some .dir := by rw [hget,if_pos List.prefix_rfl]
  have hlong : ¬path ++ [name] <+: path := by
    intro hinit
    have hlength := hinit.length_le
    rw [List.length_append,List.length_singleton] at hlength
    omega
  have hold : t (path ++ [name]) = none := by
    cases hnode : t (path ++ [name]) with
    | none => rfl
    | some entry =>
      cases entry with
      | file contents' => exact absurd List.prefix_rfl (hapart _ ((h.file _ contents').mp hnode)).1
      | dir =>
        rcases (h.dir _).mp hnode with hnil | ⟨f,hf,hinit,-⟩
        · simp at hnil
        · exact absurd hinit (hapart f hf).2
  have hnone : t₁ (path ++ [name]) = none := by rw [hget,if_neg hlong,hold]
  have hcreated : t₁.createNew (path ++ [name]) contents =
      .ok (Function.update t₁ (path ++ [name]) (some (.file contents))) :=
    (createNew_ok hwf).mpr ⟨hdir,hnone,rfl⟩
  refine ⟨Function.update t₁ (path ++ [name]) (some (.file contents)),?_,hwf.grow hdir hnone,?_,?_⟩
  · simp only [addFile,List.dropLast_concat,bind_ok]
    exact ⟨t₁,hdirs,hcreated⟩
  · intro other contents'
    rw [Function.update_apply,List.mem_append,List.mem_singleton,Prod.mk.injEq]
    by_cases heq : other = path ++ [name]
    · subst heq
      rw [if_pos rfl,Option.some.injEq,Entry.file.injEq]
      constructor
      · exact fun hsame => Or.inr ⟨rfl,hsame.symm⟩
      · rintro (hmem | ⟨-,hsame⟩)
        · exact absurd List.prefix_rfl (hapart _ hmem).1
        · exact hsame.symm
    · rw [if_neg heq,hget]
      by_cases hinit : other <+: path
      · rw [if_pos hinit]
        constructor
        · intro hdir
          cases hdir
        · rintro (hmem | ⟨hsame,-⟩)
          · exact absurd (hinit.trans (List.prefix_append _ _)) (hapart _ hmem).1
          · exact absurd hsame heq
      · rw [if_neg hinit,h.file]
        exact ⟨Or.inl,fun hboth => hboth.resolve_right (fun hsame => heq hsame.1)⟩
  · intro other
    rw [Function.update_apply]
    by_cases heq : other = path ++ [name]
    · subst heq
      rw [if_pos rfl]
      constructor
      · intro hdir
        cases hdir
      · rintro (hnil | ⟨f,hf,hinit,hne⟩)
        · simp at hnil
        · rcases List.mem_append.mp hf with hf | hf
          · exact absurd hinit (hapart f hf).2
          · rw [List.mem_singleton.mp hf] at hne
            exact absurd rfl hne
    · rw [if_neg heq,hget]
      by_cases hinit : other <+: path
      · rw [if_pos hinit]
        exact iff_of_true rfl (Or.inr ⟨_,List.mem_append_right _ (List.mem_singleton_self _),
          hinit.trans (List.prefix_append _ _),heq⟩)
      · rw [if_neg hinit,h.dir]
        refine or_congr_right ⟨?_,?_⟩
        · rintro ⟨f,hf,hboth⟩
          exact ⟨f,List.mem_append_left _ hf,hboth⟩
        · rintro ⟨f,hf,hother,hne⟩
          rcases List.mem_append.mp hf with hf | hf
          · exact ⟨f,hf,hother,hne⟩
          · rw [List.mem_singleton.mp hf] at hother
            rcases List.prefix_concat_iff.mp hother with hsame | hparent
            · exact absurd hsame heq
            · exact absurd hparent hinit

/-- A path in somebody's way is refused. -/
theorem Holds.addFile_error (h : t.Holds files) {path : List ν} {name : ν} {contents : β}
    {f : List ν × β} (hf : f ∈ files) (hway : ¬Apart f.1 (path ++ [name])) :
    ∃ e, t.addFile (path ++ [name],contents) = .error e := by
  have hnode : t f.1 = some (.file f.2) := (h.file f.1 f.2).mpr hf
  have hbusy : (t (path ++ [name])).isSome → ∃ e, t.addFile (path ++ [name],contents) = .error e := by
    intro hsome
    cases hadd : t.addFile (path ++ [name],contents) with
    | error e => exact ⟨e,rfl⟩
    | ok t' =>
      simp only [addFile,List.dropLast_concat,bind_ok] at hadd
      obtain ⟨t₁,hdirs,hcreated⟩ := hadd
      have hfile : ∀ other, other <+: path → t.isFile other = false := by
        intro other hother
        rw [← Bool.not_eq_true]
        intro hfile
        obtain ⟨e,he⟩ := createDirAll_error h.wellFormed hother hfile
        rw [he] at hdirs
        cases hdirs
      obtain ⟨t₂,hdirs₂,hwf,hget⟩ := createDirAll_ok h.wellFormed hfile
      rw [hdirs] at hdirs₂
      cases hdirs₂
      have hnone := ((createNew_ok hwf).mp hcreated).2.1
      have hlong : ¬path ++ [name] <+: path := by
        intro hinit
        have hlength := hinit.length_le
        rw [List.length_append,List.length_singleton] at hlength
        omega
      rw [hget,if_neg hlong] at hnone
      rw [hnone] at hsome
      cases hsome
  by_cases hbelow : f.1 <+: path ++ [name]
  · rcases List.prefix_concat_iff.mp hbelow with hsame | hparent
    · apply hbusy
      rw [← hsame,hnode]
      rfl
    · obtain ⟨e,he⟩ := createDirAll_error h.wellFormed hparent (isFile_iff.mpr ⟨f.2,hnode⟩)
      refine ⟨e,?_⟩
      rw [addFile,List.dropLast_concat,he]
      rfl
  · have habove : path ++ [name] <+: f.1 := by
      unfold Apart at hway
      tauto
    apply hbusy
    by_cases heq : path ++ [name] = f.1
    · rw [heq,hnode]
      rfl
    · rw [h.wellFormed.above habove heq (by rw [hnode]; rfl)]
      rfl

theorem Holds.addFiles (h : t.Holds files) {more : List (List ν × β)} (hne : ∀ f ∈ more, f.1 ≠ [])
    (hapart : files.Pairwise (fun f g => Apart f.1 g.1)) :
    (∀ t', more.foldlM FileTree.addFile t = .ok t' → t'.Holds (files ++ more)) ∧
      ((∃ t', more.foldlM FileTree.addFile t = .ok t') ↔
        (files ++ more).Pairwise (fun f g => Apart f.1 g.1)) := by
  induction more generalizing t files with
  | nil =>
    rw [List.append_nil]
    refine ⟨?_,iff_of_true ⟨t,rfl⟩ hapart⟩
    intro t' ht'
    cases ht'
    exact h
  | cons f rest ih =>
    obtain ⟨path,contents⟩ := f
    rcases List.eq_nil_or_concat path with rfl | ⟨path,name,rfl⟩
    · exact absurd rfl (hne _ (List.mem_cons_self ..))
    rw [List.concat_eq_append] at *
    by_cases hall : ∀ f ∈ files, Apart f.1 (path ++ [name])
    · obtain ⟨t₁,hadd,hholds⟩ := h.addFile_ok hall
      have hpair : (files ++ [(path ++ [name],contents)]).Pairwise (fun f g => Apart f.1 g.1) := by
        refine List.pairwise_append.mpr ⟨hapart,List.pairwise_singleton _ _,?_⟩
        intro f hf g hg
        rw [List.mem_singleton.mp hg]
        exact hall f hf
      have hrest := ih hholds (fun f hf => hne f (List.mem_cons_of_mem _ hf)) hpair
      rw [List.append_assoc,List.singleton_append] at hrest
      rw [List.foldlM_cons,hadd]
      exact hrest
    · obtain ⟨f,hf,hway⟩ : ∃ f ∈ files, ¬Apart f.1 (path ++ [name]) := by
        simpa only [not_forall,exists_prop] using hall
      obtain ⟨e,he⟩ : ∃ e, t.addFile (path ++ [name],contents) = .error e := h.addFile_error hf hway
      have hnone : ∀ t', ((path ++ [name],contents) :: rest).foldlM FileTree.addFile t ≠ .ok t' := by
        intro t' ht'
        rw [List.foldlM_cons,he] at ht'
        cases ht'
      refine ⟨fun t' ht' => absurd ht' (hnone t'),iff_of_false (fun ⟨t',ht'⟩ => hnone t' ht') ?_⟩
      intro hpair
      exact hway ((List.pairwise_append.mp hpair).2.2 f hf _ (List.mem_cons_self ..))

end FileTree
end LatexCore.Foundation
