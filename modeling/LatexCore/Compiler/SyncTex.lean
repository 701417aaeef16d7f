import Mathlib.Algebra.Order.Ring.Rat
import Mathlib.Logic.Function.Basic
import LatexCore.Core.Scan
import LatexCore.Foundation.FirstLeast
import LatexCore.Workspace.Path

/-! # SyncTeX forward search

The reader of a persisted SyncTeX artifact and its search from a source line to the
page. A project is compiled under `/work`, so the Input of a project file names
`/work/` and its path. Files are matched by path suffix: the search stays in the
requested file exactly when no matching record of another file goes before its own.
-/
namespace LatexCore.Compiler
open Core Foundation Workspace

/-- The floating-point numbers a SyncTeX reader computes with. -/
structure Floats (F : Type) where
  parse : List Char → Option F
  ofNat : ℕ → F
  spPerPoint : F
  add : F → F → F
  mul : F → F → F
  div : F → F → F
  abs : F → F

structure SyncTexLocation (F : Type) where
  page : ℕ
  sourcePath : List Char
  line : ℕ
  column : ℕ
  x : F
  y : F
  width : F
  height : F
  exact : Bool
deriving DecidableEq

structure RawRecord (F : Type) where
  page : ℕ
  tag : ℤ
  line : ℕ
  x : F
  y : F
  width : F
  height : F
  depth : F

def parseU32 (text : List Char) : Option ℕ := parseUnsigned (2^32 - 1) text
def parseI64 (text : List Char) : Option ℤ := parseSigned (-2^63) (2^63 - 1) text

/-- What `from_text` holds between two lines. -/
structure Reading (F : Type) where
  inputs : ℤ → Option (List Char)
  page : Option ℕ
  unit : F
  magnification : F
  xOffset : F
  yOffset : F
  raw : List (RawRecord F)

section Reader
variable {F : Type} (floats : Floats F)

/-- The numbers at the head of a record. -/
def parseSource (source : List Char) : Option (ℤ × ℕ) :=
  match source.splitOn ',' with
  | tag :: line :: _ => do
    let tag ← parseI64 tag
    let line ← parseU32 line
    pure (tag,line)
  | _ => none

def parsePoint (point : List Char) : Option (F × F) :=
  match point.splitOn ',' with
  | x :: y :: _ => do
    let x ← floats.parse x
    let y ← floats.parse y
    pure (x,y)
  | _ => none

/-- A size that is absent or malformed is zero. -/
def sizeAt (size : List (List Char)) (i : ℕ) : F :=
  (size[i]? >>= floats.parse).getD (floats.ofNat 0)

def parseRecord (line : List Char) (page : ℕ) : Option (RawRecord F) := do
  let body ← match line with
    | c :: body => if c ∈ ['[','(','v','h'] then some body else none
    | [] => none
  let (source,geometry) ← splitOnce ':' body
  let (tag,line) ← parseSource source
  let parts := geometry.splitOn ':'
  let point ← parts[0]?
  let (x,y) ← parsePoint floats point
  let size := (parts[1]?.getD []).splitOn ','
  pure ⟨page,tag,line,x,y,sizeAt floats size 0,sizeAt floats size 1,sizeAt floats size 2⟩

/-- An `Input:` line without a tag is passed over. -/
def readInput (inputs : ℤ → Option (List Char)) (value : List Char) : ℤ → Option (List Char) :=
  match splitOnce ':' value with
  | none => inputs
  | some (tag,path) =>
    match parseI64 tag with
    | none => inputs
    | some tag => Function.update inputs tag (some path)

def readLine (s : Reading F) (line : List Char) : Reading F :=
  match stripPrefix "Input:".toList line with
  | some value => { s with inputs := readInput s.inputs value }
  | none =>
    match stripPrefix "Unit:".toList line with
    | some value => { s with unit := (floats.parse value).getD (floats.ofNat 1) }
    | none =>
      match stripPrefix "Magnification:".toList line with
      | some value => { s with magnification := (floats.parse value).getD (floats.ofNat 1000) }
      | none =>
        match stripPrefix "X Offset:".toList line with
        | some value => { s with xOffset := (floats.parse value).getD (floats.ofNat 0) }
        | none =>
          match stripPrefix "Y Offset:".toList line with
          | some value => { s with yOffset := (floats.parse value).getD (floats.ofNat 0) }
          | none =>
            match stripPrefix ['{'] line with
            | some value => { s with page := parseU32 value }
            | none =>
              if line = ['}'] then { s with page := none }
              else { s with raw := s.raw ++ (s.page >>= parseRecord floats line).toList }

def unread : Reading F :=
  ⟨fun _ => none,none,floats.ofNat 1,floats.ofNat 1000,floats.ofNat 0,floats.ofNat 0,[]⟩

def readText (text : List Char) : Reading F :=
  (lines text).foldl (readLine floats) (unread floats)

def Reading.factor (s : Reading F) : F :=
  floats.div (floats.div (floats.mul s.unit (floats.ofNat 1000)) s.magnification) floats.spPerPoint

def Reading.locate (s : Reading F) (record : RawRecord F) : Option (SyncTexLocation F) := do
  let sourcePath ← s.inputs record.tag
  let factor := s.factor floats
  pure {
    page := record.page
    sourcePath := sourcePath
    line := record.line
    column := 0
    x := floats.mul (floats.add record.x s.xOffset) factor
    y := floats.mul (floats.add record.y s.yOffset) factor
    width := floats.mul (floats.abs record.width) factor
    height := floats.mul (floats.add (floats.abs record.height) (floats.abs record.depth)) factor
    exact := false }

/-- The locations of a `SyncTexIndex`. -/
def fromText (text : List Char) : List (SyncTexLocation F) :=
  (readText floats text).raw.filterMap ((readText floats text).locate floats)

end Reader

def pathMatches (artifactPath requested : List Char) : Bool :=
  artifactPath = requested || ((stripSuffix requested artifactPath).map (·.getLast? == some '/')).getD false

def lineDistance {F : Type} (line : ℕ) (location : SyncTexLocation F) : ℕ :=
  if location.line < line then line - location.line else location.line - line

/-- `SyncTexIndex::forward`, which takes the first of several nearest locations. -/
def forward {F : Type} (locations : List (SyncTexLocation F)) (sourcePath : List Char) (line column : ℕ) :
    Option (SyncTexLocation F) := do
  let result ← (locations.filter (fun l => pathMatches l.sourcePath sourcePath)).argmin (lineDistance line)
  pure { result with
    column := column
    exact := result.line = line ∧ column = 0 }

/-- What the inverse search computes with besides. -/
structure FloatDistance (F : Type) extends Floats F where
  nan : F
  sub : F → F → F
  mulAdd : F → F → F → F
  totalCmp : F → F → Ordering

section Inverse
variable {F : Type} (floats : FloatDistance F)

def distance (location : SyncTexLocation F) (x y : F) : F :=
  let centerX := floats.add location.x (floats.div location.width (floats.ofNat 2))
  let centerY := floats.sub location.y (floats.div location.height (floats.ofNat 2))
  floats.mulAdd (floats.sub centerX x) (floats.sub centerX x)
    (floats.mul (floats.sub centerY y) (floats.sub centerY y))

def inverse (locations : List (SyncTexLocation F)) (page : ℕ) (x y : F) : Option (SyncTexLocation F) := do
  let result ← minBy
    (fun left right => (floats.totalCmp (distance floats left x y) (distance floats right x y)).then
      (compare left.line right.line))
    (locations.filter (fun l => l.page = page))
  pure { result with exact := false }

end Inverse

/-- What the Input line of a project file names. -/
def inputOf (path : LogicalPath) : List Char := "/work/".toList ++ path.text.toList

section Search
variable {F : Type} (floats : Floats F)
variable (text : List Char) (path : LogicalPath) (line column : ℕ)

def CompiledFrom (files : List (ℤ × LogicalPath)) : Prop :=
  (files.map (·.1)).Nodup ∧
    ∀ tag, (readText floats text).inputs tag = (files.find? (·.1 = tag)).map (fun file => inputOf file.2)

/-- The locations of the records that belong to the Input of a project file. -/
def ownLocations : List (SyncTexLocation F) :=
  (fromText floats text).filter (fun l => l.sourcePath = inputOf path)

/-- Forward search answers from the requested file alone. -/
structure StaysInFile : Prop where
  none_iff : forward (fromText floats text) path.text.toList line column = none ↔
    ownLocations floats text path = []
  nearest : ∀ found, forward (fromText floats text) path.text.toList line column = some found →
    found.sourcePath = inputOf path ∧
    (∃ own ∈ ownLocations floats text path, found = { own with
      column := column
      exact := found.exact } ∧
      ∀ other ∈ ownLocations floats text path, lineDistance line own ≤ lineDistance line other) ∧
    (found.exact = true ↔ found.line = line ∧ column = 0)

/-- The locations that the search compares. -/
def candidates : List (SyncTexLocation F) :=
  (fromText floats text).filter (fun l => pathMatches l.sourcePath path.text.toList)

theorem own_matches : pathMatches (inputOf path) path.text.toList = true := by
  have hstrip : stripSuffix path.text.toList (inputOf path) = some "/work/".toList :=
    stripSuffix_eq_some.mpr rfl
  simp [pathMatches,hstrip]

theorem mem_candidates_of_own {l : SyncTexLocation F} (h : l ∈ ownLocations floats text path) :
    l ∈ candidates floats text path := by
  simp only [ownLocations,List.mem_filter,decide_eq_true_eq] at h
  simp only [candidates,List.mem_filter]
  exact ⟨h.1,by rw [h.2]; exact own_matches path⟩

theorem own_of_candidate {l : SyncTexLocation F} (h : l ∈ candidates floats text path)
    (hown : l.sourcePath = inputOf path) : l ∈ ownLocations floats text path := by
  simp only [candidates,List.mem_filter] at h
  simpa [ownLocations,hown] using h.1

theorem forward_eq : forward (fromText floats text) path.text.toList line column =
    ((candidates floats text path).argmin (lineDistance line)).map (fun result => { result with
      column := column
      exact := result.line = line ∧ column = 0 }) := by
  simp only [forward,candidates]
  cases List.argmin (lineDistance line) _ <;> rfl

theorem staysInFile_iff_argmin : StaysInFile floats text path line column ↔
    ∀ m ∈ (candidates floats text path).argmin (lineDistance line), m.sourcePath = inputOf path := by
  constructor
  · intro h m hm
    have hforward := forward_eq floats text path line column
    rw [hm,Option.map_some] at hforward
    exact (h.nearest _ hforward).1
  · intro h
    refine ⟨?_,?_⟩
    · rw [forward_eq,Option.map_eq_none_iff]
      constructor
      · intro hnone
        rw [List.argmin_eq_none] at hnone
        refine List.eq_nil_iff_forall_not_mem.mpr (fun l hl => ?_)
        have hmem := mem_candidates_of_own floats text path hl
        rw [hnone] at hmem
        exact absurd hmem List.not_mem_nil
      · intro hown
        cases hm : (candidates floats text path).argmin (lineDistance line) with
        | none => rfl
        | some m =>
          have hmem := own_of_candidate floats text path (List.argmin_mem hm) (h m hm)
          rw [hown] at hmem
          exact absurd hmem List.not_mem_nil
    · intro found hfound
      rw [forward_eq,Option.map_eq_some_iff] at hfound
      obtain ⟨m,hm,rfl⟩ := hfound
      refine ⟨h m hm,⟨m,own_of_candidate floats text path (List.argmin_mem hm) (h m hm),rfl,?_⟩,by simp⟩
      intro other hother
      exact List.le_of_mem_argmin (mem_candidates_of_own floats text path hother) hm

/-- Forward search stays in the requested file exactly when each matching record of another
Input is beaten by a record of the file: a nearer one, or an earlier one as near. -/
theorem forward_stays_in_file_iff : StaysInFile floats text path line column ↔
    ∀ pre other post, candidates floats text path = pre ++ other :: post →
      other.sourcePath ≠ inputOf path →
        Beaten (lineDistance line) (·.sourcePath = inputOf path) pre other (candidates floats text path) := by
  rw [staysInFile_iff_argmin,argmin_satisfies_iff]

end Search

def exactFloats : Floats ℚ where
  parse text := (parseI64 text).map (fun n => (n : ℚ))
  ofNat n := n
  spPerPoint := 6578176 / 100
  add := (· + ·)
  mul := (· * ·)
  div := (· / ·)
  abs x := |x|

def mainTex : LogicalPath := ⟨"main.tex",by decide⟩
def chapterMainTex : LogicalPath := ⟨"ch/main.tex",by decide⟩

/-- An artifact of a project with `main.tex` and `ch/main.tex`, where only the latter has a box. -/
def nestedText : List Char :=
  ("Input:1:/work/main.tex\nInput:2:/work/ch/main.tex\nContent:\n\x7b1\n" ++
    "[2,7:6578176,13156352:6578176,657817,0\n\x7d\n").toList

/-- The search for `main.tex` answers with a box of `ch/main.tex`. -/
theorem forward_leaves_file :
    CompiledFrom exactFloats nestedText [(1,mainTex),(2,chapterMainTex)] ∧
      ¬StaysInFile exactFloats nestedText mainTex 7 0 := by
  refine ⟨⟨by decide,?_⟩,?_⟩
  · intro tag
    have hinputs : (readText exactFloats nestedText).inputs =
        Function.update (Function.update (fun _ => none) 1 (some (inputOf mainTex))) 2
          (some (inputOf chapterMainTex)) := rfl
    rw [hinputs]
    by_cases h2 : tag = 2
    · subst h2
      rfl
    by_cases h1 : tag = 1
    · subst h1
      rfl
    rw [Function.update_of_ne h2,Function.update_of_ne h1]
    simp [List.find?,Ne.symm h1,Ne.symm h2]
  · intro h
    have hcandidate : (candidates exactFloats nestedText mainTex).map (·.sourcePath) =
        [inputOf chapterMainTex] := by decide
    cases hm : (candidates exactFloats nestedText mainTex).argmin (lineDistance 7) with
    | none =>
      rw [List.argmin_eq_none] at hm
      rw [hm] at hcandidate
      cases hcandidate
    | some m =>
      have hown := (staysInFile_iff_argmin exactFloats nestedText mainTex 7 0).mp h m hm
      have hmem := List.mem_map_of_mem (f := (·.sourcePath)) (List.argmin_mem hm)
      rw [hcandidate,hown] at hmem
      revert hmem
      decide

end LatexCore.Compiler
