import Mathlib.Algebra.Order.Ring.Nat
import Mathlib.Data.String.Basic
import LatexCore.Foundation.Transaction

/-! # Logical paths

Portable relative paths of project files. A path is kept as its text together
with the check of `LogicalPath::parse`, so a forbidden path cannot be built. Paths
are ordered as their texts are.
-/
namespace LatexCore.Workspace
open Foundation

inductive LogicalPathError
  | empty | tooLong | absolute | trailingSlash | emptySegment | dotSegment | forbiddenCharacter
  | segmentTooLong
deriving DecidableEq

def utf8Length (chars : List Char) : ℕ := (chars.map (fun c => c.utf8Size)).sum

def forbidden (c : Char) : Bool :=
  c == '\\' || c == '\x00' || c == ':' || c == '\x7f' || c.toNat < 32

def checkSegment (segment : List Char) : Except LogicalPathError Unit := do
  ensure (segment ≠ []) .emptySegment
  ensure (¬(segment = ['.'] ∨ segment = ['.','.'])) .dotSegment
  ensure (utf8Length segment ≤ 255) .segmentTooLong

def checkSegments : List (List Char) → Except LogicalPathError Unit
  | [] => pure ()
  | segment :: rest => do
    checkSegment segment
    checkSegments rest

/-- The checks of `LogicalPath::parse`, in its order. -/
def checkPath (value : String) : Except LogicalPathError Unit := do
  let chars := value.toList
  ensure (chars ≠ []) .empty
  ensure (utf8Length chars ≤ 1024) .tooLong
  ensure (chars.head? ≠ some '/') .absolute
  ensure (chars.getLast? ≠ some '/') .trailingSlash
  ensure (¬chars.any forbidden) .forbiddenCharacter
  checkSegments (chars.splitOn '/')

structure LogicalPath where
  text : String
  parsed : checkPath text = .ok ()
deriving DecidableEq

namespace LogicalPath

def parse (value : String) : Except LogicalPathError LogicalPath :=
  match h : checkPath value with
  | .ok () => .ok ⟨value,h⟩
  | .error error => .error error

theorem text_injective {a b : LogicalPath} (h : a.text = b.text) : a = b := by
  cases a
  cases b
  cases h
  rfl

theorem parse_text (path : LogicalPath) : parse path.text = .ok path := by
  unfold parse
  split
  · rfl
  · next error h =>
    rw [path.parsed] at h
    cases h

instance : Ord LogicalPath := ⟨fun a b => compare a.text b.text⟩

theorem compare_eq (a b : LogicalPath) : compare a b = compare a.text b.text := rfl

instance : Std.TransOrd LogicalPath where
  eq_swap := by
    intro a b
    rw [compare_eq,compare_eq]
    exact Std.OrientedCmp.eq_swap
  isLE_trans := by
    intro a b c hab hbc
    rw [compare_eq] at hab hbc ⊢
    exact Std.TransCmp.isLE_trans hab hbc

instance : Std.LawfulEqOrd LogicalPath where
  compare_self := by
    intro a
    rw [compare_eq]
    exact Std.ReflCmp.compare_self
  eq_of_compare := by
    intro a b h
    rw [compare_eq] at h
    exact text_injective (Std.LawfulEqCmp.eq_of_compare h)

end LogicalPath
end LatexCore.Workspace
