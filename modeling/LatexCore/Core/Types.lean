import Mathlib.Algebra.Order.Ring.Nat
import Mathlib.Tactic.Common
import LatexCore.Foundation.Transaction

/-! # Domain types

Identifiers, digests and the closed enumerations shared by the queue, the build
scheduler and the workspace log. A digest is kept as the text that `to_hex`
prints and every column stores; its field is the check of `parse_digest`, so a
malformed digest cannot be built.

The failures of the V2 transactions that the model runs have the texts that their
display prints. A failure inside the database is named by the constraint or the
sequence that refuses the statement.
-/
namespace LatexCore.Core

abbrev Uuid := ℕ
abbrev UserId := Uuid
abbrev TenantId := Uuid
abbrev WorkspaceId := Uuid
abbrev JobId := Uuid
abbrev ArtifactId := Uuid
abbrev WorkerId := Uuid

/-- Milliseconds of the database clock. -/
abbrev Timestamp := ℕ

def i64Max : ℕ := 2 ^ 63 - 1
def i32Max : ℕ := 2 ^ 31 - 1
def u64Max : ℕ := 2 ^ 64 - 1

def hexDigit (n : ℕ) : Char := "0123456789abcdef".toList.getD n '0'

/-- The last `count` hexadecimal digits of a number. -/
def hexDigits : ℕ → ℕ → List Char
  | 0, _ => []
  | count + 1, n => hexDigits count (n / 16) ++ [hexDigit (n % 16)]

def uuidText (id : Uuid) : String :=
  let digits := hexDigits 32 id
  String.ofList (digits.take 8 ++ '-' :: (digits.drop 8).take 4 ++ '-' :: (digits.drop 12).take 4 ++
    '-' :: (digits.drop 16).take 4 ++ '-' :: digits.drop 20)

/-- `parse_digest`: sixty-four lower-case hexadecimal digits. -/
def isDigestText (text : String) : Bool :=
  text.toList.length == 64 &&
    text.toList.all (fun c => ('0' ≤ c && c ≤ '9') || ('a' ≤ c && c ≤ 'f'))

structure Digest where
  toHex : String
  parsed : isDigestText toHex = true
deriving DecidableEq

abbrev SnapshotId := Digest
abbrev CompileKey := Digest
abbrev BlobHash := Digest

def Digest.parse? (text : String) : Option Digest :=
  if h : isDigestText text = true then some ⟨text,h⟩ else none

@[simp] theorem Digest.parse?_toHex (digest : Digest) : Digest.parse? digest.toHex = some digest := by
  rw [Digest.parse?,dif_pos digest.parsed]

theorem Digest.toHex_injective {a b : Digest} (h : a.toHex = b.toHex) : a = b := by
  cases a
  cases b
  cases h
  rfl

inductive GlobalRole
  | writer | mentor | admin
deriving DecidableEq

def GlobalRole.text : GlobalRole → String
  | .writer => "writer"
  | .mentor => "mentor"
  | .admin => "admin"

inductive AccountType
  | student | professor | admin
deriving DecidableEq

inductive PaperStatus
  | active | frozen | submitted | archived
deriving DecidableEq

inductive TexEngine
  | latex | pdfLatex | luaLatex | xeLatex
deriving DecidableEq

inductive ShellPolicy
  | safe | restricted | compatibility
deriving DecidableEq

inductive CostClass
  | small | normal | heavy
deriving DecidableEq

inductive ArtifactKind
  | pdf | log | synctex | fls | aux | bcf | toc | other
deriving DecidableEq

/-- The states of a compile job; `claimed` is admitted by the schema but never written. -/
inductive JobState
  | queued | claimed | running | succeeded | failed | timedOut | cancelled
deriving DecidableEq

def JobState.text : JobState → String
  | .queued => "queued"
  | .claimed => "claimed"
  | .running => "running"
  | .succeeded => "succeeded"
  | .failed => "failed"
  | .timedOut => "timed_out"
  | .cancelled => "cancelled"

/-- `state IN ('claimed','running')`. -/
def JobState.leased : JobState → Bool
  | .claimed | .running => true
  | _ => false

/-- `state IN ('queued','claimed','running')`. -/
def JobState.outstanding : JobState → Bool
  | .queued | .claimed | .running => true
  | _ => false

def JobState.terminal (s : JobState) : Bool := !s.outstanding

/-! ## Errors of the repositories -/

open Foundation

inductive V2Error
  | roleMissing (userId : UserId)
  | roleForbidden (userId : UserId) (required : String) (actual : GlobalRole)
  | personalPaperOwnershipConflict (userId : UserId)
  | teamMembershipConflict (userId : UserId)
  | workspaceConflict (workspaceId : WorkspaceId)
  | duplicateFilePath (workspaceId : WorkspaceId) (path : String)
  | notFound (entity : String)
  | conflict (entity : String)
  | invalidPath (message : String)
  | invalidName
  | integrity (message : String)
  | versionConflict (expected actual : ℕ)
  | database (constraint : String)
deriving DecidableEq

/-- The name of a role's variant. -/
def GlobalRole.debug : GlobalRole → String
  | .writer => "Writer"
  | .mentor => "Mentor"
  | .admin => "Admin"

def V2Error.display : V2Error → String
  | .roleMissing userId => "V2 global role is missing for user " ++ uuidText userId
  | .roleForbidden userId required actual => "user " ++ uuidText userId ++ " with role " ++
    actual.debug ++ " cannot perform an operation requiring " ++ required
  | .personalPaperOwnershipConflict userId => "user " ++ uuidText userId ++
    " cannot change role while owning a V2 personal paper"
  | .teamMembershipConflict userId => "user " ++ uuidText userId ++
    " cannot become or lose a role while assigned to a V2 Paper Team"
  | .workspaceConflict workspaceId => "workspace " ++ uuidText workspaceId ++
    " is not available as exactly one V2 paper workspace"
  | .duplicateFilePath workspaceId path => "a live file already uses path " ++ path ++
    " in workspace " ++ uuidText workspaceId
  | .notFound entity => entity ++ " was not found"
  | .conflict entity => entity ++ " already exists"
  | .invalidPath message => "invalid paper path: " ++ message
  | .invalidName => "paper name must contain between 1 and 200 characters"
  | .integrity message => "persistent V2 data is invalid: " ++ message
  | .versionConflict expected actual =>
    "workspace version conflict: expected " ++ toString expected ++ ", actual " ++ toString actual
  | .database _ => "V2 persistence failed"

/-- The failures of the repositories of accounts and of team projects. -/
inductive AppError
  | notFound | conflict | forbidden | draftConflict
  | database (constraint : String)
  | integrity (message : String)
deriving DecidableEq

def AppError.display : AppError → String
  | .notFound => "record not found"
  | .conflict => "record already exists"
  | .forbidden => "operation is not authorized"
  | .draftConflict => "member draft is based on a stale canonical file revision"
  | .database _ => "persistence failed"
  | .integrity message => "persistent data is invalid: " ++ message

/-- The conversion of an unsigned number to `BIGINT`. -/
def toI64 (value : ℕ) (name : String) : Except V2Error Unit :=
  ensure (value ≤ i64Max) (.integrity (name ++ " exceeds PostgreSQL BIGINT"))

@[simp] theorem toI64_ok {value : ℕ} {name : String} {u : Unit} :
    toI64 value name = .ok u ↔ value ≤ i64Max := by
  simp [toI64]

end LatexCore.Core
