import LatexCore.Foundation.Runs
import LatexCore.Parser.Extractor

/-! # Incremental sessions

A session keeps a source, its tree and its analysis. An edit parses the new source
from the edited old tree; a replacement parses it afresh. Tree-sitter and its LaTeX
grammar are parameters. A session is fresh when a new session on its source has the
same tree and analysis, and a run of calls keeps it so if Tree-sitter reuses an old
tree only as far as the coordinates of the edit allow.
-/
namespace LatexCore.Parser
open Core Foundation Workspace

/-- What the sessions use of Tree-sitter: one parser with the LaTeX grammar. -/
structure TreeSitter where
  Tree : Type
  parse : Bytes → Option Tree → Option Tree
  edit : Tree → InputEdit → Tree
  changedRanges : Tree → Tree → List NodeRange
  rootNode : Tree → SyntaxNode

/-- The tree that a parse returns for an edited tree is the one of a fresh parse, provided the old
tree is the fresh one of the old source and the coordinates describe the change. -/
def TreeSitter.Incremental (ts : TreeSitter) : Prop :=
  ∀ {old new : Bytes} {input : InputEdit} {tree newTree : ts.Tree},
    ts.parse old none = some tree → input.Describes old new →
      ts.parse new (some (ts.edit tree input)) = some newTree → ts.parse new none = some newTree

inductive ParseMode
  | full | incremental
deriving DecidableEq

structure ParseStats where
  mode : ParseMode
  generation : ℕ
  sourceBytes : ℕ
  changedRanges : List SourceRange
deriving DecidableEq

variable {ts : TreeSitter}

structure ParserSession (ts : TreeSitter) where
  path : LogicalPath
  source : Bytes
  tree : ts.Tree
  analysis : FileAnalysis
  stats : ParseStats
  limits : ParserLimits

namespace ParserSession

/-- `ParserSession::new`. The first argument is what `initialized_parser` returns. -/
def new (ts : TreeSitter) (initialized : Except ParserError Unit) (path : LogicalPath)
    (source : Bytes) (limits : ParserLimits) : Except ParserError (ParserSession ts) := do
  initialized
  let tree ← require (ts.parse source none) .parseFailed
  let analysis ← analyzeFile path source (ts.rootNode tree) limits
  ensure (source.length ≤ u64Max) .offsetOverflow
  pure ⟨path,source,tree,analysis,⟨.full,1,source.length,[]⟩,limits⟩

/-- The session that an accepted `apply_edit` assigns. -/
def edited (self : ParserSession ts) (edit : TextEdit) : Except ParserError (ParserSession ts) := do
  ensure (self.source.length ≤ u64Max) .offsetOverflow
  ensure (edit.valid self.source) (.invalidEdit edit.startByte edit.oldEndByte self.source.length)
  ensure (edit.startByte ≤ usizeMax) .offsetOverflow
  ensure (edit.oldEndByte ≤ usizeMax) .offsetOverflow
  ensure (edit.startByte + edit.replacement.length ≤ usizeMax) .offsetOverflow
  let editedTree := ts.edit self.tree (edit.inputEdit self.source)
  let candidate := edit.candidate self.source
  let newTree ← require (ts.parse candidate (some editedTree)) .parseFailed
  let analysis ← analyzeFile self.path candidate (ts.rootNode newTree) self.limits
  let changedRanges ← (ts.changedRanges editedTree newTree).mapM SourceRange.fromTreeSitter
  ensure (self.stats.generation + 1 ≤ u64Max) .generationOverflow
  ensure (candidate.length ≤ u64Max) .offsetOverflow
  pure { self with
    source := candidate
    tree := newTree
    analysis := analysis
    stats := ⟨.incremental,self.stats.generation + 1,candidate.length,changedRanges⟩ }

/-- The session that an accepted `replace_source` assigns. -/
def replaced (self : ParserSession ts) (source : Bytes) : Except ParserError (ParserSession ts) := do
  let tree ← require (ts.parse source none) .parseFailed
  let analysis ← analyzeFile self.path source (ts.rootNode tree) self.limits
  ensure (self.stats.generation + 1 ≤ u64Max) .generationOverflow
  ensure (source.length ≤ u64Max) .offsetOverflow
  pure { self with
    source := source
    tree := tree
    analysis := analysis
    stats := ⟨.full,self.stats.generation + 1,source.length,[]⟩ }

end ParserSession

/-! ## Calls -/

inductive Call
  | applyEdit (edit : TextEdit)
  | replaceSource (source : Bytes)
deriving DecidableEq

def Call.effect (source : Bytes) : Call → Bytes
  | .applyEdit edit => edit.candidate source
  | .replaceSource source => source

namespace ParserSession

def attempt (self : ParserSession ts) : Call → Except ParserError (ParserSession ts)
  | .applyEdit edit => self.edited edit
  | .replaceSource source => self.replaced source

def call (self : ParserSession ts) (call : Call) : Except ParserError Unit × ParserSession ts :=
  match self.attempt call with
  | .ok next => (.ok (),next)
  | .error error => (.error error,self)

def step (self : ParserSession ts) (call : Call) : ParserSession ts := (self.call call).2

/-- The calls of a run that return without an error. -/
def accepted (self : ParserSession ts) (calls : List Call) : List Call :=
  emitted step (fun s call => if (s.call call).1.isOk then [call] else []) self calls

structure Fresh (session : ParserSession ts) : Prop where
  tree : ts.parse session.source none = some session.tree
  analysis : analyzeFile session.path session.source (ts.rootNode session.tree) session.limits =
    .ok session.analysis
  bytes : session.source.length ≤ u64Max

theorem new_fresh {initialized : Except ParserError Unit} {path : LogicalPath} {source : Bytes}
    {limits : ParserLimits} {self : ParserSession ts}
    (h : new ts initialized path source limits = .ok self) :
    self.Fresh ∧ self.path = path ∧ self.source = source ∧ self.limits = limits ∧
      self.stats.generation = 1 ∧ initialized = .ok () := by
  simp only [new,bind_ok,require_ok,ensure_ok,decide_eq_true_eq,pure_ok] at h
  obtain ⟨_,hinit,tree,htree,analysis,hanalysis,_,hbytes,rfl⟩ := h
  exact ⟨⟨htree,hanalysis,hbytes⟩,rfl,rfl,rfl,rfl,hinit⟩

/-- A fresh session is what `new` builds on its source, except for the statistics. -/
theorem Fresh.new {initialized : Except ParserError Unit} {self : ParserSession ts} (h : self.Fresh)
    (hinit : initialized = .ok ()) :
    ParserSession.new ts initialized self.path self.source self.limits =
      .ok { self with stats := ⟨.full,1,self.source.length,[]⟩ } := by
  simp only [ParserSession.new,bind_ok,require_ok,ensure_ok,decide_eq_true_eq,pure_ok]
  exact ⟨(),hinit,self.tree,h.tree,self.analysis,h.analysis,(),h.bytes,rfl⟩

theorem edited_ok {self next : ParserSession ts} {edit : TextEdit} (hts : ts.Incremental)
    (h : self.edited edit = .ok next) (hfresh : self.Fresh) :
    next.Fresh ∧ next.path = self.path ∧ next.limits = self.limits ∧
      next.source = edit.candidate self.source ∧
      next.stats.generation = self.stats.generation + 1 := by
  simp only [edited,bind_ok,require_ok,ensure_ok,decide_eq_true_eq,pure_ok] at h
  obtain ⟨_,_,_,hvalid,_,_,_,_,_,_,tree,htree,analysis,hanalysis,_,_,_,_,_,hbytes,rfl⟩ := h
  have hsame : ts.parse (edit.candidate self.source) none = some tree :=
    hts hfresh.tree (TextEdit.describes hvalid) htree
  exact ⟨⟨hsame,hanalysis,hbytes⟩,rfl,rfl,rfl,rfl⟩

theorem replaced_ok {self next : ParserSession ts} {source : Bytes}
    (h : self.replaced source = .ok next) :
    next.Fresh ∧ next.path = self.path ∧ next.limits = self.limits ∧ next.source = source ∧
      next.stats.generation = self.stats.generation + 1 := by
  simp only [replaced,bind_ok,require_ok,ensure_ok,decide_eq_true_eq,pure_ok] at h
  obtain ⟨tree,htree,analysis,hanalysis,_,_,_,hbytes,rfl⟩ := h
  exact ⟨⟨htree,hanalysis,hbytes⟩,rfl,rfl,rfl,rfl⟩

theorem attempt_ok {self next : ParserSession ts} {call : Call} (hts : ts.Incremental)
    (h : self.attempt call = .ok next) (hfresh : self.Fresh) :
    next.Fresh ∧ next.path = self.path ∧ next.limits = self.limits ∧
      next.source = call.effect self.source ∧
      next.stats.generation = self.stats.generation + 1 := by
  cases call with
  | applyEdit edit => exact edited_ok hts h hfresh
  | replaceSource source => exact replaced_ok h

theorem step_of_rejected {self : ParserSession ts} {call : Call} (h : (self.call call).1.isOk = false) :
    self.step call = self := by
  cases hattempt : self.attempt call with
  | ok next => simp [ParserSession.call,hattempt,Except.isOk,Except.toBool] at h
  | error error => simp [step,ParserSession.call,hattempt]

theorem step_of_accepted {self : ParserSession ts} {call : Call} (h : (self.call call).1.isOk = true) :
    self.attempt call = .ok (self.step call) := by
  cases hattempt : self.attempt call with
  | ok next => simp [step,ParserSession.call,hattempt]
  | error error => simp [ParserSession.call,hattempt,Except.isOk,Except.toBool] at h

theorem Fresh.run {self : ParserSession ts} (hts : ts.Incremental) (hfresh : self.Fresh)
    (calls : List Call) :
    (run step self calls).Fresh ∧ (run step self calls).path = self.path ∧
      (run step self calls).limits = self.limits ∧
      (run step self calls).source = (self.accepted calls).foldl Call.effect self.source ∧
      (run step self calls).stats.generation =
        self.stats.generation + (self.accepted calls).length := by
  induction calls generalizing self with
  | nil => exact ⟨hfresh,rfl,rfl,rfl,rfl⟩
  | cons call rest ih =>
    by_cases haccepted : (self.call call).1.isOk = true
    · obtain ⟨hnext,hpath,hlimits,hsource,hgeneration⟩ :=
        attempt_ok hts (step_of_accepted haccepted) hfresh
      obtain ⟨hfresh',hpath',hlimits',hsource',hgeneration'⟩ := ih hnext
      have hemitted : self.accepted (call :: rest) = call :: (self.step call).accepted rest := by
        simp [accepted,emitted,haccepted]
      rw [hemitted,run_cons]
      refine ⟨hfresh',hpath'.trans hpath,hlimits'.trans hlimits,?_,?_⟩
      · rw [hsource',hsource,List.foldl_cons]
      · rw [hgeneration',hgeneration,List.length_cons]
        omega
    · have hsame : self.step call = self := step_of_rejected (by simpa using haccepted)
      have hemitted : self.accepted (call :: rest) = self.accepted rest := by
        simp [accepted,emitted,haccepted,hsame]
      rw [hemitted,run_cons,hsame]
      exact ih hfresh

end ParserSession

open ParserSession

/-- After any calls, the session is a new session on the fold of the accepted edits, and it has
counted them; a rejected call has left it alone. -/
theorem session_incremental {ts : TreeSitter} (hts : ts.Incremental)
    {initialized : Except ParserError Unit} {path : LogicalPath} {source : Bytes}
    {limits : ParserLimits} {session : ParserSession ts}
    (h : ParserSession.new ts initialized path source limits = .ok session) (calls : List Call) :
    (run step session calls).source = (session.accepted calls).foldl Call.effect source ∧
      (∃ fresh, ParserSession.new ts initialized path (run step session calls).source limits =
          .ok fresh ∧
        (run step session calls).tree = fresh.tree ∧
        (run step session calls).analysis = fresh.analysis) ∧
      (run step session calls).stats.generation = 1 + (session.accepted calls).length ∧
      ∀ call error, ((run step session calls).call call).1 = .error error →
        (run step session calls).step call = run step session calls := by
  obtain ⟨hfresh,rfl,rfl,rfl,hgeneration,hinit⟩ := new_fresh h
  obtain ⟨hend,hpath,hlimits,hsource,hcount⟩ := hfresh.run hts calls
  refine ⟨hsource,?_,?_,?_⟩
  · have hnew := hend.new hinit
    rw [hpath,hlimits] at hnew
    exact ⟨_,hnew,rfl,rfl⟩
  · rw [hcount,hgeneration]
  · intro call error hcall
    exact step_of_rejected (by rw [hcall]; rfl)

/-! ## A parser of comments -/

def commentLines : ℕ → ℕ → List Bytes → List SyntaxNode
  | _, _, [] => []
  | row, start, line :: rest =>
    let comment := SyntaxNode.node "line_comment" [] true false false
      ⟨start,start + line.length,⟨row,0⟩,⟨row,line.length⟩⟩ []
    (if line.head? = some 37 then [comment] else []) ++
      commentLines (row + 1) (start + line.length + 1) rest

def commentParser : TreeSitter where
  Tree := Bytes
  parse source _ := some source
  edit tree _ := tree
  changedRanges _ _ := []
  rootNode source := .node "source_file" [] true false false
    ⟨0,source.length,⟨0,0⟩,pointAt source source.length⟩ (commentLines 0 0 (source.splitOn newline))

theorem commentParser_incremental : commentParser.Incremental := fun _ _ h => h

theorem commentPath_parsed : checkPath "main.tex" = .ok () := by decide +kernel

def commentPath : LogicalPath := ⟨"main.tex",commentPath_parsed⟩

/-- `% a`. -/
def commentSource : Bytes := [37,32,97]

def commentSession : Except ParserError (ParserSession commentParser) :=
  ParserSession.new commentParser (.ok ()) commentPath commentSource .default

/-- An edit outside the source, then `b` and a line break in place of `a`. -/
def commentEdits : List Call := [.applyEdit ⟨4,3,[]⟩,.applyEdit ⟨2,3,[98,10,37]⟩]

theorem session_incremental_comments :
    ∃ session, commentSession = .ok session ∧
      (run step session commentEdits).source = [37,32,98,10,37] ∧
      (run step session commentEdits).stats.generation = 2 ∧
      ∃ fresh, ParserSession.new commentParser (.ok ()) commentPath [37,32,98,10,37] .default =
          .ok fresh ∧
        (run step session commentEdits).analysis = fresh.analysis := by
  have haccepted : commentSession.toOption.map (·.accepted commentEdits) =
      some [.applyEdit ⟨2,3,[98,10,37]⟩] := by decide +kernel
  cases h : commentSession with
  | error error => simp [h,Except.toOption] at haccepted
  | ok session =>
    simp only [h,Except.toOption,Option.map_some,Option.some.injEq] at haccepted
    obtain ⟨hsource,⟨fresh,hfresh,-,hanalysis⟩,hgeneration,-⟩ :=
      session_incremental commentParser_incremental h commentEdits
    rw [haccepted] at hsource hgeneration
    refine ⟨session,rfl,hsource,hgeneration,fresh,?_,hanalysis⟩
    rw [hsource] at hfresh
    exact hfresh

end LatexCore.Parser
