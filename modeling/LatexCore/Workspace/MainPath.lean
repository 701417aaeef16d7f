import LatexCore.Core.Types
import LatexCore.Workspace.Wire

/-! # Replays of the main pointer

The team drafts and the undo of an edit read the main file from the stored
payloads alone, without the other files. Both interpreters follow the pointer of
the full replay as long as the state machine accepts the events.
-/
namespace LatexCore.Workspace
open Core Foundation

def payloadOperations (payload : Value) : List Value :=
  ((payload.get? "operations").bind Value.asArr?).getD []

def fieldText (operation : Value) (name : String) : Option String :=
  (operation.get? name).bind Value.asStr?

def workspaceMainStep (main : Option String) (operation : Value) : Option String :=
  match fieldText operation "op" with
  | some "set_main_file" => fieldText operation "path"
  | some "rename_file" =>
    if main = fieldText operation "from" then fieldText operation "to" else main
  | some "delete_file" => if main = fieldText operation "path" then none else main
  | _ => main

/-- `workspace_main_tx`, over the payloads in the order of their events. -/
def workspaceMain (payloads : List Value) : Option String :=
  payloads.foldl (fun main payload => (payloadOperations payload).foldl workspaceMainStep main) none

/-- A logical path of `serde_json::from_value`; the text of the decoder is left out. -/
def decodePath (v : Value) : Except V2Error LogicalPath :=
  require (pathFromValue v) (.integrity "invalid logical path")

def payloadField (operation : Value) (name : String) : Except V2Error LogicalPath := do
  let field ← require (operation.get? name) (.integrity ("structural payload missing " ++ name))
  decodePath field

def currentMainPathStep (main : Option LogicalPath) (operation : Value) :
    Except V2Error (Option LogicalPath) :=
  match fieldText operation "op" with
  | some "set_main_file" =>
    match operation.get? "path" with
    | some field => (decodePath field).map some
    | none => .ok none
  | some "rename_file" => do
    let source ← payloadField operation "from"
    if main = some source then (payloadField operation "to").map some else pure main
  | some "delete_file" => do
    let path ← payloadField operation "path"
    pure (if main = some path then none else main)
  | _ => .ok main

/-- `current_main_path`, over the payloads in the order of their events. -/
def currentMainPath (payloads : List Value) : Except V2Error (Option LogicalPath) :=
  payloads.foldlM (fun main payload => (payloadOperations payload).foldlM currentMainPathStep main) none

/-- An event that `WorkspaceState::apply` accepts, by its payload. -/
def applyPayload (state : WorkspaceState) (payload : Value) : Except WorkspaceError WorkspaceState := do
  let mutation ← require (WorkspaceMutationV1.fromValue payload) (.corruptPersistentEvent none)
  state.apply mutation state.version

/-! ## Decoded fields -/

variable {v : Value} {name : String} {path : LogicalPath}

theorem get?_of_field? {field : Value} (h : v.field? name = some field) : v.get? name = some field := by
  unfold Value.field? at h
  split at h
  · next fields name =>
    split at h
    · next f hf =>
      cases h
      rw [Value.get?,← List.head?_filter,hf]
      rfl
    · cases h
  · cases h

theorem pathFromValue_text {field : Value} (h : pathFromValue field = some path) :
    field = .str path.text := by
  unfold pathFromValue at h
  cases field with
  | str text =>
    rw [Value.asStr?_str,Option.bind_some] at h
    unfold LogicalPath.parse at h
    split at h
    · cases h
      rfl
    · cases h
  | _ => cases h

theorem field_path (h : (v.field? name).bind pathFromValue = some path) :
    fieldText v name = some path.text ∧ payloadField v name = .ok path := by
  obtain ⟨field,hfield,hpath⟩ := Option.bind_eq_some_iff.mp h
  have hget := get?_of_field? hfield
  constructor
  · rw [fieldText,hget,pathFromValue_text hpath]
    rfl
  · rw [payloadField,hget]
    simp only [bind_ok,require_ok]
    exact ⟨field,rfl,by rw [decodePath,hpath]; rfl⟩

theorem opText {field : Value} (h : v.field? "op" = some field) : fieldText v "op" = field.asStr? := by
  rw [fieldText,get?_of_field? h]
  rfl

/-! ## One operation -/

theorem text_eq_iff {main : Option LogicalPath} :
    main.map LogicalPath.text = some path.text ↔ main = some path := by
  cases main with
  | none => simp
  | some other =>
    rw [Option.map_some,Option.some.injEq,Option.some.injEq]
    exact ⟨LogicalPath.text_injective,fun h => congrArg _ h⟩

theorem main_step {state next : WorkspaceState} {operation : WorkspaceOperationV1}
    (hdec : WorkspaceOperationV1.fromValue v = some operation)
    (happly : state.applyOperation operation = .ok next) :
    workspaceMainStep (state.mainFile.map LogicalPath.text) v = next.mainFile.map LogicalPath.text ∧
      currentMainPathStep state.mainFile v = .ok next.mainFile := by
  unfold WorkspaceOperationV1.fromValue at hdec
  simp only [Option.bind_eq_bind] at hdec
  obtain ⟨op,hop,hdec⟩ := Option.bind_eq_some_iff.mp hdec
  have htext := opText hop
  split at hdec
  · next hname =>
    obtain ⟨hash,hhash,hdec⟩ := Option.bind_eq_some_iff.mp hdec
    obtain ⟨size,hsize,hdec⟩ := Option.bind_eq_some_iff.mp hdec
    obtain ⟨path,hpath,hdec⟩ := Option.bind_eq_some_iff.mp hdec
    cases hdec
    cases happly
    rw [hname] at htext
    rw [workspaceMainStep,currentMainPathStep,htext]
    exact ⟨rfl,rfl⟩
  · next hname =>
    obtain ⟨path,hpath,hdec⟩ := Option.bind_eq_some_iff.mp hdec
    cases hdec
    obtain ⟨htxt,hfield⟩ := field_path hpath
    simp only [WorkspaceState.applyOperation,bind_ok,pure_ok] at happly
    obtain ⟨_,_,rfl⟩ := happly
    rw [hname] at htext
    rw [workspaceMainStep,currentMainPathStep,htext]
    dsimp only
    rw [htxt,hfield]
    simp only [text_eq_iff]
    constructor
    · split <;> rfl
    · rfl
  · next hname =>
    obtain ⟨source,hsource,hdec⟩ := Option.bind_eq_some_iff.mp hdec
    obtain ⟨target,htarget,hdec⟩ := Option.bind_eq_some_iff.mp hdec
    cases hdec
    obtain ⟨hfrom,hsourceField⟩ := field_path hsource
    obtain ⟨hto,htargetField⟩ := field_path htarget
    have hmain : next.mainFile = if state.mainFile = some source then some target else state.mainFile := by
      simp only [WorkspaceState.applyOperation] at happly
      split at happly
      · next hsame =>
        simp only [bind_ok,pure_ok] at happly
        obtain ⟨_,_,rfl⟩ := happly
        split
        · next hmain => rw [hmain,hsame]
        · rfl
      · simp only [bind_ok,pure_ok] at happly
        obtain ⟨_,_,_,_,rfl⟩ := happly
        rfl
    rw [hname] at htext
    rw [workspaceMainStep,currentMainPathStep,htext]
    rw [hfrom,hto,hsourceField,htargetField,hmain]
    simp only [text_eq_iff]
    constructor
    · split <;> rfl
    · change (if _ then _ else _) = _
      split <;> rfl
  · next hname =>
    obtain ⟨path,hpath,hdec⟩ := Option.bind_eq_some_iff.mp hdec
    cases hdec
    obtain ⟨htxt,-⟩ := field_path hpath
    obtain ⟨field,hfield,hparse⟩ := Option.bind_eq_some_iff.mp hpath
    simp only [WorkspaceState.applyOperation,bind_ok,pure_ok] at happly
    obtain ⟨_,_,rfl⟩ := happly
    rw [hname] at htext
    rw [workspaceMainStep,currentMainPathStep,htext]
    dsimp only
    rw [htxt,get?_of_field? hfield]
    refine ⟨rfl,?_⟩
    have hpathOk : decodePath field = .ok path := by
      rw [decodePath,hparse]
      rfl
    change (decodePath field).map some = _
    rw [hpathOk]
    rfl
  · cases hdec

/-! ## Accepted events -/

theorem main_operations {values : List Value} {operations : List WorkspaceOperationV1}
    (hdec : decodeAll WorkspaceOperationV1.fromValue values = some operations)
    {state next : WorkspaceState} (happly : operations.foldlM WorkspaceState.applyOperation state = .ok next) :
    values.foldl workspaceMainStep (state.mainFile.map LogicalPath.text) =
        next.mainFile.map LogicalPath.text ∧
      values.foldlM currentMainPathStep state.mainFile = .ok next.mainFile := by
  induction values generalizing operations state with
  | nil =>
    cases hdec
    cases happly
    exact ⟨rfl,rfl⟩
  | cons value rest ih =>
    rw [decodeAll] at hdec
    split at hdec
    · next operation others hvalue hrest =>
      cases hdec
      rw [List.foldlM_cons,bind_ok] at happly
      obtain ⟨middle,hstep,happly⟩ := happly
      obtain ⟨htext,hpath⟩ := main_step hvalue hstep
      rw [List.foldl_cons,htext,List.foldlM_cons,hpath]
      exact ih hrest happly
    · cases hdec

theorem main_payload {state next : WorkspaceState} (h : applyPayload state v = .ok next) :
    (payloadOperations v).foldl workspaceMainStep (state.mainFile.map LogicalPath.text) =
        next.mainFile.map LogicalPath.text ∧
      (payloadOperations v).foldlM currentMainPathStep state.mainFile = .ok next.mainFile := by
  simp only [applyPayload,bind_ok,require_ok] at h
  obtain ⟨mutation,hmutation,happly⟩ := h
  simp only [WorkspaceState.apply,bind_ok,pure_ok,ensure_ok,require_ok] at happly
  obtain ⟨_,_,candidate,hfold,_,_,version,_,rfl⟩ := happly
  simp only [WorkspaceMutationV1.fromValue,Option.bind_eq_bind] at hmutation
  obtain ⟨_,_,hmutation⟩ := Option.bind_eq_some_iff.mp hmutation
  obtain ⟨values,hvalues,hmutation⟩ := Option.bind_eq_some_iff.mp hmutation
  obtain ⟨operations,hoperations,hmutation⟩ := Option.bind_eq_some_iff.mp hmutation
  obtain ⟨field,hfield,hitems⟩ := Option.bind_eq_some_iff.mp hvalues
  have hlisted : payloadOperations v = values := by
    rw [payloadOperations,get?_of_field? hfield,Option.bind_some,hitems]
    rfl
  have hsame : mutation.operations = operations := by
    split at hmutation
    · unfold WorkspaceMutationV1.new at hmutation
      split at hmutation
      · cases hmutation
        rfl
      · cases hmutation
    · cases hmutation
  rw [hlisted]
  rw [hsame] at hfold
  have hmain := main_operations hoperations hfold
  exact hmain

theorem main_payloads {payloads : List Value} {start state : WorkspaceState}
    (h : payloads.foldlM applyPayload start = .ok state) :
    payloads.foldl (fun main payload => (payloadOperations payload).foldl workspaceMainStep main)
        (start.mainFile.map LogicalPath.text) = state.mainFile.map LogicalPath.text ∧
      payloads.foldlM (fun main payload => (payloadOperations payload).foldlM currentMainPathStep main)
        start.mainFile = .ok state.mainFile := by
  induction payloads generalizing start with
  | nil =>
    cases h
    exact ⟨rfl,rfl⟩
  | cons payload rest ih =>
    rw [List.foldlM_cons,bind_ok] at h
    obtain ⟨middle,hstep,hrest⟩ := h
    obtain ⟨htext,hpath⟩ := main_payload hstep
    rw [List.foldl_cons,htext,List.foldlM_cons,hpath]
    exact ih hrest

/-- The three replays of the main pointer agree on every log that the state machine accepts. -/
theorem main_replays_agree (workspaceId : WorkspaceId) (payloads : List Value) (state : WorkspaceState)
    (h : payloads.foldlM applyPayload (.empty workspaceId) = .ok state) :
    workspaceMain payloads = state.mainFile.map LogicalPath.text ∧
      currentMainPath payloads = .ok state.mainFile :=
  main_payloads h

/-! ## A main file that is renamed and deleted -/

def thesisTex : LogicalPath := ⟨"thesis.tex",by decide⟩
def bookTex : LogicalPath := ⟨"book.tex",by decide⟩

def blankDigest : BlobHash := ⟨String.ofList (List.replicate 64 'e'),by decide⟩

def renamedMain : List Value :=
  [WorkspaceMutationV1.toValue ⟨[.putFile thesisTex blankDigest 0,.setMainFile thesisTex],by simp⟩,
    WorkspaceMutationV1.toValue ⟨[.renameFile thesisTex bookTex,.putFile thesisTex blankDigest 0],by simp⟩]

theorem renamed_main_agrees : ∃ state, renamedMain.foldlM applyPayload (.empty 1) = .ok state ∧
    workspaceMain renamedMain = state.mainFile.map LogicalPath.text ∧
    currentMainPath renamedMain = .ok state.mainFile ∧ workspaceMain renamedMain = some "book.tex" := by
  have haccepted : (renamedMain.foldlM applyPayload (.empty 1)).isOk = true := by decide +kernel
  cases hstate : renamedMain.foldlM applyPayload (.empty 1) with
  | error e =>
    rw [hstate] at haccepted
    cases haccepted
  | ok state =>
    obtain ⟨htext,hpath⟩ := main_replays_agree 1 renamedMain state hstate
    exact ⟨state,rfl,htext,hpath,by decide +kernel⟩

end LatexCore.Workspace
