import LatexCore.Papers.Effects

/-! # The identity table beside the log

A state tracks the file table when its paths are those of the live files. One
edit writes one row, and its operations take a state that tracks the old table to
one that tracks the new table, so the event of an edit is accepted when it is
replayed.
-/
namespace LatexCore.Papers
open Core Foundation Workspace
variable {x : WorkspaceId} {files files' : PaperFiles} {operations : List WorkspaceOperationV1}
variable {state : WorkspaceState}

def Tracks (x : WorkspaceId) (state : WorkspaceState) (files : PaperFiles) : Prop :=
  ∀ path, state.files.contains path = true ↔ ∃ id, files.At (x,path) id

/-- One row of the workspace is written, or none. -/
def Rewritten (x : WorkspaceId) (files files' : PaperFiles) : Prop :=
  files' = files ∨ ∃ id file', (∀ k, files'.get? k = if k = id then some file' else files.get? k) ∧
    file'.workspaceId = x ∧ ∀ file, files.get? id = some file → file.workspaceId = x

/-- Rows stay, with their workspaces, and new ones belong to the given workspace. -/
structure Kept (x : WorkspaceId) (files files' : PaperFiles) : Prop where
  rows : ∀ id file, files.get? id = some file →
    ∃ file', files'.get? id = some file' ∧ file'.workspaceId = file.workspaceId
  others : ∀ id file', files'.get? id = some file' → file'.workspaceId ≠ x →
    files.get? id = some file'

theorem Kept.refl (x : WorkspaceId) (files : PaperFiles) : Kept x files files :=
  ⟨fun _ file h => ⟨file,h,rfl⟩,fun _ _ h _ => h⟩

theorem Kept.trans {files'' : PaperFiles} (h : Kept x files files') (h' : Kept x files' files'') :
    Kept x files files'' where
  rows := by
    intro id file hfile
    obtain ⟨file',hfile',hspace⟩ := h.rows id file hfile
    obtain ⟨file'',hfile'',hspace'⟩ := h'.rows id file' hfile'
    exact ⟨file'',hfile'',hspace'.trans hspace⟩
  others := fun id file' hfile' hne => h.others id file' (h'.others id file' hfile' hne) hne

theorem Rewritten.kept (h : Rewritten x files files') : Kept x files files' := by
  obtain rfl | ⟨id,file',hget,hspace,hold⟩ := h
  · exact .refl x _
  · refine ⟨?_,?_⟩
    · intro k file hfile
      rw [hget]
      by_cases hk : k = id
      · subst hk
        exact ⟨file',if_pos rfl,hspace.trans (hold file hfile).symm⟩
      · exact ⟨file,(if_neg hk).trans hfile,rfl⟩
    · intro k file hfile hne
      rw [hget] at hfile
      by_cases hk : k = id
      · rw [if_pos hk] at hfile
        cases hfile
        exact absurd hspace hne
      · rw [if_neg hk] at hfile
        exact hfile

theorem Kept.get?_other (h : Kept x files files') {id : Uuid} {file : PaperFile}
    (hne : file.workspaceId ≠ x) : files'.get? id = some file ↔ files.get? id = some file := by
  refine ⟨fun hfile => h.others id file hfile hne,?_⟩
  intro hfile
  obtain ⟨file',hfile',hspace⟩ := h.rows id file hfile
  have hback := h.others id file' hfile' (hspace ▸ hne)
  rw [hfile] at hback
  cases hback
  exact hfile'

theorem Kept.at_other (h : Kept x files files') {y : WorkspaceId} (hne : y ≠ x) (path : LogicalPath)
    (id : Uuid) : files'.At (y,path) id ↔ files.At (y,path) id := by
  constructor
  · rintro ⟨file,hfile,hlive⟩
    have hspace := (liveIndex_eq.mp hlive).2.1
    exact ⟨file,(h.get?_other (hspace ▸ hne)).mp hfile,hlive⟩
  · rintro ⟨file,hfile,hlive⟩
    have hspace := (liveIndex_eq.mp hlive).2.1
    exact ⟨file,(h.get?_other (hspace ▸ hne)).mpr hfile,hlive⟩

theorem Kept.tracks_other (h : Kept x files files') {y : WorkspaceId} (hne : y ≠ x)
    (htracks : Tracks y state files) : Tracks y state files' := by
  intro path
  rw [htracks path]
  exact exists_congr (fun id => (h.at_other hne path id).symm)

theorem rewritten_insert {id : Uuid} {path : LogicalPath}
    (h : files.insert? id ⟨x,path,1,false⟩ = some files') : Rewritten x files files' := by
  obtain ⟨hnone,hget⟩ := Indexed.insert?_eq_some h
  refine Or.inr ⟨id,_,hget,rfl,?_⟩
  intro file hfile
  rw [hnone] at hfile
  cases hfile

theorem FileEdit.rewritten (h : FileEdit files x files' operations) : Rewritten x files files' := by
  cases h with
  | create id path _ _ h => exact rewritten_insert h
  | save id file _ _ hfile hlive =>
    refine Or.inr ⟨id,file.bump,Indexed.get?_updateWhere_key _ hfile,(liveIndex_eq.mp hlive).2.1,?_⟩
    intro other hother
    rw [hfile] at hother
    cases hother
    exact (liveIndex_eq.mp hlive).2.1
  | rename id file path hfile hlive h =>
    refine Or.inr ⟨id,file.moveTo path,Indexed.get?_modify?_of_some hfile h,
      (liveIndex_eq.mp hlive).2.1,?_⟩
    intro other hother
    rw [hfile] at hother
    cases hother
    exact (liveIndex_eq.mp hlive).2.1
  | delete id file hfile hlive =>
    refine Or.inr ⟨id,file.tombstone,Indexed.get?_updateWhere_key _ hfile,
      (liveIndex_eq.mp hlive).2.1,?_⟩
    intro other hother
    rw [hfile] at hother
    cases hother
    exact (liveIndex_eq.mp hlive).2.1
  | setMain id file hfile hlive => exact Or.inl rfl
  | revive id file _ _ main hfile hspace h =>
    refine Or.inr ⟨id,file.revive,Indexed.get?_modify?_of_some hfile h,hspace,?_⟩
    intro other hother
    rw [hfile] at hother
    cases hother
    exact hspace

/-! ## What an edit does to the live paths -/

theorem contains_insert_iff {ν : Type} {t : Std.ExtTreeMap LogicalPath ν} {path q : LogicalPath} {v : ν} :
    (t.insert path v).contains q = true ↔ q = path ∨ t.contains q = true := by
  rw [Std.ExtTreeMap.contains_insert,Bool.or_eq_true,beq_iff_eq,Std.LawfulEqCmp.compare_eq_iff_eq]
  exact or_congr_left ⟨Eq.symm,Eq.symm⟩

theorem contains_erase_iff {ν : Type} {t : Std.ExtTreeMap LogicalPath ν} {path q : LogicalPath} :
    (t.erase path).contains q = true ↔ q ≠ path ∧ t.contains q = true := by
  rw [Std.ExtTreeMap.contains_erase,Bool.and_eq_true,bne_iff_ne,ne_eq,
    Std.LawfulEqCmp.compare_eq_iff_eq]
  exact and_congr_left fun _ => ⟨fun h he => h he.symm,fun h he => h he.symm⟩

variable {id : Uuid} {file file' : PaperFile} {source target path : LogicalPath}

/-- The written row takes a path, and gives up none but that one. -/
theorem live_written (hget : ∀ k, files'.get? k = if k = id then some file' else files.get? k)
    (hlive : liveIndex id file' = some (x,path))
    (hold : ∀ file, files.get? id = some file → file.tombstoned = true ∨ file.path = path)
    (q : LogicalPath) : (∃ k, files'.At (x,q) k) ↔ q = path ∨ ∃ k, files.At (x,q) k := by
  rw [Indexed.exists_at_replaced hget,hlive]
  constructor
  · rintro (hq | ⟨hk,_⟩)
    · cases hq
      exact Or.inl rfl
    · exact Or.inr hk
  · rintro (rfl | hk)
    · exact Or.inl rfl
    · by_cases hself : files.At (x,q) id
      · obtain ⟨file,hfile,hindex⟩ := hself
        obtain ⟨hlive,_,hpath⟩ := liveIndex_eq.mp hindex
        rcases hold file hfile with htombstoned | hsame
        · rw [hlive] at htombstoned
          cases htombstoned
        · exact Or.inl (by rw [← hpath,hsame])
      · exact Or.inr ⟨hk,hself⟩

theorem live_inserted (h : files.insert? id ⟨x,path,1,false⟩ = some files') (q : LogicalPath) :
    (∃ k, files'.At (x,q) k) ↔ q = path ∨ ∃ k, files.At (x,q) k := by
  obtain ⟨hnone,hget⟩ := Indexed.insert?_eq_some h
  refine live_written hget rfl ?_ q
  intro old hold
  rw [hnone] at hold
  cases hold

theorem live_moved (hget : ∀ k, files'.get? k = if k = id then some file' else files.get? k)
    (hlive : liveIndex id file' = some (x,target)) (hold : files.At (x,source) id) (q : LogicalPath) :
    (∃ k, files'.At (x,q) k) ↔ q = target ∨ q ≠ source ∧ ∃ k, files.At (x,q) k := by
  rw [Indexed.exists_at_replaced hget,hlive]
  have hself : files.At (x,q) id ↔ q = source := by
    constructor
    · intro h
      cases h.key_unique hold
      rfl
    · rintro rfl
      exact hold
  rw [hself,and_comm]
  exact or_congr_left ⟨fun h => by cases h; rfl,fun h => by rw [h]⟩

/-- The written row is no longer live. -/
theorem live_removed (hget : ∀ k, files'.get? k = if k = id then some file' else files.get? k)
    (hlive : liveIndex id file' = none) (hold : files.At (x,path) id) (q : LogicalPath) :
    (∃ k, files'.At (x,q) k) ↔ q ≠ path ∧ ∃ k, files.At (x,q) k := by
  rw [Indexed.exists_at_replaced hget,hlive]
  have hself : files.At (x,q) id ↔ q = path := by
    constructor
    · intro h
      cases h.key_unique hold
      rfl
    · rintro rfl
      exact hold
  rw [hself,and_comm]
  simp

/-- A move needs a free path, or it stays where it is. -/
theorem target_free (hget : ∀ k, files'.get? k = if k = id then some file' else files.get? k)
    (hlive : liveIndex id file' = some (x,target)) (hold : files.At (x,source) id)
    (hne : source ≠ target) : ¬∃ k, files.At (x,target) k := by
  rintro ⟨k,hk⟩
  have hnew : files'.At (x,target) id := (Indexed.at_replaced hget _ _).mpr (by rw [if_pos rfl,hlive])
  by_cases hid : k = id
  · subst hid
    cases hk.key_unique hold
    exact hne rfl
  · have hkept : files'.At (x,target) k := (Indexed.at_replaced hget _ _).mpr (by rw [if_neg hid]; exact hk)
    exact hid (hkept.unique hnew)

theorem Tracks.put (htracks : Tracks x state files) {path : LogicalPath} (entry : WorkspaceFile)
    (hnew : ∀ q, (∃ k, files'.At (x,q) k) ↔ q = path ∨ ∃ k, files.At (x,q) k) :
    Tracks x { state with files := state.files.insert path entry } files' := by
  intro q
  rw [hnew q,← htracks q]
  exact contains_insert_iff

theorem Tracks.rename (htracks : Tracks x state files)
    (hsource : ∃ k, files.At (x,source) k) (hfree : source ≠ target → ¬∃ k, files.At (x,target) k)
    (hnew : ∀ q, (∃ k, files'.At (x,q) k) ↔ q = target ∨ q ≠ source ∧ ∃ k, files.At (x,q) k) :
    ∃ next, state.applyOperation (.renameFile source target) = .ok next ∧ Tracks x next files' := by
  have hcontains : state.files.contains source = true := (htracks source).mpr hsource
  simp only [WorkspaceState.applyOperation]
  by_cases hsame : source = target
  · subst hsame
    refine ⟨state,?_,?_⟩
    · rw [if_pos rfl,hcontains]
      rfl
    · intro q
      rw [hnew q,htracks q]
      by_cases hq : q = source
      · subst hq
        simp [hsource]
      · simp [hq]
  · have hclear : state.files.contains target = false := by
      rw [Bool.eq_false_iff]
      exact fun h => hfree hsame ((htracks target).mp h)
    obtain ⟨entry,hentry⟩ : ∃ entry, state.files[source]? = some entry := by
      rw [← Option.isSome_iff_exists,← Std.ExtTreeMap.contains_eq_isSome_getElem?]
      exact hcontains
    let mainFile := if state.mainFile = some source then some target else state.mainFile
    refine ⟨{ state with files := (state.files.erase source).insert target entry, mainFile := mainFile },
      ?_,?_⟩
    · rw [if_neg hsame,hclear,hentry]
      rfl
    · intro q
      rw [hnew q,← htracks q]
      exact contains_insert_iff.trans (or_congr_right contains_erase_iff)

theorem Tracks.delete (htracks : Tracks x state files) (hpath : ∃ k, files.At (x,path) k)
    (hnew : ∀ q, (∃ k, files'.At (x,q) k) ↔ q ≠ path ∧ ∃ k, files.At (x,q) k) :
    ∃ next, state.applyOperation (.deleteFile path) = .ok next ∧ Tracks x next files' := by
  have hcontains : state.files.contains path = true := (htracks path).mpr hpath
  let mainFile := if state.mainFile = some path then none else state.mainFile
  refine ⟨{ state with files := state.files.erase path, mainFile := mainFile },?_,?_⟩
  · simp only [WorkspaceState.applyOperation,hcontains]
    rfl
  · intro q
    rw [hnew q,← htracks q]
    exact contains_erase_iff

theorem Tracks.setMain (htracks : Tracks x state files) (hpath : ∃ k, files.At (x,path) k) :
    ∃ next, state.applyOperation (.setMainFile path) = .ok next ∧ Tracks x next files := by
  refine ⟨{ state with mainFile := some path },?_,htracks⟩
  simp only [WorkspaceState.applyOperation,(htracks path).mpr hpath]
  rfl

theorem foldlM_single {operation : WorkspaceOperationV1} {next : WorkspaceState}
    (h : state.applyOperation operation = .ok next) :
    [operation].foldlM WorkspaceState.applyOperation state = .ok next := by
  rw [List.foldlM_cons,h]
  rfl

theorem FileEdit.tracks (h : FileEdit files x files' operations) (htracks : Tracks x state files) :
    ∃ next, operations.foldlM WorkspaceState.applyOperation state = .ok next ∧ Tracks x next files' := by
  cases h with
  | create id path blobHash sizeBytes h =>
    exact ⟨_,rfl,htracks.put _ (live_inserted h)⟩
  | save id file blobHash sizeBytes hfile hlive =>
    refine ⟨_,rfl,htracks.put _ (live_written (Indexed.get?_updateWhere_key _ hfile) hlive ?_)⟩
    intro old hold
    rw [hfile] at hold
    cases hold
    exact Or.inr rfl
  | rename id file path hfile hlive h =>
    have hget := Indexed.get?_modify?_of_some hfile h
    have hmoved : liveIndex id (file.moveTo path) = some (x,path) := by
      obtain ⟨hlive,hspace,_⟩ := liveIndex_eq.mp hlive
      exact liveIndex_eq.mpr ⟨hlive,hspace,rfl⟩
    have hold : files.At (x,file.path) id := ⟨file,hfile,hlive⟩
    obtain ⟨next,hnext,htracks'⟩ := htracks.rename ⟨id,hold⟩ (target_free hget hmoved hold)
      (live_moved hget hmoved hold)
    exact ⟨next,foldlM_single hnext,htracks'⟩
  | delete id file hfile hlive =>
    have hold : files.At (x,file.path) id := ⟨file,hfile,hlive⟩
    obtain ⟨next,hnext,htracks'⟩ := htracks.delete ⟨id,hold⟩
      (live_removed (Indexed.get?_updateWhere_key liveIndex_tombstone hfile) rfl hold)
    exact ⟨next,foldlM_single hnext,htracks'⟩
  | setMain id file hfile hlive =>
    obtain ⟨next,hnext,htracks'⟩ := htracks.setMain ⟨id,file,hfile,hlive⟩
    exact ⟨next,foldlM_single hnext,htracks'⟩
  | revive id file blobHash sizeBytes main hfile hspace h =>
    have hget := Indexed.get?_modify?_of_some hfile h
    have hlive : liveIndex id file.revive = some (x,file.path) := liveIndex_eq.mpr ⟨rfl,hspace,rfl⟩
    have hput := htracks.put ⟨blobHash,sizeBytes⟩ (live_written hget hlive (by
      intro old hold
      rw [hfile] at hold
      cases hold
      exact Or.inr rfl))
    rw [List.foldlM_cons]
    cases main with
    | false => exact ⟨_,rfl,hput⟩
    | true =>
      obtain ⟨next,hnext,htracks'⟩ := hput.setMain ⟨id,file.revive,(hget id).trans (if_pos rfl),hlive⟩
      exact ⟨next,foldlM_single hnext,htracks'⟩

end LatexCore.Papers
