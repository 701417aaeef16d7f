import LatexCore.Blobs.FsStore

/-! # What a put promises

A final path never shows anything but the complete bytes of its hash, and no put
touches the path of another. That a reported blob outlives every crash needs more
than the put does: nobody syncs the directories above the shard, and a put that
finds its blob in place returns before the entry is stored.
-/
namespace LatexCore.Blobs
open Core Foundation

variable (digest : Bytes → BlobHash) (mode : IntegrityMode)

def Task.putOf : Task → Option BlobHash
  | .making (.publish hash _) _ _ => some hash
  | .checking hash _ | .creating hash _ | .writing hash .. | .linking hash .. | .syncing hash ..
  | .verifying hash _ | .reading hash .. => some hash
  | _ => none

def Apart (w : World) (label : Label) : Prop :=
  ∀ process fault amount, label = .step process fault amount → ∀ hash, (w.tasks process).putOf = some hash →
    (∀ other, other ≠ hash → (w.step digest mode label).disk.seen (blobPath other) =
      w.disk.seen (blobPath other)) ∧
    ∀ other, other ≠ process → (w.step digest mode label).tasks other = w.tasks other

/-- The promises of a store, at every moment and after a crash at any moment. -/
structure BlobContract (w : World) (ops : List Label) : Prop where
  complete : ∀ pre post, ops = pre ++ post → ∀ keep torn hash entry,
    ((run (World.step digest mode) w pre).disk.seen (blobPath hash) = some entry ∨
      ((run (World.step digest mode) w pre).step digest mode (.crash keep torn)).disk.seen (blobPath hash) =
        some entry) →
    ∃ file : StoredFile, entry = .file file ∧ digest file.bytes = hash
  lasting : ∀ pre post, ops = pre ++ post → ∀ keep torn hash,
    (run (World.step digest mode) w pre).reported hash = true →
      (((run (World.step digest mode) w pre).step digest mode (.crash keep torn)).disk.seen
        (blobPath hash)).isSome = true
  apart : Along (World.step digest mode) (Apart digest mode) w ops

/-- A put reports a blob whose path is stored: the directories above it before the last sync, and its
entry as well where another put has made it. -/
def World.settled (w : World) : Label → Prop
  | .step process false _ =>
    (∀ hash size, w.tasks process = .syncing hash size false →
      ∀ above, above <+: shard hash → (w.disk.stored above).isSome = true) ∧
    (∀ hash size length data, w.tasks process = .reading hash size length →
      readFile w.disk hash = some data → verifies digest hash size length data = true →
        ∀ above, above <+: blobPath hash → (w.disk.stored above).isSome = true)
  | _ => True

/-! ## Paths -/

variable {digest mode} {w : World} {label : Label} {hash other : BlobHash} {process : ℕ}

theorem blobPath_injective (h : blobPath hash = blobPath other) : hash = other := by
  have hlast := congrArg List.getLast? h
  rw [blobPath,blobPath,List.getLast?_concat,List.getLast?_concat,Option.some.injEq] at hlast
  exact Digest.toHex_injective hlast

theorem length_blobPath (hash : BlobHash) : (blobPath hash).length = 4 := rfl

theorem length_directory (goal : Goal) : goal.directory.length < 4 := by
  cases goal with
  | opening => decide
  | publish hash bytes => exact (by decide : 3 < 4)

theorem blobPath_prefix (h : blobPath hash <+: blobPath other) : hash = other :=
  blobPath_injective (h.eq_of_length rfl)

/-! ## Changes of the disk -/

inductive DiskStep (w : World) : Label → BlobDisk → Prop
  | same (label : Label) : DiskStep w label w.disk
  | made (process amount : ℕ) (path : BlobPath) (name : String)
    (hlength : (path ++ [name]).length < 4) (hdir : w.disk.seen path = some .dir)
    (hnone : w.disk.seen (path ++ [name]) = none) :
    DiskStep w (.step process false amount)
      { w.disk with seen := Function.update w.disk.seen (path ++ [name]) (some .dir) }
  | linked (process amount : ℕ) (hash : BlobHash) (bytes : Bytes) (temporary : StoredFile)
    (htask : w.tasks process = .linking hash bytes temporary) (hlength : temporary.bytes.length = bytes.length)
    (hdir : w.disk.seen (shard hash) = some .dir) (hnone : w.disk.seen (blobPath hash) = none) :
    DiskStep w (.step process false amount)
      { w.disk with seen := Function.update w.disk.seen (blobPath hash) (some (.file temporary)) }
  | synced (process amount : ℕ) (hash : BlobHash) (size : ℕ) (deleted : Bool)
    (htask : w.tasks process = .syncing hash size deleted) :
    DiskStep w (.step process false amount) (w.disk.syncDirectory (shard hash))
  | removed (process amount : ℕ) (hash : BlobHash) (file : StoredFile)
    (htask : w.tasks process = .removing hash) (hfile : w.disk.seen (blobPath hash) = some (.file file)) :
    DiskStep w (.step process false amount) (w.disk.unlink (blobPath hash))
  | crashed (keep : BlobPath → Bool) (torn : BlobPath → Bytes) :
    DiskStep w (.crash keep torn) (w.disk.crash keep (fun path => StoredFile.tear (torn path)))

theorem mkdir_made {d d' : BlobDisk} (hwf : d.seen.WellFormed) {path : BlobPath} (h : d.mkdir path = .ok d') :
    ∃ parent name, path = parent ++ [name] ∧ d.seen parent = some .dir ∧ d.seen (parent ++ [name]) = none ∧
      d' = { d with seen := Function.update d.seen (parent ++ [name]) (some .dir) } := by
  simp only [Disk.mkdir,map_ok] at h
  obtain ⟨seen,hseen,rfl⟩ := h
  rcases List.eq_nil_or_concat path with rfl | ⟨parent,name,rfl⟩
  · simp only [FileTree.mkdir,bind_ok,ensure_ok,Option.isNone_iff_eq_none,hwf.root] at hseen
    obtain ⟨_,_,_,hnone,_⟩ := hseen
    cases hnone
  · rw [List.concat_eq_append] at hseen
    obtain ⟨hdir,hnone,rfl⟩ := (FileTree.mkdir_ok hwf).mp hseen
    exact ⟨parent,name,List.concat_eq_append,hdir,hnone,rfl⟩

theorem link_made {d d' : BlobDisk} (hwf : d.seen.WellFormed) {file : StoredFile}
    (h : d.link (blobPath hash) file = .ok d') :
    d.seen (shard hash) = some .dir ∧ d.seen (blobPath hash) = none ∧
      d' = { d with seen := Function.update d.seen (blobPath hash) (some (.file file)) } := by
  simp only [Disk.link,map_ok] at h
  obtain ⟨seen,hseen,rfl⟩ := h
  rw [blobPath] at hseen
  obtain ⟨hdir,hnone,rfl⟩ := (FileTree.createNew_ok hwf).mp hseen
  exact ⟨hdir,hnone,rfl⟩

theorem publish_disk (hwf : w.disk.seen.WellFormed) (process amount : ℕ) :
    DiskStep w (.step process false amount) (w.publish digest process amount (w.tasks process)).disk := by
  cases htask : w.tasks process with
  | creating hash bytes =>
    rw [World.publish]
    split <;> exact .same _
  | writing hash bytes temporary =>
    rw [World.publish]
    split <;> exact .same _
  | linking hash bytes temporary =>
    rw [World.publish]
    split
    · next hlength =>
      split
      · next disk hlink =>
        obtain ⟨hdir,hnone,rfl⟩ := link_made hwf hlink
        exact .linked process amount hash bytes temporary htask hlength hdir hnone
      · exact .same _
      · exact .same _
    · exact .same _
  | syncing hash size deleted =>
    rw [World.publish]
    split <;> exact .synced process amount hash size deleted htask
  | _ => exact .same _

theorem inspect_disk (w : World) (process : ℕ) (task : Task) : (w.inspect digest mode process task).disk = w.disk := by
  unfold World.inspect
  repeat' split
  all_goals rfl

theorem make_disk (hwf : w.disk.seen.WellFormed) (process amount : ℕ) (goal : Goal) (depth : ℕ) (climbing : Bool) :
    DiskStep w (.step process false amount) (w.make process goal depth climbing).disk := by
  rw [World.make]
  split
  · next disk hmade =>
    obtain ⟨parent,name,hpath,hdir,hnone,rfl⟩ := mkdir_made hwf hmade
    refine .made process amount parent name ?_ hdir hnone
    rw [← hpath]
    exact (List.length_take_le' ..).trans_lt (length_directory goal)
  · split
    · exact .same _
    · split <;> exact .same _

theorem remove_disk {amount : ℕ} (htask : w.tasks process = .removing hash) :
    DiskStep w (.step process false amount) (w.remove process hash).disk := by
  rw [World.remove]
  split
  · next file hfile => exact .removed process amount hash file htask hfile
  · exact .same _

theorem step_disk (digest : Bytes → BlobHash) (mode : IntegrityMode) (hwf : w.disk.seen.WellFormed)
    (label : Label) : DiskStep w label (w.step digest mode label).disk := by
  cases label with
  | call process operation =>
    rw [World.step]
    split <;> exact .same _
  | kill process => exact .same _
  | crash keep torn => exact .crashed keep torn
  | step process fault amount =>
    rw [World.step]
    split
    · exact .same _
    · next hfault =>
      cases fault with
      | true =>
        have hover : (w.tasks process).isOver = true := by simpa using hfault
        rw [World.advance]
        cases htask : w.tasks process with
        | idle => exact .same _
        | finished answer => exact .same _
        | _ =>
          rw [htask] at hover
          cases hover
      | false =>
        rw [World.advance]
        split
        · exact make_disk hwf process amount _ _ _
        · next htask => exact htask ▸ publish_disk hwf process amount
        · next htask => exact htask ▸ publish_disk hwf process amount
        · next htask => exact htask ▸ publish_disk hwf process amount
        · next htask => exact htask ▸ publish_disk hwf process amount
        · next hash htask => exact remove_disk htask
        · next htask =>
          rw [inspect_disk]
          exact .same _

/-! ## What every state keeps -/

/-- Directories above the final paths, and complete files at them. -/
structure DiskSound (digest : Bytes → BlobHash) (d : BlobDisk) : Prop where
  wellFormed : d.seen.WellFormed
  root : d.stored [] = some .dir
  placed : ∀ path entry, d.Has path entry → path.length < 4 ∧ entry = .dir ∨
    ∃ hash file, path = blobPath hash ∧ entry = .file file ∧ file.synced = true ∧ digest file.bytes = hash

/-- A put writes the bytes of its hash, and its blob is in place from its link to its deletion. -/
def Task.Sound (digest : Bytes → BlobHash) (d : BlobDisk) : Task → Prop
  | .making (.publish hash bytes) _ _ | .checking hash bytes | .creating hash bytes => digest bytes = hash
  | .writing hash bytes temporary => digest bytes = hash ∧ temporary.bytes <+: bytes
  | .linking hash bytes temporary => digest bytes = hash ∧ temporary.bytes <+: bytes ∧ temporary.synced = true
  | .syncing hash _ deleted => deleted = false → (d.seen (blobPath hash)).isSome = true
  | _ => True

structure Sound (digest : Bytes → BlobHash) (w : World) : Prop where
  disk : DiskSound digest w.disk
  tasks : ∀ process, (w.tasks process).Sound digest w.disk

theorem DiskSound.file {d : BlobDisk} (h : DiskSound digest d) {entry : Entry StoredFile}
    (hentry : d.Has (blobPath hash) entry) : ∃ file : StoredFile, entry = .file file ∧ digest file.bytes = hash := by
  rcases h.placed _ entry hentry with ⟨hlength,-⟩ | ⟨found,file,hpath,rfl,-,hdigest⟩
  · rw [length_blobPath] at hlength
    omega
  · rw [blobPath_injective hpath]
    exact ⟨file,rfl,hdigest⟩

theorem diskSound_empty (digest : Bytes → BlobHash) : DiskSound digest .empty := by
  have hempty : ∀ path entry, (FileTree.empty : FileTree String StoredFile) path = some entry →
      path = [] ∧ entry = .dir := by
    intro path entry h
    rw [FileTree.empty] at h
    split at h
    · next hpath => exact ⟨hpath,(Option.some.inj h).symm⟩
    · cases h
  refine ⟨⟨rfl,?_⟩,rfl,?_⟩
  · intro path name hsome
    obtain ⟨entry,hentry⟩ := Option.isSome_iff_exists.mp hsome
    exact absurd (hempty _ entry hentry).1 (by simp)
  · rintro path entry (h | h)
    · obtain ⟨rfl,rfl⟩ := hempty path entry h
      exact Or.inl ⟨by decide,rfl⟩
    · obtain ⟨rfl,rfl⟩ := hempty path entry h
      exact Or.inl ⟨by decide,rfl⟩

theorem DiskSound.crash {d : BlobDisk} (h : DiskSound digest d) (keep : BlobPath → Bool) (torn : BlobPath → Bytes) :
    DiskSound digest (d.crash keep (fun path => StoredFile.tear (torn path))) := by
  have hwf : (d.crash keep (fun path => StoredFile.tear (torn path))).seen.WellFormed := by
    refine Disk.crash_wellFormed ⟨h.wellFormed.root,h.root⟩ ?_
    rintro path name entry ⟨below,hbelow⟩ hentry
    have hshort : (path ++ [name]).length ≤ 4 := by
      rcases h.placed _ below hbelow with ⟨hlength,-⟩ | ⟨found,_,hpath,-⟩
      · omega
      · rw [hpath,length_blobPath]
    rw [List.length_append,List.length_singleton] at hshort
    rcases h.placed path entry hentry with ⟨-,hdir⟩ | ⟨found,_,rfl,-⟩
    · exact hdir
    · rw [length_blobPath] at hshort
      omega
  refine ⟨hwf,hwf.root,?_⟩
  intro path entry hentry
  obtain ⟨old,hold,rfl⟩ := hentry.of_crash
  rcases h.placed path old hold with ⟨hlength,rfl⟩ | ⟨found,file,hpath,rfl,hsynced,hdigest⟩
  · exact Or.inl ⟨hlength,rfl⟩
  · refine Or.inr ⟨found,file,hpath,?_,hsynced,hdigest⟩
    simp [Entry.tear,StoredFile.tear,hsynced]

theorem Sound.diskStep (h : Sound digest w) {d : BlobDisk} (hstep : DiskStep w label d) : DiskSound digest d := by
  cases hstep with
  | same => exact h.disk
  | made process amount path name hlength hdir hnone =>
    refine ⟨h.disk.wellFormed.grow hdir hnone,h.disk.root,?_⟩
    intro other entry hentry
    rcases hentry.of_grow with hold | ⟨rfl,rfl⟩
    · exact h.disk.placed other entry hold
    · exact Or.inl ⟨hlength,rfl⟩
  | linked process amount hash bytes temporary htask hlength hdir hnone =>
    refine ⟨h.disk.wellFormed.grow hdir hnone,h.disk.root,?_⟩
    intro other entry hentry
    rcases hentry.of_grow with hold | ⟨rfl,rfl⟩
    · exact h.disk.placed other entry hold
    · have hsound := h.tasks process
      rw [htask] at hsound
      obtain ⟨hdigest,hinit,hsynced⟩ := hsound
      refine Or.inr ⟨hash,temporary,rfl,rfl,hsynced,?_⟩
      rw [hinit.eq_of_length hlength]
      exact hdigest
  | synced process amount hash size deleted htask =>
    refine ⟨h.disk.wellFormed,?_,fun other entry hentry => h.disk.placed other entry hentry.of_sync⟩
    rw [Disk.syncDirectory]
    exact h.disk.root
  | removed process amount hash file htask hfile =>
    exact ⟨h.disk.wellFormed.remove hfile,h.disk.root,
      fun other entry hentry => h.disk.placed other entry hentry.of_unlink⟩
  | crashed keep torn => exact h.disk.crash keep torn

theorem Task.Sound.mono {task : Task} {d d' : BlobDisk} (h : task.Sound digest d)
    (hseen : ∀ path, (d.seen path).isSome = true → (d'.seen path).isSome = true) : task.Sound digest d' := by
  cases task with
  | syncing hash size deleted => exact fun hdeleted => hseen _ (h hdeleted)
  | making goal depth climbing => cases goal <;> exact h
  | _ => exact h

def World.Moves (digest : Bytes → BlobHash) (w w' : World) (process : ℕ) : Prop :=
  ∃ task : Task, w'.tasks = Function.update w.tasks process task ∧ task.Sound digest w'.disk

theorem moves_answer (w : World) (process : ℕ) (answer : Answer) :
    World.Moves digest w (w.answer process answer) process := ⟨.finished answer,rfl,trivial⟩

theorem make_moves {goal : Goal} {depth : ℕ} {climbing : Bool}
    (h : (Task.making goal depth climbing).Sound digest w.disk) :
    World.Moves digest w (w.make process goal depth climbing) process := by
  have hmade : ∀ d : BlobDisk, (goal.made depth).Sound digest d := by
    intro d
    cases goal with
    | opening =>
      rw [Goal.made]
      split <;> trivial
    | publish hash bytes =>
      rw [Goal.made]
      split <;> exact h
  rw [World.make]
  split
  · exact ⟨goal.made depth,rfl,hmade _⟩
  · split
    · exact ⟨.making goal (depth - 1) true,rfl,by cases goal <;> exact h⟩
    · split
      · exact ⟨goal.made depth,rfl,hmade _⟩
      · exact moves_answer w process _

theorem publish_moves (hwf : w.disk.seen.WellFormed) (amount : ℕ) (h : (w.tasks process).Sound digest w.disk) :
    World.Moves digest w (w.publish digest process amount (w.tasks process)) process := by
  cases htask : w.tasks process with
  | creating hash bytes =>
    rw [htask] at h
    rw [World.publish]
    split
    · exact ⟨.writing hash bytes ⟨[],false⟩,rfl,h,List.nil_prefix⟩
    · exact moves_answer w process _
  | writing hash bytes temporary =>
    rw [htask] at h
    obtain ⟨hdigest,rest,rfl⟩ := h
    rw [World.publish]
    split
    · refine ⟨_,rfl,hdigest,?_⟩
      rw [List.drop_left]
      exact (List.prefix_append_right_inj _).mpr (List.take_prefix ..)
    · exact ⟨_,rfl,hdigest,List.prefix_append _ _,rfl⟩
  | linking hash bytes temporary =>
    rw [World.publish]
    split
    · split
      · next disk hlink =>
        obtain ⟨-,-,rfl⟩ := link_made hwf hlink
        refine ⟨.syncing hash bytes.length false,rfl,fun _ => ?_⟩
        dsimp only
        rw [Function.update_self]
        rfl
      · exact ⟨.verifying hash bytes.length,rfl,trivial⟩
      · exact moves_answer w process _
    · exact moves_answer w process _
  | syncing hash size deleted =>
    rw [World.publish]
    split <;> exact ⟨.finished (.put (.ok ⟨hash,size,.stored⟩)),rfl,trivial⟩
  | _ => exact ⟨w.tasks process,(Function.update_eq_self process w.tasks).symm,h⟩

theorem inspect_moves (mode : IntegrityMode) (h : (w.tasks process).Sound digest w.disk) :
    World.Moves digest w (w.inspect digest mode process (w.tasks process)) process := by
  have hstay : World.Moves digest w w process :=
    ⟨w.tasks process,(Function.update_eq_self process w.tasks).symm,h⟩
  cases htask : w.tasks process with
  | requiring =>
    rw [World.inspect]
    split <;> exact moves_answer w process _
  | checking hash bytes =>
    rw [htask] at h
    rw [World.inspect]
    split
    · exact ⟨.verifying hash bytes.length,rfl,trivial⟩
    · exact moves_answer w process _
    · exact ⟨_,rfl,h⟩
  | verifying hash size =>
    rw [World.inspect]
    split
    · exact ⟨_,rfl,trivial⟩
    · exact moves_answer w process _
  | reading hash size length =>
    rw [World.inspect]
    split
    · exact moves_answer w process _
    · split
      · exact ⟨.finished (.put (.ok ⟨hash,size,.alreadyPresent⟩)),rfl,trivial⟩
      · exact moves_answer w process _
  | getting hash =>
    rw [World.inspect]
    split
    · exact ⟨_,rfl,trivial⟩
    · exact moves_answer w process _
  | fetching hash length =>
    rw [World.inspect]
    split
    · exact moves_answer w process _
    · split <;> exact moves_answer w process _
  | existing hash =>
    rw [World.inspect]
    split <;> exact moves_answer w process _
  | deleting hash =>
    rw [World.inspect]
    split
    · exact moves_answer w process _
    · exact moves_answer w process _
    · exact ⟨_,rfl,trivial⟩
  | _ => exact hstay

theorem advance_moves (mode : IntegrityMode) (hwf : w.disk.seen.WellFormed) (amount : ℕ)
    (hremoving : ∀ hash, w.tasks process ≠ .removing hash) (h : (w.tasks process).Sound digest w.disk) :
    World.Moves digest w (w.advance digest mode process amount) process := by
  rw [World.advance]
  split
  · next htask => exact make_moves (htask ▸ h)
  · next htask => exact htask ▸ publish_moves hwf amount h
  · next htask => exact htask ▸ publish_moves hwf amount h
  · next htask => exact htask ▸ publish_moves hwf amount h
  · next htask => exact htask ▸ publish_moves hwf amount h
  · next hash htask => exact absurd htask (hremoving hash)
  · exact inspect_moves mode h

theorem DiskStep.grows {fault : Bool} {amount : ℕ} {d : BlobDisk} (h : DiskStep w (.step process fault amount) d)
    (hremoving : ∀ hash, w.tasks process ≠ .removing hash) (path : BlobPath)
    (hseen : (w.disk.seen path).isSome = true) : (d.seen path).isSome = true := by
  have hgrow : ∀ (new : BlobPath) (entry : Entry StoredFile),
      (Function.update w.disk.seen new (some entry) path).isSome = true := by
    intro new entry
    rw [Function.update_apply]
    split
    · rfl
    · exact hseen
  cases h with
  | same => exact hseen
  | made => exact hgrow _ _
  | linked => exact hgrow _ _
  | synced => exact hseen
  | removed _ _ hash file htask => exact absurd htask (hremoving hash)

theorem Task.Sound.forget {task : Task} {d : BlobDisk} (h : task.Sound digest d) (gone : BlobHash) :
    (task.forget gone).Sound digest (d.unlink (blobPath gone)) := by
  cases task with
  | syncing hash size deleted =>
    intro hdeleted
    simp only [Bool.or_eq_false_iff,beq_eq_false_iff_ne] at hdeleted
    rw [Disk.unlink]
    dsimp only
    rw [Function.update_of_ne]
    · exact h hdeleted.1
    · exact fun hpath => hdeleted.2 (blobPath_injective hpath)
  | making goal depth climbing => cases goal <;> exact h
  | _ => exact h

theorem Operation.sound (operation : Operation) (d : BlobDisk) : (operation.task digest).Sound digest d := by
  cases operation with
  | putVerified expected bytes =>
    rw [Operation.task]
    split
    · assumption
    · trivial
  | put bytes => exact rfl
  | _ => trivial

theorem Sound.setTask (h : Sound digest w) {task : Task} (htask : task.Sound digest w.disk) :
    Sound digest (w.setTask process task) := by
  refine ⟨h.disk,?_⟩
  intro other
  change (Function.update w.tasks process task other).Sound digest w.disk
  rw [Function.update_apply]
  split
  · exact htask
  · exact h.tasks other

theorem Sound.answer (h : Sound digest w) (process : ℕ) (answer : Answer) :
    Sound digest (w.answer process answer) := h.setTask trivial

theorem Sound.step (h : Sound digest w) (mode : IntegrityMode) (label : Label) :
    Sound digest (w.step digest mode label) := by
  have hdisk := h.diskStep (step_disk digest mode h.disk.wellFormed label)
  cases label with
  | call process operation =>
    rw [World.step]
    split
    · exact h.setTask (operation.sound _)
    · exact h
  | kill process => exact h.setTask trivial
  | crash keep torn => exact ⟨hdisk,fun _ => trivial⟩
  | step process fault amount =>
    have hstep := step_disk digest mode h.disk.wellFormed (.step process fault amount)
    refine ⟨hdisk,?_⟩
    rw [World.step] at hdisk hstep ⊢
    split at hdisk
    · next hfault =>
      rw [if_pos hfault]
      exact (h.answer process _).tasks
    · next hfault =>
      rw [if_neg hfault] at hstep ⊢
      intro other
      by_cases hremoving : ∃ hash, w.tasks process = .removing hash
      · obtain ⟨hash,htask⟩ := hremoving
        rw [World.advance,htask]
        dsimp only
        rw [World.remove]
        split
        · change (Function.update (fun o => (w.tasks o).forget hash) process
            (.finished (.deleted (.ok .deleted))) other).Sound digest (w.disk.unlink (blobPath hash))
          rw [Function.update_apply]
          split
          · trivial
          · exact (h.tasks other).forget hash
        · exact (h.answer process _).tasks other
      · have hnone : ∀ hash, w.tasks process ≠ .removing hash := fun hash htask => hremoving ⟨hash,htask⟩
        obtain ⟨task,htasks,hsound⟩ := advance_moves mode h.disk.wellFormed amount hnone (h.tasks process)
        rw [htasks,Function.update_apply]
        split
        · exact hsound
        · exact (h.tasks other).mono (hstep.grows hnone)

theorem sound_start (digest : Bytes → BlobHash) : Sound digest .start :=
  ⟨diskSound_empty digest,fun _ => trivial⟩

/-! ## Reports -/

def Reports (digest : Bytes → BlobHash) (w : World) (label : Label) (hash : BlobHash) : Prop :=
  ∃ process amount, label = .step process false amount ∧ ((∃ size, w.tasks process = .syncing hash size false) ∨
    ∃ size length data, w.tasks process = .reading hash size length ∧ readFile w.disk hash = some data ∧
      verifies digest hash size length data = true)

theorem publish_reported (amount : ℕ) (h : (w.publish digest process amount (w.tasks process)).reported hash = true) :
    w.reported hash = true ∨ ∃ size, w.tasks process = .syncing hash size false := by
  cases htask : w.tasks process with
  | creating found bytes =>
    rw [htask,World.publish] at h
    split at h <;> exact Or.inl h
  | writing found bytes temporary =>
    rw [htask,World.publish] at h
    split at h <;> exact Or.inl h
  | linking found bytes temporary =>
    rw [htask,World.publish] at h
    split at h
    · split at h <;> exact Or.inl h
    · exact Or.inl h
  | syncing found size deleted =>
    rw [htask,World.publish] at h
    split at h
    · exact Or.inl h
    · next hdeleted =>
      change Function.update w.reported found true hash = true at h
      rw [Function.update_apply] at h
      split at h
      · next hhash =>
        refine Or.inr ⟨size,?_⟩
        rw [hhash,Bool.not_eq_true _ |>.mp hdeleted]
      · exact Or.inl h
  | _ =>
    rw [htask] at h
    exact Or.inl h

theorem inspect_quiet {task : Task} (htask : ∀ hash size length, task ≠ .reading hash size length) :
    (w.inspect digest mode process task).reported = w.reported := by
  unfold World.inspect
  repeat' split
  all_goals first | rfl | exact absurd rfl (htask _ _ _)

theorem inspect_reported (mode : IntegrityMode) (h : (w.inspect digest mode process (w.tasks process)).reported hash = true) :
    w.reported hash = true ∨ ∃ size length data, w.tasks process = .reading hash size length ∧
      readFile w.disk hash = some data ∧ verifies digest hash size length data = true := by
  cases htask : w.tasks process with
  | reading found size length =>
    rw [htask,World.inspect] at h
    split at h
    · exact Or.inl h
    · next data hdata =>
      split at h
      · next hverifies =>
        change Function.update w.reported found true hash = true at h
        rw [Function.update_apply] at h
        split at h
        · next hhash =>
          subst hhash
          exact Or.inr ⟨size,length,data,rfl,hdata,hverifies⟩
        · exact Or.inl h
      · exact Or.inl h
  | _ =>
    rw [inspect_quiet (by rw [htask]; simp)] at h
    exact Or.inl h

theorem make_reported (w : World) (process : ℕ) (goal : Goal) (depth : ℕ) (climbing : Bool) :
    (w.make process goal depth climbing).reported = w.reported := by
  rw [World.make]
  split
  · rfl
  · split
    · rfl
    · split <;> rfl

theorem step_reported (h : (w.step digest mode label).reported hash = true) :
    w.reported hash = true ∧ (∀ process amount, label = .step process false amount →
      w.tasks process = .removing hash → ∀ file, w.disk.seen (blobPath hash) ≠ some (.file file)) ∨
    Reports digest w label hash := by
  cases label with
  | call process operation =>
    rw [World.step] at h
    refine Or.inl ⟨?_,by simp⟩
    split at h <;> exact h
  | kill process => exact Or.inl ⟨h,by simp⟩
  | crash keep torn => exact Or.inl ⟨h,by simp⟩
  | step process fault amount =>
    cases fault with
    | true =>
      refine Or.inl ⟨?_,by simp⟩
      rw [World.step] at h
      split at h
      · exact h
      · next hfault =>
        have hover : (w.tasks process).isOver = true := by simpa using hfault
        rw [World.advance] at h
        cases htask : w.tasks process with
        | idle =>
          rw [htask] at h
          exact h
        | finished answer =>
          rw [htask] at h
          exact h
        | _ =>
          rw [htask] at hover
          cases hover
    | false =>
      have hstay : ∀ task : Task, w.tasks process = task → (∀ found, task ≠ .removing found) →
          ∀ other amount', (.step process false amount : Label) = .step other false amount' →
            w.tasks other = .removing hash → ∀ file, w.disk.seen (blobPath hash) ≠ some (.file file) := by
        rintro task htask hremoving other amount' hlabel hother
        cases hlabel
        exact absurd (htask.symm.trans hother) (hremoving hash)
      rw [World.step,if_neg (by simp),World.advance] at h
      split at h
      · next htask =>
        rw [make_reported] at h
        exact Or.inl ⟨h,hstay _ htask (by simp)⟩
      · next htask =>
        rw [← htask] at h
        refine (publish_reported amount h).imp (fun hold => ⟨hold,hstay _ htask (by simp)⟩) ?_
        exact fun hsyncing => ⟨process,amount,rfl,Or.inl hsyncing⟩
      · next htask =>
        rw [← htask] at h
        refine (publish_reported amount h).imp (fun hold => ⟨hold,hstay _ htask (by simp)⟩) ?_
        exact fun hsyncing => ⟨process,amount,rfl,Or.inl hsyncing⟩
      · next htask =>
        rw [← htask] at h
        refine (publish_reported amount h).imp (fun hold => ⟨hold,hstay _ htask (by simp)⟩) ?_
        exact fun hsyncing => ⟨process,amount,rfl,Or.inl hsyncing⟩
      · next htask =>
        rw [← htask] at h
        refine (publish_reported amount h).imp (fun hold => ⟨hold,hstay _ htask (by simp)⟩) ?_
        exact fun hsyncing => ⟨process,amount,rfl,Or.inl hsyncing⟩
      · next found htask =>
        left
        rw [World.remove] at h
        split at h
        · next file hfile =>
          change Function.update w.reported found false hash = true at h
          rw [Function.update_apply] at h
          split at h
          · cases h
          · next hother =>
            refine ⟨h,?_⟩
            rintro other amount' hlabel hremoving
            cases hlabel
            rw [htask] at hremoving
            exact absurd (Task.removing.inj hremoving).symm hother
        · next hnone =>
          refine ⟨h,?_⟩
          rintro other amount' hlabel hremoving file hfile
          cases hlabel
          rw [htask] at hremoving
          cases hremoving
          exact hnone file hfile
      · next hquiet =>
        refine (inspect_reported mode h).imp (fun hold => ⟨hold,?_⟩) ?_
        · exact hstay _ rfl hquiet
        · exact fun hreading => ⟨process,amount,rfl,Or.inr hreading⟩

theorem Reports.reported (h : Reports digest w label hash) (mode : IntegrityMode) :
    (w.step digest mode label).reported hash = true := by
  obtain ⟨process,amount,rfl,⟨size,htask⟩ | ⟨size,length,data,htask,hdata,hverifies⟩⟩ := h
  · rw [World.step,if_neg (by simp),World.advance,htask]
    exact Function.update_self ..
  · rw [World.step,if_neg (by simp),World.advance,htask]
    dsimp only
    rw [World.inspect,hdata]
    dsimp only
    rw [if_pos hverifies]
    exact Function.update_self ..

/-! ## What lasts -/

theorem DiskStep.lasting {d : BlobDisk} (h : DiskStep w label d) (hlasting : w.disk.Lasting (blobPath hash))
    (hkept : ∀ process amount, label = .step process false amount → w.tasks process = .removing hash →
      ∀ file, w.disk.seen (blobPath hash) ≠ some (.file file)) : d.Lasting (blobPath hash) := by
  cases h with
  | same => exact hlasting
  | made => exact hlasting.grow
  | linked => exact hlasting.grow
  | synced process amount found => exact hlasting.syncDirectory (shard found)
  | removed process amount gone file htask hfile =>
    refine hlasting.unlink ?_
    intro hinit
    have hsame := blobPath_prefix hinit
    subst hsame
    exact hkept process amount rfl htask file hfile
  | crashed keep torn => exact hlasting.crash keep _

theorem Reports.lasting (h : Reports digest w label hash) (hsound : Sound digest w) (mode : IntegrityMode)
    (hsettled : w.settled digest label) : (w.step digest mode label).disk.Lasting (blobPath hash) := by
  have habove : ∀ entry, w.disk.seen (blobPath hash) = some entry →
      ∀ other, other <+: blobPath hash → (w.disk.seen other).isSome = true := by
    intro entry hentry other hother
    by_cases hself : other = blobPath hash
    · rw [hself,hentry]
      rfl
    · rw [hsound.disk.wellFormed.above hother hself (by rw [hentry]; rfl)]
      rfl
  obtain ⟨process,amount,rfl,⟨size,htask⟩ | ⟨size,length,data,htask,hdata,hverifies⟩⟩ := h
  · have hplace := hsound.tasks process
    rw [htask] at hplace
    obtain ⟨entry,hentry⟩ := Option.isSome_iff_exists.mp (hplace rfl)
    rw [World.step,if_neg (by simp),World.advance,htask]
    exact Disk.lasting_of_sync (habove entry hentry) (hsettled.1 hash size htask)
  · have hstored := hsettled.2 hash size length data htask hdata hverifies
    have hentry : ∃ entry, w.disk.seen (blobPath hash) = some entry := by
      rw [readFile] at hdata
      split at hdata
      · next file hfile => exact ⟨_,hfile⟩
      · cases hdata
    obtain ⟨entry,hentry⟩ := hentry
    rw [World.step,if_neg (by simp),World.advance,htask]
    dsimp only
    rw [inspect_disk]
    exact fun other hother => ⟨habove entry hentry other hother,hstored other hother⟩

/-- What a put has reported lasts until a delete removes it. -/
structure Kept (digest : Bytes → BlobHash) (w : World) : Prop where
  sound : Sound digest w
  lasting : ∀ hash, w.reported hash = true → w.disk.Lasting (blobPath hash)

theorem Kept.step (h : Kept digest w) (mode : IntegrityMode) (hsettled : w.settled digest label) :
    Kept digest (w.step digest mode label) := by
  refine ⟨h.sound.step mode label,?_⟩
  intro hash hreported
  rcases step_reported hreported with ⟨hold,hkept⟩ | hreports
  · exact (step_disk digest mode h.sound.disk.wellFormed label).lasting (h.lasting hash hold) hkept
  · exact hreports.lasting h.sound mode hsettled

theorem settled_of_lasting (mode : IntegrityMode) (hsafe : ∀ hash, (w.step digest mode label).reported hash = true →
      ∀ above, above <+: blobPath hash → ((w.step digest mode label).disk.stored above).isSome = true) :
    w.settled digest label := by
  cases label with
  | step process fault amount =>
    cases fault with
    | true => trivial
    | false =>
      refine ⟨?_,?_⟩
      · intro hash size htask above habove
        have hreports : Reports digest w (.step process false amount) hash :=
          ⟨process,amount,rfl,Or.inl ⟨size,htask⟩⟩
        have hstored := hsafe hash (hreports.reported mode) above (habove.trans (List.prefix_append _ _))
        rw [World.step,if_neg (by simp),World.advance,htask] at hstored
        change ((w.disk.syncDirectory (shard hash)).stored above).isSome = true at hstored
        rw [Disk.stored_syncDirectory habove] at hstored
        exact hstored
      · intro hash size length data htask hdata hverifies above habove
        have hreports : Reports digest w (.step process false amount) hash :=
          ⟨process,amount,rfl,Or.inr ⟨size,length,data,htask,hdata,hverifies⟩⟩
        have hstored := hsafe hash (hreports.reported mode) above habove
        rw [World.step,if_neg (by simp),World.advance,htask] at hstored
        dsimp only at hstored
        rw [inspect_disk] at hstored
        exact hstored
  | _ => trivial

/-! ## Other blobs -/

theorem DiskStep.apart {fault : Bool} {amount : ℕ} {d : BlobDisk} (h : DiskStep w (.step process fault amount) d)
    (hput : (w.tasks process).putOf = some hash) (hother : other ≠ hash) :
    d.seen (blobPath other) = w.disk.seen (blobPath other) := by
  cases h with
  | same => rfl
  | made _ _ path name hlength =>
    refine Function.update_of_ne ?_ ..
    rintro hpath
    rw [← hpath,length_blobPath] at hlength
    omega
  | linked _ _ found bytes temporary htask =>
    rw [htask] at hput
    cases hput
    exact Function.update_of_ne (fun hpath => hother (blobPath_injective hpath)) ..
  | synced => rfl
  | removed _ _ found file htask =>
    rw [htask] at hput
    cases hput

theorem Sound.apart (h : Sound digest w) (mode : IntegrityMode) (label : Label) : Apart digest mode w label := by
  rintro process fault amount rfl hash hput
  have hstep := step_disk digest mode h.disk.wellFormed (.step process fault amount)
  refine ⟨fun other hother => hstep.apart hput hother,?_⟩
  intro other hother
  have hremoving : ∀ found, w.tasks process ≠ .removing found := by
    intro found htask
    rw [htask] at hput
    cases hput
  rw [World.step]
  split
  · exact Function.update_of_ne hother ..
  · obtain ⟨task,htasks,-⟩ := advance_moves mode h.disk.wellFormed amount hremoving (h.tasks process)
    rw [htasks]
    exact Function.update_of_ne hother ..

/-- A store keeps its promises in the runs whose puts report settled blobs only, and in no others. -/
theorem blobs_crash_safe_iff (digest : Bytes → BlobHash) (mode : IntegrityMode) (ops : List Label) :
    BlobContract digest mode .start ops ↔
      Along (World.step digest mode) (World.settled digest) .start ops := by
  constructor
  · intro h
    rw [along_iff]
    rintro pre label post rfl
    refine settled_of_lasting mode ?_
    intro hash hreported
    rw [← run_concat (World.step digest mode) .start pre label] at hreported ⊢
    have hlasting := h.lasting (pre ++ [label]) post (by simp) (fun _ => false) (fun _ => []) hash hreported
    exact Disk.stored_of_crash hlasting
  · intro h
    have hsound : ∀ pre, Sound digest (run (World.step digest mode) .start pre) := fun pre =>
      run_invariant (Sound digest) (fun w label hw => hw.step mode label) (sound_start digest) pre
    refine ⟨?_,?_,?_⟩
    · rintro pre post rfl keep torn hash entry (hentry | hentry)
      · exact (hsound pre).disk.file (Or.inl hentry)
      · exact ((hsound pre).step mode (.crash keep torn)).disk.file (Or.inl hentry)
    · rintro pre post rfl keep torn hash hreported
      have hkept : Kept digest (run (World.step digest mode) .start pre) :=
        (along_append.mp h).1.invariant (Kept digest) (fun w label hw hsettled => hw.step mode hsettled)
          ⟨sound_start digest,fun _ hstart => by cases hstart⟩
      exact ((hkept.lasting hash hreported).crash keep _ _ List.prefix_rfl).1
    · have hall : Along (World.step digest mode) (fun _ _ => True) .start ops :=
        along_of_forall (fun _ _ _ => trivial) _
      exact hall.of_invariant (Sound digest) (fun w label hw _ => hw.step mode label)
        (fun w label hw _ => hw.apart mode label) (sound_start digest)

/-! ## The first put of an empty root -/

/-- A digest that tells the empty contents from all others. -/
def sampleDigest (bytes : Bytes) : BlobHash :=
  if bytes = [] then ⟨"00000000000000000000000000000000000000000000000000000000000000aa",by decide⟩
  else ⟨"00000000000000000000000000000000000000000000000000000000000000bb",by decide⟩

/-- A put of two bytes: three directories, the temporary file, its sync, the link and the sync of the shard. -/
def samplePut : List Label := .call 0 (.put [1,2]) :: List.replicate 11 (.step 0 false 1)

/-- Nobody has synced the directories above the shard. -/
theorem first_put_lost : ¬BlobContract sampleDigest .verifyOnRead .start samplePut := by
  intro h
  have hreported : (run (World.step sampleDigest .verifyOnRead) .start samplePut).reported (sampleDigest [1,2]) = true := by
    decide +kernel
  have hlost : (((run (World.step sampleDigest .verifyOnRead) .start samplePut).step sampleDigest .verifyOnRead
      (.crash (fun _ => false) (fun _ => []))).disk.seen (blobPath (sampleDigest [1,2]))).isSome = false := by
    decide +kernel
  have hthere := h.lasting samplePut [] (List.append_nil _).symm (fun _ => false) (fun _ => []) _ hreported
  rw [hlost] at hthere
  cases hthere

end LatexCore.Blobs
