import LatexCore.Foundation.FileTree

/-! # Disks that crash

A tree of entries as the processes see it, and as the disk has stored it. A
directory is stored with the entries it has when it is synced; at a crash every
other change is kept or lost, each entry for itself, and with an entry all that
lies below it. An entry lasts when it and the directories above it are seen and
stored.
-/
namespace LatexCore.Foundation
variable {ν β : Type}

structure Disk (ν β : Type) where
  seen : FileTree ν β
  stored : FileTree ν β

def Entry.tear (f : β → β) : Entry β → Entry β
  | .dir => .dir
  | .file contents => .file (f contents)

namespace Disk

/-- The version of an entry that a crash leaves. -/
def survivor (d : Disk ν β) (keep : List ν → Bool) (path : List ν) : Option (Entry β) :=
  if keep path then d.seen path else d.stored path

/-- The tree that a crash leaves. -/
def remains (d : Disk ν β) (keep : List ν → Bool) (tear : List ν → β → β) : FileTree ν β := fun path =>
  if path.inits.all (fun other => (d.survivor keep other).isSome)
    then (d.survivor keep path).map (Entry.tear (tear path)) else none

def crash (d : Disk ν β) (keep : List ν → Bool) (tear : List ν → β → β) : Disk ν β :=
  ⟨d.remains keep tear,d.remains keep tear⟩

def Has (d : Disk ν β) (path : List ν) (entry : Entry β) : Prop :=
  d.seen path = some entry ∨ d.stored path = some entry

/-- The entry and the directories above it are seen and stored. -/
def Lasting (d : Disk ν β) (path : List ν) : Prop :=
  ∀ other, other <+: path → (d.seen other).isSome = true ∧ (d.stored other).isSome = true

variable {d : Disk ν β} {path other : List ν} {entry : Entry β} {keep : List ν → Bool}
  {tear : List ν → β → β}

theorem survivor_has (h : d.survivor keep path = some entry) : d.Has path entry := by
  rw [survivor] at h
  split at h
  · exact Or.inl h
  · exact Or.inr h

theorem remains_some (h : d.remains keep tear path = some entry) :
    (∃ old, d.Has path old ∧ entry = old.tear (tear path)) ∧
      ∀ above, above <+: path → (d.survivor keep above).isSome = true := by
  rw [remains] at h
  split at h
  · next hall =>
    obtain ⟨old,hold,rfl⟩ := Option.map_eq_some_iff.mp h
    rw [List.all_eq_true] at hall
    exact ⟨⟨old,survivor_has hold,rfl⟩,fun above habove => hall above ((List.mem_inits _ _).mpr habove)⟩
  · cases h

theorem remains_isSome : (d.remains keep tear path).isSome = true ↔
    ∀ above, above <+: path → (d.survivor keep above).isSome = true := by
  constructor
  · intro h
    obtain ⟨entry,hentry⟩ := Option.isSome_iff_exists.mp h
    exact (remains_some hentry).2
  · intro h
    have hall : path.inits.all (fun other => (d.survivor keep other).isSome) = true := by
      rw [List.all_eq_true]
      exact fun above habove => h above ((List.mem_inits _ _).mp habove)
    rw [remains,if_pos hall,Option.isSome_map]
    exact h path List.prefix_rfl

theorem Lasting.survivor (h : d.Lasting path) (hinit : other <+: path) (keep : List ν → Bool) :
    (d.survivor keep other).isSome = true := by
  rw [Disk.survivor]
  split
  · exact (h other hinit).1
  · exact (h other hinit).2

theorem Lasting.crash (h : d.Lasting path) (keep : List ν → Bool) (tear : List ν → β → β) :
    (d.crash keep tear).Lasting path := by
  intro other hother
  have hsome : (d.remains keep tear other).isSome = true := by
    rw [remains_isSome]
    intro above habove
    exact h.survivor (habove.trans hother) keep
  exact ⟨hsome,hsome⟩

theorem stored_of_crash (h : ((d.crash (fun _ => false) tear).seen path).isSome = true) :
    ∀ above, above <+: path → (d.stored above).isSome = true := remains_isSome.mp h

theorem crash_wellFormed (hroot : d.seen [] = some .dir ∧ d.stored [] = some .dir)
    (hdirs : ∀ path name entry, (∃ below, d.Has (path ++ [name]) below) → d.Has path entry → entry = .dir) :
    (d.crash keep tear).seen.WellFormed := by
  constructor
  · have hsurvivor : d.survivor keep [] = some .dir := by
      rw [survivor,hroot.1,hroot.2,ite_self]
    change d.remains keep tear [] = some .dir
    rw [remains,if_pos (by simp [hsurvivor]),hsurvivor]
    rfl
  · intro path name hsome
    obtain ⟨entry,hentry⟩ := Option.isSome_iff_exists.mp hsome
    obtain ⟨⟨old,hold,-⟩,habove⟩ := remains_some hentry
    have hthere : (d.remains keep tear path).isSome = true :=
      remains_isSome.mpr (fun above h => habove above (h.trans (List.prefix_append _ _)))
    obtain ⟨kept,hkept⟩ := Option.isSome_iff_exists.mp hthere
    obtain ⟨⟨above,hhas,rfl⟩,-⟩ := remains_some hkept
    have hdir := hdirs path name above ⟨old,hold⟩ hhas
    rw [hdir] at hkept
    exact hkept

/-! ## Changes -/

variable [DecidableEq ν]

def mkdir (d : Disk ν β) (path : List ν) : Except IoError (Disk ν β) :=
  (d.seen.mkdir path).map (fun seen => { d with seen := seen })

/-- A new entry for a file that is complete, by a link or a renaming that replaces nothing. -/
def link (d : Disk ν β) (path : List ν) (contents : β) : Except IoError (Disk ν β) :=
  (d.seen.createNew path contents).map (fun seen => { d with seen := seen })

def unlink (d : Disk ν β) (path : List ν) : Disk ν β := { d with seen := Function.update d.seen path none }

def syncDirectory (d : Disk ν β) (directory : List ν) : Disk ν β :=
  { d with stored := fun path => if path ≠ [] ∧ path.dropLast = directory then d.seen path else d.stored path }

def empty : Disk ν β := ⟨.empty,.empty⟩

theorem Lasting.grow (h : d.Lasting path) {new : List ν} :
    Lasting { d with seen := Function.update d.seen new (some entry) } path := by
  intro other hother
  refine ⟨?_,(h other hother).2⟩
  dsimp only
  rw [Function.update_apply]
  split
  · rfl
  · exact (h other hother).1

theorem Lasting.unlink (h : d.Lasting path) {gone : List ν} (hgone : ¬gone <+: path) :
    (d.unlink gone).Lasting path := by
  intro other hother
  refine ⟨?_,(h other hother).2⟩
  rw [Disk.unlink]
  dsimp only
  rw [Function.update_of_ne]
  · exact (h other hother).1
  · rintro rfl
    exact hgone hother

theorem Lasting.syncDirectory (h : d.Lasting path) (directory : List ν) :
    (d.syncDirectory directory).Lasting path := by
  intro other hother
  refine ⟨(h other hother).1,?_⟩
  rw [Disk.syncDirectory]
  dsimp only
  split
  · exact (h other hother).1
  · exact (h other hother).2

theorem lasting_of_sync {name : ν} {directory : List ν}
    (hseen : ∀ other, other <+: directory ++ [name] → (d.seen other).isSome = true)
    (hstored : ∀ other, other <+: directory → (d.stored other).isSome = true) :
    (d.syncDirectory directory).Lasting (directory ++ [name]) := by
  intro other hother
  refine ⟨hseen other hother,?_⟩
  rw [syncDirectory]
  dsimp only
  split
  · exact hseen other hother
  · next hne =>
    refine hstored other ?_
    rcases List.prefix_concat_iff.mp hother with rfl | hinit
    · exact absurd ⟨by simp,List.dropLast_concat⟩ hne
    · exact hinit

theorem stored_syncDirectory {directory above : List ν} (habove : above <+: directory) :
    (d.syncDirectory directory).stored above = d.stored above := by
  rw [syncDirectory]
  dsimp only
  rw [if_neg]
  rintro ⟨hne,hsame⟩
  have hlength := habove.length_le
  rw [← hsame,List.length_dropLast] at hlength
  have hpositive := List.length_pos_of_ne_nil hne
  omega

theorem Has.of_grow {new : List ν} {made : Entry β}
    (h : Has { d with seen := Function.update d.seen new (some made) } path entry) :
    d.Has path entry ∨ path = new ∧ entry = made := by
  rcases h with h | h
  · dsimp only at h
    rw [Function.update_apply] at h
    split at h
    · next hpath =>
      rw [Option.some.injEq] at h
      exact Or.inr ⟨hpath,h.symm⟩
    · exact Or.inl (Or.inl h)
  · exact Or.inl (Or.inr h)

theorem Has.of_unlink {gone : List ν} (h : (d.unlink gone).Has path entry) : d.Has path entry := by
  rcases h with h | h
  · rw [Disk.unlink] at h
    dsimp only at h
    rw [Function.update_apply] at h
    split at h
    · cases h
    · exact Or.inl h
  · exact Or.inr h

theorem Has.of_sync {directory : List ν} (h : (d.syncDirectory directory).Has path entry) :
    d.Has path entry := by
  rcases h with h | h
  · exact Or.inl h
  · rw [Disk.syncDirectory] at h
    dsimp only at h
    split at h
    · exact Or.inl h
    · exact Or.inr h

omit [DecidableEq ν] in
theorem Has.of_crash (h : (d.crash keep tear).Has path entry) :
    ∃ old, d.Has path old ∧ entry = old.tear (tear path) := by
  rcases h with h | h
  · exact (remains_some h).1
  · exact (remains_some h).1

end Disk

theorem FileTree.WellFormed.remove [DecidableEq ν] {t : FileTree ν β} (h : t.WellFormed) {path : List ν}
    {contents : β} (hfile : t path = some (.file contents)) :
    FileTree.WellFormed (Function.update t path none) := by
  have hkeep : ∀ other, t other = some .dir → Function.update t path none other = some .dir := by
    intro other hother
    rw [Function.update_of_ne]
    · exact hother
    · rintro rfl
      rw [hfile] at hother
      cases hother
  refine ⟨hkeep [] h.root,?_⟩
  intro other name hsome
  rw [Function.update_apply] at hsome
  split at hsome
  · cases hsome
  · exact hkeep other (h.parent other name hsome)

end LatexCore.Foundation
