import LatexCore.Imports.Rulings

/-! # The verdict on a row

After the comparison a row gets the action of its record, its references are looked up
and a deletion is refused while something depends on the record. The verdict on a row is
the code with which it leaves all checks; an accepted row leaves them with its action
added and is otherwise as the file has it.
-/
namespace LatexCore.Imports
open Core Foundation

variable {tables : Tables} {dependents : Dependents} {mode : ImportMode}
variable {rows : List SourceRow} {row : SourceRow} {index : ℕ}

structure Raw (row : SourceRow) : Prop where
  object : row.payload.isObject = true
  action : row.payload.get? "__action" = none

def acted (tables : Tables) (mode : ImportMode) (row : SourceRow) : SourceRow :=
  { row with
    existingPayload := (existingRecord tables row).map Value.obj
    payload := row.payload.set "__action" (.str (actionName (existingRecord tables row).isSome mode)) }

open Classical in
/-- The code of the first statement that is true of the row, if there is one. -/
noncomputable def ruling (tables : Tables) (dependents : Dependents) (mode : ImportMode) (rows : List SourceRow)
    (index : ℕ) (row : SourceRow) : Option String :=
  if ¬Passes rows index row then crossRuling rows index row
  else if ¬Offered tables mode rows index row then some "NOT_FOUND"
  else if Dangles tables mode rows row then some "INVALID_FK"
  else if Blocked dependents mode row then some "DELETE_BLOCKED_DEPENDENCY"
  else none

/-- No check has anything to say about the row. -/
structure Accepted (tables : Tables) (dependents : Dependents) (mode : ImportMode) (rows : List SourceRow)
    (index : ℕ) (row : SourceRow) : Prop where
  offered : Offered tables mode rows index row
  referred : ¬Dangles tables mode rows row
  free : ¬Blocked dependents mode row

theorem crossRuling_some (hnot : ¬Passes rows index row) : crossRuling rows index row ≠ none := by
  intro hruling
  rw [crossRuling] at hruling
  split at hruling
  · next herror =>
    rw [errorCode,Option.map_eq_none_iff] at hruling
    exact herror hruling
  · next hnone =>
    split at hruling
    · cases hruling
    · next hfirst =>
      split at hruling
      · cases hruling
      · next hapart =>
        split at hruling
        · cases hruling
        · next hled =>
          split at hruling
          · cases hruling
          · next hwritten =>
            exact hnot ⟨⟨not_not.mp hnone,hfirst⟩,hapart,fun hteams htwice => hled ⟨hteams,htwice⟩,
              fun hteams hmissing => hwritten ⟨hteams,hmissing⟩⟩

theorem ruling_none : ruling tables dependents mode rows index row = none ↔
    Accepted tables dependents mode rows index row := by
  rw [ruling]
  constructor
  · intro h
    split at h
    · next hnot => exact absurd h (crossRuling_some hnot)
    · split at h
      · cases h
      · next hoffered =>
        split at h
        · cases h
        · next hrefers =>
          split at h
          · cases h
          · next hfree => exact ⟨not_not.mp hoffered,hrefers,hfree⟩
  · rintro ⟨hoffered,hrefers,hfree⟩
    rw [if_neg (not_not_intro hoffered.passes),if_neg (not_not_intro hoffered),if_neg hrefers,if_neg hfree]

/-! ## Actions -/

theorem actionFor_raw (raw : Raw row) : actionFor row = "INSERT" := by
  rw [actionFor,raw.action]
  rfl

theorem assignAction_found (raw : Raw row) (hnone : row.error = none)
    (hfound : mode = .updateOnly ∨ mode = .deleteOnly → (existingRecord tables row).isSome = true) :
    assignAction tables mode row = acted tables mode row := by
  have hskip : ¬(row.error.isSome = true ∨ actionFor row = "SKIP" ∨ actionFor row = "DELETE") := by
    rw [hnone,actionFor_raw raw]
    simp
  rw [assignAction,if_neg hskip]
  dsimp only
  rw [if_neg]
  · rfl
  · rintro ⟨habsent,hmode⟩
    have hsome := hfound hmode
    rw [Option.isNone_iff_eq_none.mp habsent] at hsome
    exact absurd hsome Bool.false_ne_true

theorem assignAction_lost (raw : Raw row) (hnone : row.error = none)
    (hmode : mode = .updateOnly ∨ mode = .deleteOnly) (hlost : (existingRecord tables row).isSome = false) :
    errorCode (assignAction tables mode row) = some "NOT_FOUND" ∧ SamePlace (assignAction tables mode row) row := by
  have hskip : ¬(row.error.isSome = true ∨ actionFor row = "SKIP" ∨ actionFor row = "DELETE") := by
    rw [hnone,actionFor_raw raw]
    simp
  rw [assignAction,if_neg hskip]
  dsimp only
  have habsent : (existingRecord tables row).isNone = true := by
    rw [← Option.not_isSome,hlost]
    rfl
  rw [if_pos ⟨habsent,hmode⟩]
  exact ⟨rfl,rfl,rfl,rfl⟩

theorem actionFor_acted (raw : Raw row) :
    actionFor (acted tables mode row) = actionName (existingRecord tables row).isSome mode := by
  rw [actionFor,acted,get?_set raw.object,if_pos rfl]
  rfl

theorem textValue_acted {column : String} (hcolumn : column ≠ "__action") :
    textValue (acted tables mode row).payload column = textValue row.payload column := by
  simp only [textValue,acted,Value.get?_set_of_ne hcolumn]

/-! ## The last checks -/

def actedRows (tables : Tables) (mode : ImportMode) (rows : List SourceRow) : List SourceRow :=
  (validateCrossRows rows).map (assignAction tables mode)

theorem validateRows_length (tables : Tables) (dependents : Dependents) (mode : ImportMode)
    (rows : List SourceRow) : (validateRows tables dependents mode rows).length = rows.length := by
  have hreferences : (validateDatabaseReferences tables
      ((validateCrossRows rows).map (assignAction tables mode))).length = rows.length := by
    rw [validateDatabaseReferences,List.length_map,List.length_map,crossRows_length]
  rw [validateRows]
  split
  · rw [List.length_map,hreferences]
  · exact hreferences

variable (raw : ∀ row ∈ rows, Raw row)
include raw

theorem acted_get (tables : Tables) (mode : ImportMode) (hrow : rows[index]? = some row) :
    ∃ out, (actedRows tables mode rows)[index]? = some out ∧
    SamePlace out row ∧
    (¬Passes rows index row → errorCode out = crossRuling rows index row) ∧
    (Passes rows index row → ¬Offered tables mode rows index row → errorCode out = some "NOT_FOUND") ∧
    (Offered tables mode rows index row → out = acted tables mode row) ∧
    (¬Offered tables mode rows index row → out.error.isSome = true) := by
  obtain ⟨crossed,hcrossed,hplace,hcode,hkept,hrefused⟩ := crossed_get hrow
  refine ⟨assignAction tables mode crossed,?_,?_⟩
  · rw [actedRows,List.getElem?_map,hcrossed]
    rfl
  by_cases hpasses : Passes rows index row
  · rw [hkept hpasses]
    have hraw := raw row (List.mem_of_getElem? hrow)
    by_cases hoffered : Offered tables mode rows index row
    · rw [assignAction_found hraw hpasses.fresh.1 hoffered.found]
      exact ⟨⟨rfl,rfl,rfl⟩,fun hnot => absurd hpasses hnot,fun _ hnot => absurd hoffered hnot,fun _ => rfl,
        fun hnot => absurd hoffered hnot⟩
    · have hlost : (mode = .updateOnly ∨ mode = .deleteOnly) ∧ (existingRecord tables row).isSome = false := by
        by_contra hnot
        refine hoffered ⟨hpasses,fun hmode => ?_⟩
        by_contra habsent
        exact hnot ⟨hmode,Bool.eq_false_iff.mpr habsent⟩
      obtain ⟨hnotFound,hsame⟩ := assignAction_lost hraw hpasses.fresh.1 hlost.1 hlost.2
      exact ⟨hsame,fun hnot => absurd hpasses hnot,fun _ _ => hnotFound,fun h => absurd h hoffered,
        fun _ => isSome_of_code hnotFound⟩
  · have hsome := hrefused hpasses
    rw [assignAction_error hsome]
    exact ⟨hplace,fun _ => hcode,fun h => absurd h hpasses,fun h => absurd h.passes hpasses,fun _ => hsome⟩

theorem acted_none {out : SourceRow} (hout : (actedRows tables mode rows)[index]? = some out)
    (hnone : out.error = none) : ∃ row, rows[index]? = some row ∧ Offered tables mode rows index row ∧
      out = acted tables mode row := by
  have hlt := (List.getElem?_eq_some_iff.mp hout).1
  rw [actedRows,List.length_map,crossRows_length] at hlt
  obtain ⟨found,hfound,-,-,-,hoffered,hrefused⟩ :=
    acted_get raw tables mode (List.getElem?_eq_getElem hlt)
  obtain rfl : found = out := Option.some.inj (hfound.symm.trans hout)
  by_cases h : Offered tables mode rows index rows[index]
  · exact ⟨_,List.getElem?_eq_getElem hlt,h,hoffered h⟩
  · have hsome := hrefused h
    rw [hnone] at hsome
    exact absurd hsome Bool.false_ne_true

theorem uploadedKey_iff {dataset : Dataset} {value : String} :
    uploadedKey (actedRows tables mode rows) dataset value = true ↔ ∃ k other, rows[k]? = some other ∧
      Offered tables mode rows k other ∧ other.dataset = dataset ∧ some value ∈ keyToken other := by
  rw [uploadedKey,List.any_eq_true]
  simp only [Bool.and_eq_true,Option.isNone_iff_eq_none,decide_eq_true_eq,List.contains_eq_mem]
  constructor
  · rintro ⟨out,hmem,⟨hnone,hdataset⟩,hkey⟩
    obtain ⟨k,hk⟩ := List.mem_iff_getElem?.mp hmem
    obtain ⟨other,hother,hoffered,rfl⟩ := acted_none raw hk hnone
    exact ⟨k,other,hother,hoffered,hdataset,hkey⟩
  · rintro ⟨k,other,hother,hoffered,hdataset,hkey⟩
    obtain ⟨out,hout,-,-,-,hacted,-⟩ := acted_get raw tables mode hother
    rw [hacted hoffered] at hout
    exact ⟨_,List.mem_of_getElem? hout,⟨hoffered.passes.fresh.1,hdataset⟩,hkey⟩

theorem referenceMissing_iff {reference : String × Dataset} (hreference : reference ∈ checkedReferences row.dataset) :
    referenceMissing tables (actedRows tables mode rows) (acted tables mode row).payload reference = true ↔
      ∃ value, filledValue row.payload reference.1 = some value ∧ (tables reference.2).get? [value] = none ∧
        ∀ k other, rows[k]? = some other → Offered tables mode rows k other → other.dataset = reference.2 →
          some value ∉ keyToken other := by
  obtain ⟨-,-,haction⟩ := reference_column row.dataset reference hreference
  have hfilled : filledValue (acted tables mode row).payload reference.1 = filledValue row.payload reference.1 := by
    rw [filledValue,textValue_acted haction,filledValue]
  rw [referenceMissing,hfilled,Option.any_eq_true]
  refine exists_congr fun value => and_congr_right fun _ => ?_
  rw [Bool.and_eq_true,Option.isNone_iff_eq_none,Bool.not_eq_true',← Bool.not_eq_true,uploadedKey_iff raw]
  refine and_congr_right fun _ => ?_
  constructor
  · intro h k other hother hoffered hdataset hkey
    exact h ⟨k,other,hother,hoffered,hdataset,hkey⟩
  · rintro h ⟨k,other,hother,hoffered,hdataset,hkey⟩
    exact h k other hother hoffered hdataset hkey

theorem references_dangle (hoffered : Offered tables mode rows index row) :
    (Dangles tables mode rows row → errorCode (checkReferences tables (actedRows tables mode rows)
      (acted tables mode row)) = some "INVALID_FK") ∧
    (¬Dangles tables mode rows row → checkReferences tables (actedRows tables mode rows) (acted tables mode row) =
      acted tables mode row) := by
  have hdangles : Dangles tables mode rows row ↔ ∃ reference ∈ checkedReferences (acted tables mode row).dataset,
      referenceMissing tables (actedRows tables mode rows) (acted tables mode row).payload reference = true := by
    refine exists_congr fun reference => and_congr_right fun hreference => ?_
    exact (referenceMissing_iff raw hreference).symm
  have hnone : (acted tables mode row).error = none := hoffered.passes.fresh.1
  rcases @checkReferences_none (acted tables mode row) tables (actedRows tables mode rows) hnone with
    ⟨hkept,hfound⟩ | ⟨hcode,hmissing⟩
  · refine ⟨fun h => ?_,fun _ => hkept⟩
    obtain ⟨reference,hreference,hmissing⟩ := hdangles.mp h
    rw [hfound reference hreference] at hmissing
    exact absurd hmissing Bool.false_ne_true
  · exact ⟨fun _ => hcode,fun hnot => absurd (hdangles.mpr hmissing) hnot⟩

omit raw in
theorem samePlace_checkReferences (tables : Tables) (assigned : List SourceRow) (row : SourceRow) :
    SamePlace (checkReferences tables assigned row) row := by
  unfold checkReferences
  split
  · exact samePlace_refl row
  · split
    · exact samePlace_refl row
    · exact samePlace_fail _ _ _

omit raw in
theorem samePlace_checkDependencies (dependents : Dependents) (row : SourceRow) :
    SamePlace (checkDependencies dependents row) row := by
  unfold checkDependencies
  split
  · dsimp only
    split
    · exact samePlace_fail _ _ _
    · exact samePlace_refl row
  · exact samePlace_refl row

omit raw in
theorem dependencyKey_action (dataset : Dataset) : dependencyKey dataset ≠ some "__action" := by
  cases dataset <;> decide

omit raw in
theorem dependencies_acted (tables : Tables) (dependents : Dependents) (mode : ImportMode) (row : SourceRow) :
    dependenciesOf dependents row.dataset (acted tables mode row).payload =
      dependenciesOf dependents row.dataset row.payload := by
  rw [dependenciesOf,dependenciesOf]
  cases hkey : dependencyKey row.dataset with
  | none => rfl
  | some column =>
    have hcolumn : column ≠ "__action" := by
      rintro rfl
      exact dependencyKey_action row.dataset hkey
    rw [Option.bind_some,Option.bind_some,textValue_acted hcolumn]

omit raw in
theorem dependencies_blocked (dependents : Dependents) (raw : Raw row) (hdelete : mode = .deleteOnly)
    (hoffered : Offered tables mode rows index row) :
    (Blocked dependents mode row →
      errorCode (checkDependencies dependents (acted tables mode row)) = some "DELETE_BLOCKED_DEPENDENCY") ∧
    (¬Blocked dependents mode row → checkDependencies dependents (acted tables mode row) = acted tables mode row) := by
  have hnone : (acted tables mode row).error = none := hoffered.passes.fresh.1
  have haction : actionFor (acted tables mode row) = "DELETE" := by
    rw [actionFor_acted raw,hoffered.found (.inr hdelete),hdelete]
    rfl
  have hsame := dependencies_acted tables dependents mode row
  constructor
  · rintro ⟨-,hblocked⟩
    rw [code_dependencies hnone haction,if_pos]
    exact hsame ▸ hblocked
  · intro hfree
    have hnil : dependenciesOf dependents row.dataset row.payload = [] := by
      by_contra hblocked
      exact hfree ⟨hdelete,hblocked⟩
    rw [checkDependencies,if_pos ⟨by rw [hnone]; rfl,haction⟩]
    dsimp only
    rw [if_neg]
    rw [not_not]
    exact hsame.trans hnil

theorem verdict_get (tables : Tables) (dependents : Dependents) (mode : ImportMode) (hrow : rows[index]? = some row) :
    ∃ out,
    (validateRows tables dependents mode rows)[index]? = some out ∧ SamePlace out row ∧
    errorCode out = ruling tables dependents mode rows index row ∧
    (Accepted tables dependents mode rows index row → out = acted tables mode row) := by
  have hraw := raw row (List.mem_of_getElem? hrow)
  obtain ⟨given,hgiven,hplace,hcross,hlost,hoffered,hrefused⟩ :=
    acted_get raw tables mode hrow
  have hchecked : (validateDatabaseReferences tables (actedRows tables mode rows))[index]? =
      some (checkReferences tables (actedRows tables mode rows) given) := by
    rw [validateDatabaseReferences,List.getElem?_map,hgiven]
    rfl
  have hplace' := (samePlace_checkReferences tables (actedRows tables mode rows) given).trans hplace
  have hfinal : ∃ out, (validateRows tables dependents mode rows)[index]? = some out ∧ SamePlace out row ∧
      (mode = .deleteOnly → out =
        checkDependencies dependents (checkReferences tables (actedRows tables mode rows) given)) ∧
      (mode ≠ .deleteOnly → out = checkReferences tables (actedRows tables mode rows) given) := by
    by_cases hdelete : mode = .deleteOnly
    · refine ⟨_,?_,(samePlace_checkDependencies dependents _).trans hplace',fun _ => rfl,
        fun hnot => absurd hdelete hnot⟩
      rw [validateRows,if_pos hdelete,List.getElem?_map]
      rw [actedRows] at hchecked
      rw [hchecked]
      rfl
    · refine ⟨_,?_,hplace',fun h => absurd h hdelete,fun _ => rfl⟩
      rw [validateRows,if_neg hdelete]
      exact hchecked
  obtain ⟨out,hout,hplaceOut,hdelete,hother⟩ := hfinal
  refine ⟨out,hout,hplaceOut,?_⟩
  have hkeptOut : (checkReferences tables (actedRows tables mode rows) given).error.isSome = true →
      out = checkReferences tables (actedRows tables mode rows) given := by
    intro hsome
    by_cases hmode : mode = .deleteOnly
    · rw [hdelete hmode,checkDependencies_error hsome]
    · exact hother hmode
  by_cases hthere : Offered tables mode rows index row
  · obtain ⟨hdangle,hfound⟩ := references_dangle raw hthere
    rw [hoffered hthere] at hdelete hother hkeptOut
    by_cases hdangles : Dangles tables mode rows row
    · have hcode := hdangle hdangles
      rw [hkeptOut (isSome_of_code hcode),hcode,ruling,if_neg (not_not_intro hthere.passes),
        if_neg (not_not_intro hthere),if_pos hdangles]
      exact ⟨rfl,fun haccepted => absurd hdangles haccepted.referred⟩
    · rw [hfound hdangles] at hdelete hother
      by_cases hblocked : Blocked dependents mode row
      · have hcode := (dependencies_blocked dependents hraw hblocked.1 hthere).1 hblocked
        rw [hdelete hblocked.1,hcode,ruling,if_neg (not_not_intro hthere.passes),if_neg (not_not_intro hthere),
          if_neg hdangles,if_pos hblocked]
        exact ⟨rfl,fun haccepted => absurd hblocked haccepted.free⟩
      · have hkept : out = acted tables mode row := by
          by_cases hmode : mode = .deleteOnly
          · rw [hdelete hmode]
            exact (dependencies_blocked dependents hraw hmode hthere).2 hblocked
          · exact hother hmode
        have hruling := ruling_none.mpr (Accepted.mk hthere hdangles hblocked)
        rw [hruling,hkept]
        refine ⟨?_,fun _ => rfl⟩
        rw [errorCode,acted,hthere.passes.fresh.1]
        rfl
  · have hsome := hrefused hthere
    have hkept : out = given := by
      rw [hkeptOut (by rwa [checkReferences_error hsome]),checkReferences_error hsome]
    refine ⟨?_,fun haccepted => absurd haccepted.offered hthere⟩
    by_cases hpasses : Passes rows index row
    · rw [hkept,hlost hpasses hthere,ruling,if_neg (not_not_intro hpasses),if_pos hthere]
    · rw [hkept,hcross hpasses,ruling,if_pos hpasses]

end LatexCore.Imports
