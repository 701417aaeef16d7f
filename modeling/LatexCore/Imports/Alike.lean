import LatexCore.Imports.Respelling

/-! # Verdicts on two spellings

The checks after parsing compare texts: keys with the keys of earlier rows and of records,
orders with the orders of earlier Writers, references with records and uploaded key cells.
Two spellings of an upload get the same codes and actions row by row exactly if these
comparisons come out alike, each for the rows that get as far.
-/
namespace LatexCore.Imports
open Core Foundation

variable {texts : Texts} {tables : Tables} {dependents : Dependents} {mode : ImportMode}
variable {rows others : List SourceRow} {row other : SourceRow} {index : ℕ}

/-! ## What the uploads should agree in -/

def storedAction (row : SourceRow) : Option RowAction := (importRow row).map (·.action)

def SameVerdicts (tables : Tables) (dependents : Dependents) (mode : ImportMode) (rows others : List SourceRow) :
    Prop :=
  ∀ (index : ℕ) (row other : SourceRow), (validateRows tables dependents mode rows)[index]? = some row →
    (validateRows tables dependents mode others)[index]? = some other →
    errorCode row = errorCode other ∧ storedAction row = storedAction other

def SameRepeats (rows others : List SourceRow) : Prop :=
  ∀ (index : ℕ) (row other : SourceRow), rows[index]? = some row → others[index]? = some other →
    row.error = none → (Repeats rows index row ↔ Repeats others index other)

def SameOrders (rows others : List SourceRow) : Prop :=
  ∀ (index : ℕ) (row other : SourceRow), rows[index]? = some row → others[index]? = some other →
    Fresh rows index row → (Collides rows index row ↔ Collides others index other)

/-- The comparisons come out alike: for a row without an error whether it repeats a key, for a fresh one
whether it collides, for one that passes whether it names a record, for one that is offered whether it
dangles and then whether its deletion is blocked. -/
structure Alike (tables : Tables) (dependents : Dependents) (mode : ImportMode) (rows others : List SourceRow) :
    Prop where
  repeats : SameRepeats rows others
  orders : SameOrders rows others
  found : ∀ (index : ℕ) (row other : SourceRow), rows[index]? = some row → others[index]? = some other →
    Passes rows index row → (mode = .updateOnly ∨ mode = .deleteOnly) ∨ ¬Dangles tables mode rows row →
    (existingRecord tables row).isSome = (existingRecord tables other).isSome
  dangles : ∀ (index : ℕ) (row other : SourceRow), rows[index]? = some row → others[index]? = some other →
    Offered tables mode rows index row → (Dangles tables mode rows row ↔ Dangles tables mode others other)
  blocked : ∀ (index : ℕ) (row other : SourceRow), rows[index]? = some row → others[index]? = some other →
    Offered tables mode rows index row → ¬Dangles tables mode rows row →
    (Blocked dependents mode row ↔ Blocked dependents mode other)

/-! ## Rulings read back -/

theorem ruling_repeats (tables : Tables) (dependents : Dependents) (mode : ImportMode) (hnone : row.error = none) :
    ruling tables dependents mode rows index row = some "DUPLICATE_KEY" ↔ Repeats rows index row := by
  rw [ruling]
  by_cases hpasses : Passes rows index row
  · rw [if_neg (not_not_intro hpasses)]
    refine iff_of_false ?_ hpasses.fresh.2
    split
    · simp
    · split
      · simp
      · split
        · simp
        · simp
  · rw [if_pos hpasses,crossRuling,if_neg (not_not_intro hnone)]
    by_cases hrepeats : Repeats rows index row
    · rw [if_pos hrepeats]
      exact iff_of_true rfl hrepeats
    · rw [if_neg hrepeats]
      refine iff_of_false ?_ hrepeats
      split
      · simp
      · split
        · simp
        · split
          · simp
          · simp

theorem ruling_collides (tables : Tables) (dependents : Dependents) (mode : ImportMode)
    (hfresh : Fresh rows index row) :
    ruling tables dependents mode rows index row = some "DUPLICATE_WRITER_ORDER" ↔ Collides rows index row := by
  rw [ruling]
  by_cases hpasses : Passes rows index row
  · rw [if_neg (not_not_intro hpasses)]
    refine iff_of_false ?_ hpasses.apart
    split
    · simp
    · split
      · simp
      · split
        · simp
        · simp
  · rw [if_pos hpasses,crossRuling,if_neg (not_not_intro hfresh.1),if_neg hfresh.2]
    by_cases hcollides : Collides rows index row
    · rw [if_pos hcollides]
      exact iff_of_true rfl hcollides
    · rw [if_neg hcollides]
      refine iff_of_false ?_ hcollides
      split
      · simp
      · split
        · simp
        · simp

theorem ruling_lost (dependents : Dependents) (hpasses : Passes rows index row) :
    ruling tables dependents mode rows index row = some "NOT_FOUND" ↔ ¬Offered tables mode rows index row := by
  rw [ruling,if_neg (not_not_intro hpasses)]
  by_cases hoffered : Offered tables mode rows index row
  · rw [if_neg (not_not_intro hoffered)]
    refine iff_of_false ?_ (not_not_intro hoffered)
    split
    · simp
    · split
      · simp
      · simp
  · rw [if_pos hoffered]
    exact iff_of_true rfl hoffered

theorem ruling_dangles (dependents : Dependents) (hoffered : Offered tables mode rows index row) :
    ruling tables dependents mode rows index row = some "INVALID_FK" ↔ Dangles tables mode rows row := by
  rw [ruling,if_neg (not_not_intro hoffered.passes),if_neg (not_not_intro hoffered)]
  by_cases hdangles : Dangles tables mode rows row
  · rw [if_pos hdangles]
    exact iff_of_true rfl hdangles
  · rw [if_neg hdangles]
    refine iff_of_false ?_ hdangles
    split
    · simp
    · simp

theorem ruling_blocked (hoffered : Offered tables mode rows index row) (hfound : ¬Dangles tables mode rows row) :
    ruling tables dependents mode rows index row = some "DELETE_BLOCKED_DEPENDENCY" ↔ Blocked dependents mode row := by
  rw [ruling,if_neg (not_not_intro hoffered.passes),if_neg (not_not_intro hoffered),if_neg hfound]
  by_cases hblocked : Blocked dependents mode row
  · rw [if_pos hblocked]
    exact iff_of_true rfl hblocked
  · rw [if_neg hblocked]
    exact iff_of_false (by simp) hblocked

/-! ## Statements about both uploads -/

namespace Paired
variable (paired : Paired texts rows others)
include paired

theorem other_of (hrow : rows[index]? = some row) :
    ∃ other, others[index]? = some other ∧ Counterpart texts row other := by
  have hlt : index < others.length := paired.length ▸ (List.getElem?_eq_some_iff.mp hrow).1
  have hother := List.getElem?_eq_getElem hlt
  exact ⟨_,hother,paired.row index row _ hrow hother⟩

theorem row_of (hother : others[index]? = some other) :
    ∃ row, rows[index]? = some row ∧ Counterpart texts row other := by
  have hlt : index < rows.length := paired.length ▸ (List.getElem?_eq_some_iff.mp hother).1
  have hrow := List.getElem?_eq_getElem hlt
  exact ⟨_,hrow,paired.row index _ other hrow hother⟩

theorem raw : (∀ row ∈ rows, Raw row) ∧ ∀ other ∈ others, Raw other := by
  constructor
  · intro row hmem
    obtain ⟨index,hrow⟩ := List.mem_iff_getElem?.mp hmem
    obtain ⟨other,-,h⟩ := paired.other_of hrow
    exact h.raw
  · intro other hmem
    obtain ⟨index,hother⟩ := List.mem_iff_getElem?.mp hmem
    obtain ⟨row,-,h⟩ := paired.row_of hother
    exact h.otherRaw

theorem includesWriters_eq : includesWriters rows = includesWriters others := by
  rw [Bool.eq_iff_iff,includesWriters,includesWriters,List.any_eq_true,List.any_eq_true]
  constructor
  · rintro ⟨row,hmem,hwriters⟩
    obtain ⟨index,hrow⟩ := List.mem_iff_getElem?.mp hmem
    obtain ⟨other,hother,h⟩ := paired.other_of hrow
    exact ⟨other,List.mem_of_getElem? hother,decide_eq_true (h.place.dataset ▸ of_decide_eq_true hwriters)⟩
  · rintro ⟨other,hmem,hwriters⟩
    obtain ⟨index,hother⟩ := List.mem_iff_getElem?.mp hmem
    obtain ⟨row,hrow,h⟩ := paired.row_of hother
    exact ⟨row,List.mem_of_getElem? hrow,decide_eq_true (h.place.dataset.symm ▸ of_decide_eq_true hwriters)⟩

variable (repeats : SameRepeats rows others)
include repeats

theorem fresh_iff (hrow : rows[index]? = some row) (hother : others[index]? = some other) :
    Fresh rows index row ↔ Fresh others index other := by
  rw [Fresh,Fresh,(paired.row index row other hrow hother).error]
  refine and_congr_right fun hnone => not_congr ?_
  exact repeats index row other hrow hother ((paired.row index row other hrow hother).error.trans hnone)

variable (orders : SameOrders rows others)
include orders

theorem writesFor_iff {team : String} (hrow : rows[index]? = some row) (hother : others[index]? = some other) :
    WritesFor rows team index row ↔ WritesFor others team index other := by
  have h := paired.row index row other hrow hother
  have hfresh := paired.fresh_iff repeats hrow hother
  rw [WritesFor,WritesFor,h.place.dataset,h.team]
  constructor
  · rintro ⟨hwriters,hfirst,hapart,hteam⟩
    exact ⟨hwriters,hfresh.mp hfirst,(not_congr (orders index row other hrow hother hfirst)).mp hapart,hteam⟩
  · rintro ⟨hwriters,hfirst,hapart,hteam⟩
    have hfirst' := hfresh.mpr hfirst
    exact ⟨hwriters,hfirst',(not_congr (orders index row other hrow hother hfirst')).mpr hapart,hteam⟩

theorem ledTwice_iff (team : String) : LedTwice rows team ↔ LedTwice others team := by
  constructor
  · rintro ⟨first,second,one,two,hlt,hone,htwo,⟨hwrites,hleads⟩,hwrites',hleads'⟩
    obtain ⟨one',hone',h⟩ := paired.other_of hone
    obtain ⟨two',htwo',h'⟩ := paired.other_of htwo
    exact ⟨first,second,one',two',hlt,hone',htwo',
      ⟨(paired.writesFor_iff repeats orders hone hone').mp hwrites,h.leader ▸ hleads⟩,
      (paired.writesFor_iff repeats orders htwo htwo').mp hwrites',h'.leader ▸ hleads'⟩
  · rintro ⟨first,second,one',two',hlt,hone',htwo',⟨hwrites,hleads⟩,hwrites',hleads'⟩
    obtain ⟨one,hone,h⟩ := paired.row_of hone'
    obtain ⟨two,htwo,h'⟩ := paired.row_of htwo'
    exact ⟨first,second,one,two,hlt,hone,htwo,
      ⟨(paired.writesFor_iff repeats orders hone hone').mpr hwrites,h.leader.symm ▸ hleads⟩,
      (paired.writesFor_iff repeats orders htwo htwo').mpr hwrites',h'.leader.symm ▸ hleads'⟩

theorem unwritten_iff (team : String) : Unwritten rows team ↔ Unwritten others team := by
  rw [Unwritten,Unwritten,paired.includesWriters_eq]
  refine and_congr_right fun _ => not_congr ⟨?_,?_⟩
  · rintro ⟨k,row,hrow,hwrites⟩
    obtain ⟨other,hother,-⟩ := paired.other_of hrow
    exact ⟨k,other,hother,(paired.writesFor_iff repeats orders hrow hother).mp hwrites⟩
  · rintro ⟨k,other,hother,hwrites⟩
    obtain ⟨row,hrow,-⟩ := paired.row_of hother
    exact ⟨k,row,hrow,(paired.writesFor_iff repeats orders hrow hother).mpr hwrites⟩

theorem passes_iff (hrow : rows[index]? = some row) (hother : others[index]? = some other) :
    Passes rows index row ↔ Passes others index other := by
  have h := paired.row index row other hrow hother
  have hfresh := paired.fresh_iff repeats hrow hother
  constructor
  · rintro ⟨hfirst,hapart,hled,hwritten⟩
    refine ⟨hfresh.mp hfirst,(not_congr (orders index row other hrow hother hfirst)).mp hapart,?_,?_⟩
    · rw [← h.place.dataset,← h.team,← paired.ledTwice_iff repeats orders]
      exact hled
    · rw [← h.place.dataset,← h.team,← paired.unwritten_iff repeats orders]
      exact hwritten
  · rintro ⟨hfirst,hapart,hled,hwritten⟩
    have hfirst' := hfresh.mpr hfirst
    refine ⟨hfirst',(not_congr (orders index row other hrow hother hfirst')).mpr hapart,?_,?_⟩
    · rw [h.place.dataset,h.team,paired.ledTwice_iff repeats orders]
      exact hled
    · rw [h.place.dataset,h.team,paired.unwritten_iff repeats orders]
      exact hwritten

/-- A row that the comparison refuses is refused with the same code in both uploads. -/
theorem crossRuling_eq (hrow : rows[index]? = some row) (hother : others[index]? = some other) :
    crossRuling rows index row = crossRuling others index other := by
  classical
  have h := paired.row index row other hrow hother
  rw [crossRuling,crossRuling]
  cases herror : row.error with
  | some error =>
    rw [if_pos (by simp),if_pos (by rw [← h.error,herror]; simp),h.error_code]
  | none =>
    have herror' : other.error = none := h.error.symm.trans herror
    have hrepeats := repeats index row other hrow hother herror
    rw [if_neg (by simp),if_neg (not_not_intro herror')]
    by_cases hrepeat : Repeats rows index row
    · rw [if_pos hrepeat,if_pos (hrepeats.mp hrepeat)]
    · have hcollides := orders index row other hrow hother ⟨herror,hrepeat⟩
      rw [if_neg hrepeat,if_neg (fun hrepeat' => hrepeat (hrepeats.mpr hrepeat')),← h.place.dataset,← h.team]
      have hled := paired.ledTwice_iff repeats orders (teamOf row)
      have hwritten := paired.unwritten_iff repeats orders (teamOf row)
      simp only [hcollides,hled,hwritten]

end Paired

/-! ## Verdicts -/

theorem storedAction_acted (raw : Raw row) (hnone : row.error = none) : storedAction (acted tables mode row) =
    RowAction.parse? (actionName (existingRecord tables row).isSome mode) := by
  have herror : (acted tables mode row).error = none := hnone
  rw [storedAction,importRow,herror,actionFor_acted raw]
  simp only [Option.isSome_none,Bool.false_eq_true,if_false,Option.map_map]
  exact Option.map_id'

theorem storedAction_error (herror : row.error.isSome = true) : storedAction row = some .invalid := by
  rw [storedAction,importRow,if_pos herror]
  rfl

/-- The actions of found and of missing records differ, unless a missing one is an error. -/
theorem parse_actionName {present present' : Bool} (hmode : ¬(mode = .updateOnly ∨ mode = .deleteOnly))
    (h : RowAction.parse? (actionName present mode) = RowAction.parse? (actionName present' mode)) :
    present = present' := by
  revert h hmode
  cases mode <;> cases present <;> cases present' <;> decide

namespace Alike
variable (paired : Paired texts rows others) (alike : Alike tables dependents mode rows others)
include paired alike

theorem passes_iff (hrow : rows[index]? = some row) (hother : others[index]? = some other) :
    Passes rows index row ↔ Passes others index other :=
  paired.passes_iff alike.repeats alike.orders hrow hother

theorem offered_iff (hrow : rows[index]? = some row) (hother : others[index]? = some other) :
    Offered tables mode rows index row ↔ Offered tables mode others index other := by
  have hpasses := alike.passes_iff paired hrow hother
  constructor
  · rintro ⟨hpass,hfound⟩
    refine ⟨hpasses.mp hpass,fun hmode => ?_⟩
    rw [← alike.found index row other hrow hother hpass (.inl hmode)]
    exact hfound hmode
  · rintro ⟨hpass',hfound⟩
    have hpass := hpasses.mpr hpass'
    refine ⟨hpass,fun hmode => ?_⟩
    rw [alike.found index row other hrow hother hpass (.inl hmode)]
    exact hfound hmode

theorem ruling_eq (hrow : rows[index]? = some row) (hother : others[index]? = some other) :
    ruling tables dependents mode rows index row = ruling tables dependents mode others index other := by
  have hpasses := alike.passes_iff paired hrow hother
  have hoffered := alike.offered_iff paired hrow hother
  rw [ruling,ruling]
  by_cases hpass : Passes rows index row
  · rw [if_neg (not_not_intro hpass),if_neg (not_not_intro (hpasses.mp hpass))]
    by_cases hoffer : Offered tables mode rows index row
    · have hdangles := alike.dangles index row other hrow hother hoffer
      rw [if_neg (not_not_intro hoffer),if_neg (not_not_intro (hoffered.mp hoffer))]
      by_cases hdangle : Dangles tables mode rows row
      · rw [if_pos hdangle,if_pos (hdangles.mp hdangle)]
      · have hblocked := alike.blocked index row other hrow hother hoffer hdangle
        rw [if_neg hdangle,if_neg (fun hdangle' => hdangle (hdangles.mpr hdangle'))]
        by_cases hblock : Blocked dependents mode row
        · rw [if_pos hblock,if_pos (hblocked.mp hblock)]
        · rw [if_neg hblock,if_neg (fun hblock' => hblock (hblocked.mpr hblock'))]
    · rw [if_pos hoffer,if_pos (fun hoffer' => hoffer (hoffered.mpr hoffer'))]
  · rw [if_pos hpass,if_pos (fun hpass' => hpass (hpasses.mpr hpass')),
      paired.crossRuling_eq alike.repeats alike.orders hrow hother]

theorem accepted_iff (hrow : rows[index]? = some row) (hother : others[index]? = some other) :
    Accepted tables dependents mode rows index row ↔ Accepted tables dependents mode others index other := by
  rw [← ruling_none,← ruling_none,alike.ruling_eq paired hrow hother]

end Alike

theorem sameVerdicts_rulings (paired : Paired texts rows others) :
    SameVerdicts tables dependents mode rows others ↔
      ∀ (index : ℕ) (row other : SourceRow), rows[index]? = some row → others[index]? = some other →
        ruling tables dependents mode rows index row = ruling tables dependents mode others index other ∧
        (Accepted tables dependents mode rows index row → Accepted tables dependents mode others index other →
          RowAction.parse? (actionName (existingRecord tables row).isSome mode) =
            RowAction.parse? (actionName (existingRecord tables other).isSome mode)) := by
  obtain ⟨hraw,hraw'⟩ := paired.raw
  constructor
  · intro h index row other hrow hother
    obtain ⟨out,hout,-,hcode,hkept⟩ := verdict_get hraw tables dependents mode hrow
    obtain ⟨out',hout',-,hcode',hkept'⟩ := verdict_get hraw' tables dependents mode hother
    obtain ⟨hsame,haction⟩ := h index out out' hout hout'
    refine ⟨by rw [← hcode,← hcode',hsame],fun haccepted haccepted' => ?_⟩
    rw [hkept haccepted,hkept' haccepted',
      storedAction_acted (hraw row (List.mem_of_getElem? hrow)) haccepted.offered.passes.fresh.1,
      storedAction_acted (hraw' other (List.mem_of_getElem? hother)) haccepted'.offered.passes.fresh.1] at haction
    exact haction
  · intro h index out out' hout hout'
    have hlt := (List.getElem?_eq_some_iff.mp hout).1
    rw [validateRows_length] at hlt
    have hrow := List.getElem?_eq_getElem hlt
    obtain ⟨other,hother,-⟩ := paired.other_of hrow
    obtain ⟨hruling,haction⟩ := h index _ other hrow hother
    obtain ⟨found,hfound,-,hcode,hkept⟩ := verdict_get hraw tables dependents mode hrow
    obtain ⟨found',hfound',-,hcode',hkept'⟩ := verdict_get hraw' tables dependents mode hother
    obtain rfl := Option.some.inj (hfound.symm.trans hout)
    obtain rfl := Option.some.inj (hfound'.symm.trans hout')
    have hsame : errorCode found = errorCode found' := by rw [hcode,hcode',hruling]
    refine ⟨hsame,?_⟩
    cases hclean : ruling tables dependents mode rows index rows[index] with
    | some code =>
      rw [hclean] at hcode
      rw [storedAction_error (isSome_of_code hcode),
        storedAction_error (isSome_of_code (hsame.symm.trans hcode))]
    | none =>
      have haccepted := ruling_none.mp hclean
      have haccepted' := ruling_none.mp (hruling ▸ hclean)
      rw [hkept haccepted,hkept' haccepted',
        storedAction_acted (hraw _ (List.mem_of_getElem? hrow)) haccepted.offered.passes.fresh.1,
        storedAction_acted (hraw' other (List.mem_of_getElem? hother)) haccepted'.offered.passes.fresh.1]
      exact haction haccepted haccepted'

/-- Two spellings get the same verdicts exactly if their comparisons come out alike. -/
theorem sameVerdicts_iff (paired : Paired texts rows others) :
    SameVerdicts tables dependents mode rows others ↔ Alike tables dependents mode rows others := by
  rw [sameVerdicts_rulings paired]
  constructor
  · intro h
    have hruling : ∀ (index : ℕ) (row other : SourceRow), rows[index]? = some row → others[index]? = some other →
        ruling tables dependents mode rows index row = ruling tables dependents mode others index other :=
      fun index row other hrow hother => (h index row other hrow hother).1
    have repeats : SameRepeats rows others := by
      intro index row other hrow hother hnone
      have hnone' : other.error = none := (paired.row index row other hrow hother).error.symm.trans hnone
      rw [← ruling_repeats tables dependents mode hnone,
        ← ruling_repeats tables dependents mode hnone',
        hruling index row other hrow hother]
    have orders : SameOrders rows others := by
      intro index row other hrow hother hfresh
      have hfresh' := (paired.fresh_iff repeats hrow hother).mp hfresh
      rw [← ruling_collides tables dependents mode hfresh,
        ← ruling_collides tables dependents mode hfresh',
        hruling index row other hrow hother]
    have hoffered : ∀ (index : ℕ) (row other : SourceRow), rows[index]? = some row → others[index]? = some other →
        Passes rows index row →
        (Offered tables mode rows index row ↔ Offered tables mode others index other) := by
      intro index row other hrow hother hpasses
      have hpasses' := (paired.passes_iff repeats orders hrow hother).mp hpasses
      rw [← not_iff_not,← ruling_lost dependents hpasses,
        ← ruling_lost dependents hpasses',hruling index row other hrow hother]
    have dangles : ∀ (index : ℕ) (row other : SourceRow), rows[index]? = some row → others[index]? = some other →
        Offered tables mode rows index row →
        (Dangles tables mode rows row ↔ Dangles tables mode others other) := by
      intro index row other hrow hother hoffer
      have hoffer' := (hoffered index row other hrow hother hoffer.passes).mp hoffer
      rw [← ruling_dangles dependents hoffer,← ruling_dangles dependents hoffer',
        hruling index row other hrow hother]
    refine ⟨repeats,orders,?_,dangles,?_⟩
    · intro index row other hrow hother hpasses hreached
      have hoffer := hoffered index row other hrow hother hpasses
      have hpasses' := (paired.passes_iff repeats orders hrow hother).mp hpasses
      by_cases hmode : mode = .updateOnly ∨ mode = .deleteOnly
      · have hfound : Offered tables mode rows index row ↔ (existingRecord tables row).isSome = true :=
          ⟨fun h => h.found hmode,fun h => ⟨hpasses,fun _ => h⟩⟩
        have hfound' : Offered tables mode others index other ↔ (existingRecord tables other).isSome = true :=
          ⟨fun h => h.found hmode,fun h => ⟨hpasses',fun _ => h⟩⟩
        rw [Bool.eq_iff_iff,← hfound,← hfound',hoffer]
      · have haccepted : Accepted tables dependents mode rows index row :=
          ⟨⟨hpasses,fun h => absurd h hmode⟩,hreached.resolve_left hmode,fun h => hmode (.inr h.1)⟩
        obtain ⟨hsame,haction⟩ := h index row other hrow hother
        have haccepted' := ruling_none.mp (hsame ▸ ruling_none.mpr haccepted)
        exact parse_actionName hmode (haction haccepted haccepted')
    · intro index row other hrow hother hoffer hfound
      have hoffer' := (hoffered index row other hrow hother hoffer.passes).mp hoffer
      have hfound' := fun hdangle => hfound ((dangles index row other hrow hother hoffer).mpr hdangle)
      rw [← ruling_blocked hoffer hfound,← ruling_blocked hoffer' hfound',hruling index row other hrow hother]
  · intro alike index row other hrow hother
    refine ⟨alike.ruling_eq paired hrow hother,fun haccepted _ => ?_⟩
    rw [alike.found index row other hrow hother haccepted.offered.passes (.inr haccepted.referred)]

end LatexCore.Imports
