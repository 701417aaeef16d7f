import LatexCore.Imports.Deletions

/-! # What validation finds

The checks of an upload as statements about its parsed rows: which rows repeat a key,
which Writers collide, which teams have two leaders or no Writer, which rows name a record
and which references are found. Every row ends with the code of the first statement that
is true of it, and a row without one with the action of its record.
-/
namespace LatexCore.Imports
open Core Foundation

variable {tables : Tables} {dependents : Dependents} {mode : ImportMode}
variable {rows : List SourceRow} {row : SourceRow} {index : ℕ}

def Repeats (rows : List SourceRow) (index : ℕ) (row : SourceRow) : Prop :=
  ∃ k < index, ∃ other, rows[k]? = some other ∧ other.error = none ∧
    (other.dataset,keyToken other) = (row.dataset,keyToken row)

def Fresh (rows : List SourceRow) (index : ℕ) (row : SourceRow) : Prop :=
  row.error = none ∧ ¬Repeats rows index row

def Collides (rows : List SourceRow) (index : ℕ) (row : SourceRow) : Prop :=
  row.dataset = .paperTeamWriters ∧ ∃ k < index, ∃ other, rows[k]? = some other ∧ Fresh rows k other ∧
    other.dataset = .paperTeamWriters ∧ orderPair other = orderPair row

def WritesFor (rows : List SourceRow) (team : String) (index : ℕ) (row : SourceRow) : Prop :=
  row.dataset = .paperTeamWriters ∧ Fresh rows index row ∧ ¬Collides rows index row ∧ teamOf row = team

def LedTwice (rows : List SourceRow) (team : String) : Prop :=
  ∃ first second one other, first < second ∧ rows[first]? = some one ∧ rows[second]? = some other ∧
    (WritesFor rows team first one ∧ isLeader one = true) ∧ WritesFor rows team second other ∧ isLeader other = true

def Unwritten (rows : List SourceRow) (team : String) : Prop :=
  includesWriters rows = true ∧ ¬∃ k other, rows[k]? = some other ∧ WritesFor rows team k other

structure Passes (rows : List SourceRow) (index : ℕ) (row : SourceRow) : Prop where
  fresh : Fresh rows index row
  apart : ¬Collides rows index row
  led : row.dataset = .paperTeams → ¬LedTwice rows (teamOf row)
  written : row.dataset = .paperTeams → ¬Unwritten rows (teamOf row)

structure Offered (tables : Tables) (mode : ImportMode) (rows : List SourceRow) (index : ℕ) (row : SourceRow) :
    Prop where
  passes : Passes rows index row
  found : mode = .updateOnly ∨ mode = .deleteOnly → (existingRecord tables row).isSome = true

def Dangles (tables : Tables) (mode : ImportMode) (rows : List SourceRow) (row : SourceRow) : Prop :=
  ∃ reference ∈ checkedReferences row.dataset, ∃ value, filledValue row.payload reference.1 = some value ∧
    (tables reference.2).get? [value] = none ∧
    ∀ k other, rows[k]? = some other → Offered tables mode rows k other → other.dataset = reference.2 →
      some value ∉ keyToken other

def Blocked (dependents : Dependents) (mode : ImportMode) (row : SourceRow) : Prop :=
  mode = .deleteOnly ∧ dependenciesOf dependents row.dataset row.payload ≠ []

/-! ## Repeated keys -/

def repeatedKey (row : SourceRow) : SourceRow :=
  row.fail "DUPLICATE_KEY" "duplicate primary key within import source"

theorem repeats_zero : ¬Repeats rows 0 row := by
  rintro ⟨k,hk,-⟩
  omega

theorem repeats_succ {first : SourceRow} {rest : List SourceRow} : Repeats (first :: rest) (index + 1) row ↔
    first.error = none ∧ (first.dataset,keyToken first) = (row.dataset,keyToken row) ∨ Repeats rest index row := by
  constructor
  · rintro ⟨k,hk,other,hother,hsame⟩
    cases k with
    | zero =>
      obtain rfl : first = other := by simpa using hother
      exact .inl hsame
    | succ k => exact .inr ⟨k,by omega,other,by simpa using hother,hsame⟩
  · rintro (hsame | ⟨k,hk,other,hother,hsame⟩)
    · exact ⟨0,by omega,first,rfl,hsame⟩
    · exact ⟨k + 1,by omega,other,by simpa using hother,hsame⟩

theorem markDuplicates_cons (seen : List (Dataset × List (Option String))) (row : SourceRow)
    (rest : List SourceRow) : markDuplicates seen (row :: rest) =
      if row.error = none then
        if (row.dataset,keyToken row) ∈ seen then repeatedKey row :: markDuplicates seen rest
        else row :: markDuplicates ((row.dataset,keyToken row) :: seen) rest
      else row :: markDuplicates seen rest := by
  rw [markDuplicates]
  cases herror : row.error with
  | some error => simp
  | none =>
    simp only [Option.isSome_none,Bool.false_eq_true,if_false,List.contains_eq_mem,decide_eq_true_eq,if_true]
    rfl

theorem markDuplicates_length (seen : List (Dataset × List (Option String))) (rows : List SourceRow) :
    (markDuplicates seen rows).length = rows.length := by
  induction rows generalizing seen with
  | nil => rfl
  | cons row rest ih =>
    rw [markDuplicates_cons]
    split
    · split
      · rw [List.length_cons,ih,List.length_cons]
      · rw [List.length_cons,ih,List.length_cons]
    · rw [List.length_cons,ih,List.length_cons]

theorem markDuplicates_repeated {seen : List (Dataset × List (Option String))} (hrow : rows[index]? = some row)
    (hnone : row.error = none) (hseen : (row.dataset,keyToken row) ∈ seen ∨ Repeats rows index row) :
    (markDuplicates seen rows)[index]? = some (repeatedKey row) := by
  induction rows generalizing seen index with
  | nil => simp at hrow
  | cons first rest ih =>
    rw [markDuplicates_cons]
    cases index with
    | zero =>
      obtain rfl : first = row := by simpa using hrow
      rw [if_pos hnone,if_pos (hseen.resolve_right repeats_zero)]
      rfl
    | succ index =>
      have hrest : rest[index]? = some row := by simpa using hrow
      rw [repeats_succ] at hseen
      split
      · next hfirst =>
        split
        · next hmem =>
          refine ih hrest ?_
          rcases hseen with hseen | ⟨-,heq⟩ | hseen
          · exact .inl hseen
          · exact .inl (heq ▸ hmem)
          · exact .inr hseen
        · refine ih hrest ?_
          rcases hseen with hseen | ⟨-,heq⟩ | hseen
          · exact .inl (List.mem_cons_of_mem _ hseen)
          · exact .inl (heq ▸ List.mem_cons_self)
          · exact .inr hseen
      · next hfirst =>
        refine ih hrest ?_
        rcases hseen with hseen | ⟨hnone,-⟩ | hseen
        · exact .inl hseen
        · exact absurd hnone hfirst
        · exact .inr hseen

theorem markDuplicates_kept {seen : List (Dataset × List (Option String))} (hrow : rows[index]? = some row)
    (hnew : row.error = none → (row.dataset,keyToken row) ∉ seen ∧ ¬Repeats rows index row) :
    (markDuplicates seen rows)[index]? = some row := by
  induction rows generalizing seen index with
  | nil => simp at hrow
  | cons first rest ih =>
    rw [markDuplicates_cons]
    cases index with
    | zero =>
      obtain rfl : first = row := by simpa using hrow
      split
      · next hnone =>
        rw [if_neg (hnew hnone).1]
        rfl
      · rfl
    | succ index =>
      have hrest : rest[index]? = some row := by simpa using hrow
      simp only [repeats_succ,not_or] at hnew
      split
      · next hfirst =>
        split
        · exact ih hrest (fun hnone => ⟨(hnew hnone).1,(hnew hnone).2.2⟩)
        · refine ih hrest (fun hnone => ⟨?_,(hnew hnone).2.2⟩)
          intro hmem
          rcases List.mem_cons.mp hmem with heq | hmem
          · exact (hnew hnone).2.1 ⟨hfirst,heq.symm⟩
          · exact (hnew hnone).1 hmem
      · exact ih hrest (fun hnone => ⟨(hnew hnone).1,(hnew hnone).2.2⟩)

def keyed (rows : List SourceRow) : List SourceRow := markDuplicates [] rows

theorem keyed_error {error : RowError} (hrow : rows[index]? = some row) (herror : row.error = some error) :
    (keyed rows)[index]? = some row :=
  markDuplicates_kept hrow (fun hnone => by simp [herror] at hnone)

theorem keyed_repeated (hrow : rows[index]? = some row) (hnone : row.error = none)
    (hrepeats : Repeats rows index row) : (keyed rows)[index]? = some (repeatedKey row) :=
  markDuplicates_repeated hrow hnone (.inr hrepeats)

theorem keyed_fresh (hrow : rows[index]? = some row) (hfresh : Fresh rows index row) :
    (keyed rows)[index]? = some row :=
  markDuplicates_kept hrow (fun _ => ⟨List.not_mem_nil,hfresh.2⟩)

theorem row_of_keyed {marked : SourceRow} (h : (keyed rows)[index]? = some marked) :
    ∃ row, rows[index]? = some row := by
  have hlt := (List.getElem?_eq_some_iff.mp h).1
  rw [keyed,markDuplicates_length] at hlt
  exact ⟨rows[index],List.getElem?_eq_getElem hlt⟩

theorem keyed_none {marked : SourceRow} (h : (keyed rows)[index]? = some marked) (hnone : marked.error = none) :
    rows[index]? = some marked ∧ Fresh rows index marked := by
  obtain ⟨row,hrow⟩ := row_of_keyed h
  cases herror : row.error with
  | some error =>
    rw [keyed_error hrow herror] at h
    obtain rfl := Option.some.inj h
    simp [herror] at hnone
  | none =>
    by_cases hrepeats : Repeats rows index row
    · rw [keyed_repeated hrow herror hrepeats] at h
      obtain rfl := Option.some.inj h
      simp [repeatedKey,SourceRow.fail] at hnone
    · rw [keyed_fresh hrow ⟨herror,hrepeats⟩] at h
      obtain rfl := Option.some.inj h
      exact ⟨hrow,herror,hrepeats⟩

/-! ## Orders of Writers -/

theorem isWriter_iff : isWriter row = true ↔ row.dataset = .paperTeamWriters ∧ row.error = none := by
  rw [isWriter,Bool.and_eq_true,decide_eq_true_eq,Option.isNone_iff_eq_none]

theorem earlier_keyed {pair : String × String} : Earlier (keyed rows) index pair ↔
    ∃ k < index, ∃ other, rows[k]? = some other ∧ Fresh rows k other ∧ other.dataset = .paperTeamWriters ∧
      orderPair other = pair := by
  constructor
  · rintro ⟨k,hk,other,hother,hwriter,hpair⟩
    obtain ⟨hwriters,hnone⟩ := isWriter_iff.mp hwriter
    obtain ⟨hrow,hfresh⟩ := keyed_none hother hnone
    exact ⟨k,hk,other,hrow,hfresh,hwriters,hpair⟩
  · rintro ⟨k,hk,other,hrow,hfresh,hwriters,hpair⟩
    exact ⟨k,hk,other,keyed_fresh hrow hfresh,isWriter_iff.mpr ⟨hwriters,hfresh.1⟩,hpair⟩

theorem collides_iff : Collides rows index row ↔
    row.dataset = .paperTeamWriters ∧ Earlier (keyed rows) index (orderPair row) := by
  rw [Collides,earlier_keyed]

def ordered (rows : List SourceRow) : List SourceRow := (markWriterOrders ⟨[],[],[]⟩ (keyed rows)).1

def tallied (rows : List SourceRow) : WriterTally := (markWriterOrders ⟨[],[],[]⟩ (keyed rows)).2

theorem ordered_error {marked : SourceRow} (h : (keyed rows)[index]? = some marked)
    (herror : marked.error.isSome = true) : (ordered rows)[index]? = some marked := by
  refine markWriterOrders_kept h (fun hwriter => ?_)
  rw [(isWriter_iff.mp hwriter).2] at herror
  exact absurd herror Bool.false_ne_true

theorem ordered_collides (hrow : rows[index]? = some row) (hfresh : Fresh rows index row)
    (hcollides : Collides rows index row) : (ordered rows)[index]? = some (repeatedOrder row) := by
  obtain ⟨hwriters,hearlier⟩ := collides_iff.mp hcollides
  exact markWriterOrders_repeated (keyed_fresh hrow hfresh) (isWriter_iff.mpr ⟨hwriters,hfresh.1⟩) (.inr hearlier)

theorem ordered_apart (hrow : rows[index]? = some row) (hfresh : Fresh rows index row)
    (hapart : ¬Collides rows index row) : (ordered rows)[index]? = some row := by
  refine markWriterOrders_kept (keyed_fresh hrow hfresh) (fun hwriter => ⟨List.not_mem_nil,fun hearlier => ?_⟩)
  exact hapart (collides_iff.mpr ⟨(isWriter_iff.mp hwriter).1,hearlier⟩)

theorem row_of_ordered {marked : SourceRow} (h : (ordered rows)[index]? = some marked) :
    ∃ row, rows[index]? = some row := by
  have hlt := (List.getElem?_eq_some_iff.mp h).1
  rw [ordered,markWriterOrders_length,keyed,markDuplicates_length] at hlt
  exact ⟨rows[index],List.getElem?_eq_getElem hlt⟩

theorem ordered_none {marked : SourceRow} (h : (ordered rows)[index]? = some marked) (hnone : marked.error = none) :
    rows[index]? = some marked ∧ Fresh rows index marked ∧ ¬Collides rows index marked := by
  obtain ⟨row,hrow⟩ := row_of_ordered h
  by_cases hfresh : Fresh rows index row
  · by_cases hcollides : Collides rows index row
    · rw [ordered_collides hrow hfresh hcollides] at h
      obtain rfl := Option.some.inj h
      simp [repeatedOrder,SourceRow.fail] at hnone
    · rw [ordered_apart hrow hfresh hcollides] at h
      obtain rfl := Option.some.inj h
      exact ⟨hrow,hfresh,hcollides⟩
  · cases herror : row.error with
    | some error =>
      rw [ordered_error (keyed_error hrow herror) (by rw [herror]; rfl)] at h
      obtain rfl := Option.some.inj h
      simp [herror] at hnone
    | none =>
      have hrepeats : Repeats rows index row := by
        by_contra hnot
        exact hfresh ⟨herror,hnot⟩
      rw [ordered_error (keyed_repeated hrow herror hrepeats) rfl] at h
      obtain rfl := Option.some.inj h
      simp [repeatedKey,SourceRow.fail] at hnone

theorem markWriterOrders_counts (tally : WriterTally) (rows : List SourceRow) (team : String) :
    (team ∈ (markWriterOrders tally rows).2.writers ↔ team ∈ tally.writers ∨
      ∃ row ∈ (markWriterOrders tally rows).1, isWriter row = true ∧ teamOf row = team) ∧
    (markWriterOrders tally rows).2.leaders.count team = tally.leaders.count team +
      (markWriterOrders tally rows).1.countP (fun row => isWriter row && isLeader row && teamOf row == team) := by
  induction rows generalizing tally with
  | nil => simp [markWriterOrders]
  | cons row rest ih =>
    rw [markWriterOrders_cons]
    split
    · next hwriter =>
      split
      · have hrefused : isWriter (repeatedOrder row) = false := by
          simp [isWriter,repeatedOrder,SourceRow.fail]
        obtain ⟨hwriters,hleaders⟩ := ih tally
        refine ⟨?_,?_⟩
        · rw [hwriters,List.exists_mem_cons_iff,hrefused]
          simp
        · rw [hleaders,List.countP_cons,hrefused]
          simp
      · obtain ⟨hwriters,hleaders⟩ := ih (tally.count row)
        refine ⟨?_,?_⟩
        · rw [hwriters,List.exists_mem_cons_iff]
          simp only [WriterTally.count,List.mem_cons,hwriter,true_and,or_assoc]
          constructor
          · rintro (rfl | hmem | hlater)
            · exact .inr (.inl rfl)
            · exact .inl hmem
            · exact .inr (.inr hlater)
          · rintro (hmem | rfl | hlater)
            · exact .inr (.inl hmem)
            · exact .inl rfl
            · exact .inr (.inr hlater)
        · rw [hleaders,List.countP_cons,hwriter]
          cases hleader : isLeader row
          · simp [WriterTally.count,hleader]
          · by_cases hteam : teamOf row = team
            · simp [WriterTally.count,hleader,hteam]
              omega
            · simp [WriterTally.count,hleader,hteam]
    · next hwriter =>
      obtain ⟨hwriters,hleaders⟩ := ih tally
      refine ⟨?_,?_⟩
      · rw [hwriters,List.exists_mem_cons_iff]
        simp [hwriter]
      · rw [hleaders,List.countP_cons]
        simp [hwriter]

theorem one_lt_countP {α : Type} {p : α → Bool} {xs : List α} : 1 < xs.countP p ↔
    ∃ (first second : ℕ) (one other : α), first < second ∧ xs[first]? = some one ∧ xs[second]? = some other ∧
      p one = true ∧ p other = true := by
  induction xs with
  | nil => simp
  | cons x rest ih =>
    have hlater : ∀ {y : α} {k : ℕ}, (x :: rest)[k]? = some y → 0 < k → rest[k - 1]? = some y := by
      intro y k hy hk
      obtain ⟨j,rfl⟩ := Nat.exists_eq_succ_of_ne_zero (by omega : k ≠ 0)
      simpa using hy
    rw [List.countP_cons]
    constructor
    · intro hlt
      by_cases hmany : 1 < rest.countP p
      · obtain ⟨first,second,one,other,hlt,hone,hother,hp⟩ := ih.mp hmany
        exact ⟨first + 1,second + 1,one,other,by omega,by simpa using hone,by simpa using hother,hp⟩
      · have hx : p x = true := by
          by_contra hnot
          rw [if_neg hnot] at hlt
          omega
        have hsome : 0 < rest.countP p := by
          rw [if_pos hx] at hlt
          omega
        obtain ⟨other,hmem,hother⟩ := List.countP_pos_iff.mp hsome
        obtain ⟨k,hk⟩ := List.mem_iff_getElem?.mp hmem
        exact ⟨0,k + 1,x,other,by omega,rfl,by simpa using hk,hx,hother⟩
    · rintro ⟨first,second,one,other,hlt,hone,hother,hp,hp'⟩
      have hother' := hlater hother (by omega)
      cases first with
      | zero =>
        obtain rfl : x = one := by simpa using hone
        have hpos : 0 < rest.countP p := List.countP_pos_iff.mpr ⟨other,List.mem_of_getElem? hother',hp'⟩
        rw [if_pos hp]
        omega
      | succ first =>
        have hmany : 1 < rest.countP p :=
          ih.mpr ⟨first,second - 1,one,other,by omega,by simpa using hone,hother',hp,hp'⟩
        omega

/-! ## Teams -/

theorem ordered_writer {marked : SourceRow} {team : String} : ((ordered rows)[index]? = some marked ∧
    isWriter marked = true ∧ teamOf marked = team) ↔ rows[index]? = some marked ∧ WritesFor rows team index marked := by
  constructor
  · rintro ⟨hmarked,hwriter,hteam⟩
    obtain ⟨hwriters,hnone⟩ := isWriter_iff.mp hwriter
    obtain ⟨hrow,hfresh,hapart⟩ := ordered_none hmarked hnone
    exact ⟨hrow,hwriters,hfresh,hapart,hteam⟩
  · rintro ⟨hrow,hwriters,hfresh,hapart,hteam⟩
    exact ⟨ordered_apart hrow hfresh hapart,isWriter_iff.mpr ⟨hwriters,hfresh.1⟩,hteam⟩

theorem mem_tallied {team : String} : team ∈ (tallied rows).writers ↔
    ∃ k other, rows[k]? = some other ∧ WritesFor rows team k other := by
  obtain ⟨hwriters,-⟩ := markWriterOrders_counts ⟨[],[],[]⟩ (keyed rows) team
  rw [tallied,hwriters]
  constructor
  · rintro (hnil | ⟨other,hmem,hwriter,hteam⟩)
    · exact absurd hnil List.not_mem_nil
    · obtain ⟨k,hk⟩ := List.mem_iff_getElem?.mp hmem
      exact ⟨k,other,ordered_writer.mp ⟨hk,hwriter,hteam⟩⟩
  · rintro ⟨k,other,hother⟩
    obtain ⟨hk,hwriter,hteam⟩ := ordered_writer.mpr hother
    exact .inr ⟨other,List.mem_of_getElem? hk,hwriter,hteam⟩

theorem ledTwice_iff {team : String} : 1 < (tallied rows).leaders.count team ↔ LedTwice rows team := by
  obtain ⟨-,hleaders⟩ := markWriterOrders_counts ⟨[],[],[]⟩ (keyed rows) team
  rw [tallied,hleaders,List.count_nil,Nat.zero_add,one_lt_countP]
  have hleads : ∀ (k : ℕ) (other : SourceRow), (ordered rows)[k]? = some other ∧
      (isWriter other && isLeader other && teamOf other == team) = true ↔
        rows[k]? = some other ∧ WritesFor rows team k other ∧ isLeader other = true := by
    intro k other
    simp only [Bool.and_eq_true,beq_iff_eq]
    constructor
    · rintro ⟨hk,⟨hwriter,hleader⟩,hteam⟩
      obtain ⟨hrow,hwrites⟩ := ordered_writer.mp ⟨hk,hwriter,hteam⟩
      exact ⟨hrow,hwrites,hleader⟩
    · rintro ⟨hrow,hwrites,hleader⟩
      obtain ⟨hk,hwriter,hteam⟩ := ordered_writer.mpr ⟨hrow,hwrites⟩
      exact ⟨hk,⟨hwriter,hleader⟩,hteam⟩
  constructor
  · rintro ⟨first,second,one,other,hlt,hone,hother,hp,hp'⟩
    obtain ⟨hrow,hwrites⟩ := (hleads first one).mp ⟨hone,hp⟩
    obtain ⟨hrow',hwrites'⟩ := (hleads second other).mp ⟨hother,hp'⟩
    exact ⟨first,second,one,other,hlt,hrow,hrow',hwrites,hwrites'⟩
  · rintro ⟨first,second,one,other,hlt,hrow,hrow',hwrites,hwrites'⟩
    obtain ⟨hone,hp⟩ := (hleads first one).mpr ⟨hrow,hwrites⟩
    obtain ⟨hother,hp'⟩ := (hleads second other).mpr ⟨hrow',hwrites'⟩
    exact ⟨first,second,one,other,hlt,hone,hother,hp,hp'⟩

theorem crossRows_eq (rows : List SourceRow) :
    validateCrossRows rows = (ordered rows).map (checkTeam (includesWriters rows) (tallied rows)) := rfl

theorem crossRows_length (rows : List SourceRow) : (validateCrossRows rows).length = rows.length := by
  rw [crossRows_eq,List.length_map,ordered,markWriterOrders_length,keyed,markDuplicates_length]

open Classical in
/-- The code of the first statement of the comparison that is true of the row. -/
noncomputable def crossRuling (rows : List SourceRow) (index : ℕ) (row : SourceRow) : Option String :=
  if row.error ≠ none then errorCode row
  else if Repeats rows index row then some "DUPLICATE_KEY"
  else if Collides rows index row then some "DUPLICATE_WRITER_ORDER"
  else if row.dataset = .paperTeams ∧ LedTwice rows (teamOf row) then some "MULTIPLE_LEADERS"
  else if row.dataset = .paperTeams ∧ Unwritten rows (teamOf row) then some "TEAM_HAS_NO_WRITER"
  else none

theorem crossRuling_passes (hpasses : Passes rows index row) : crossRuling rows index row = none := by
  obtain ⟨⟨hnone,hfirst⟩,hapart,hled,hwritten⟩ := hpasses
  rw [crossRuling,if_neg (not_not_intro hnone),if_neg hfirst,if_neg hapart,if_neg (fun h => hled h.1 h.2),
    if_neg (fun h => hwritten h.1 h.2)]

theorem isSome_of_code {code : String} (h : errorCode row = some code) : row.error.isSome = true := by
  obtain ⟨error,herror,-⟩ := Option.map_eq_some_iff.mp h
  rw [herror]
  rfl

theorem code_checkTeam (rows : List SourceRow) (hteams : row.dataset = .paperTeams) (hnone : row.error = none) :
    (LedTwice rows (teamOf row) → errorCode (checkTeam (includesWriters rows) (tallied rows) row) =
      some "MULTIPLE_LEADERS") ∧
    (¬LedTwice rows (teamOf row) → Unwritten rows (teamOf row) →
      errorCode (checkTeam (includesWriters rows) (tallied rows) row) = some "TEAM_HAS_NO_WRITER") ∧
    (¬LedTwice rows (teamOf row) → ¬Unwritten rows (teamOf row) →
      checkTeam (includesWriters rows) (tallied rows) row = row) := by
  have hmissing : (includesWriters rows && !(tallied rows).writers.contains (teamOf row)) = true ↔
      Unwritten rows (teamOf row) := by
    rw [Unwritten,Bool.and_eq_true,Bool.not_eq_true',← Bool.not_eq_true,List.contains_iff_mem,mem_tallied]
  rw [checkTeam,if_pos ⟨hteams,by rw [hnone]; rfl⟩]
  dsimp only
  rw [← hmissing]
  refine ⟨?_,?_,?_⟩
  · intro hled
    rw [if_pos (ledTwice_iff.mpr hled)]
    rfl
  · intro hled hunwritten
    rw [if_neg (fun hlt => hled (ledTwice_iff.mp hlt)),if_pos hunwritten]
    rfl
  · intro hled hwritten
    rw [if_neg (fun hlt => hled (ledTwice_iff.mp hlt)),if_neg hwritten]

structure SamePlace (row other : SourceRow) : Prop where
  upload : row.uploadIndex = other.uploadIndex
  dataset : row.dataset = other.dataset
  number : row.rowNumber = other.rowNumber

theorem samePlace_refl (row : SourceRow) : SamePlace row row := ⟨rfl,rfl,rfl⟩

theorem samePlace_fail (row : SourceRow) (code message : String) : SamePlace (row.fail code message) row :=
  ⟨rfl,rfl,rfl⟩

theorem SamePlace.trans {other third : SourceRow} (h : SamePlace row other) (h' : SamePlace other third) :
    SamePlace row third :=
  ⟨h.upload.trans h'.upload,h.dataset.trans h'.dataset,h.number.trans h'.number⟩

theorem samePlace_checkTeam (sheet : Bool) (tally : WriterTally) (row : SourceRow) :
    SamePlace (checkTeam sheet tally row) row := by
  unfold checkTeam
  split
  · dsimp only
    split
    · split
      · exact ⟨rfl,rfl,rfl⟩
      · exact samePlace_fail _ _ _
    · split
      · exact samePlace_fail _ _ _
      · exact samePlace_refl row
  · exact samePlace_refl row

theorem crossed_get (hrow : rows[index]? = some row) : ∃ out, (validateCrossRows rows)[index]? = some out ∧
    SamePlace out row ∧ errorCode out = crossRuling rows index row ∧ (Passes rows index row → out = row) ∧
    (¬Passes rows index row → out.error.isSome = true) := by
  have hcross : ∀ marked : SourceRow, (ordered rows)[index]? = some marked → (validateCrossRows rows)[index]? =
      some (checkTeam (includesWriters rows) (tallied rows) marked) := by
    intro marked hmarked
    rw [crossRows_eq,List.getElem?_map,hmarked]
    rfl
  have hrefused : ∀ (marked : SourceRow) (code : String), (ordered rows)[index]? = some marked →
      SamePlace marked row → errorCode marked = some code → crossRuling rows index row = some code →
      ¬Passes rows index row → ∃ out, (validateCrossRows rows)[index]? = some out ∧ SamePlace out row ∧
        errorCode out = crossRuling rows index row ∧ (Passes rows index row → out = row) ∧
        (¬Passes rows index row → out.error.isSome = true) := by
    intro marked code hmarked hplace hcode hruling hnot
    refine ⟨marked,?_,hplace,hcode.trans hruling.symm,fun h => absurd h hnot,fun _ => isSome_of_code hcode⟩
    rw [hcross marked hmarked,checkTeam_error (isSome_of_code hcode)]
  cases herror : row.error with
  | some error =>
    have hruling : crossRuling rows index row = errorCode row := by
      rw [crossRuling,if_pos (by rw [herror]; exact Option.some_ne_none error)]
    refine hrefused row error.1 (ordered_error (keyed_error hrow herror) (by rw [herror]; rfl))
      (samePlace_refl row) ?_ ?_ ?_
    · rw [errorCode,herror]
      rfl
    · rw [hruling,errorCode,herror]
      rfl
    · intro hpasses
      rw [hpasses.fresh.1] at herror
      cases herror
  | none =>
    by_cases hrepeats : Repeats rows index row
    · refine hrefused (repeatedKey row) _ (ordered_error (keyed_repeated hrow herror hrepeats) rfl)
        (samePlace_fail _ _ _) rfl ?_ ?_
      · rw [crossRuling,if_neg (not_not_intro herror),if_pos hrepeats]
      · exact fun hpasses => hpasses.fresh.2 hrepeats
    have hfresh : Fresh rows index row := ⟨herror,hrepeats⟩
    by_cases hcollides : Collides rows index row
    · refine hrefused (repeatedOrder row) _ (ordered_collides hrow hfresh hcollides)
        (samePlace_fail _ _ _) rfl ?_ ?_
      · rw [crossRuling,if_neg (not_not_intro herror),if_neg hrepeats,if_pos hcollides]
      · exact fun hpasses => hpasses.apart hcollides
    have hordered := ordered_apart hrow hfresh hcollides
    by_cases hteams : row.dataset = .paperTeams
    · obtain ⟨hled,hunwritten,hkept⟩ := code_checkTeam rows hteams herror
      refine ⟨_,hcross row hordered,samePlace_checkTeam _ _ row,?_,?_,?_⟩
      · rw [crossRuling,if_neg (not_not_intro herror),if_neg hrepeats,if_neg hcollides]
        by_cases htwice : LedTwice rows (teamOf row)
        · rw [if_pos ⟨hteams,htwice⟩,hled htwice]
        · rw [if_neg (fun h => htwice h.2)]
          by_cases hmissing : Unwritten rows (teamOf row)
          · rw [if_pos ⟨hteams,hmissing⟩,hunwritten htwice hmissing]
          · rw [if_neg (fun h => hmissing h.2),hkept htwice hmissing,errorCode,herror]
            rfl
      · exact fun hpasses => hkept (hpasses.led hteams) (hpasses.written hteams)
      · intro hnot
        by_cases htwice : LedTwice rows (teamOf row)
        · exact isSome_of_code (hled htwice)
        · by_cases hmissing : Unwritten rows (teamOf row)
          · exact isSome_of_code (hunwritten htwice hmissing)
          · exact absurd ⟨hfresh,hcollides,fun _ => htwice,fun _ => hmissing⟩ hnot
    · have hpasses : Passes rows index row :=
        ⟨hfresh,hcollides,fun h => absurd h hteams,fun h => absurd h hteams⟩
      refine ⟨row,?_,samePlace_refl row,?_,fun _ => rfl,fun hnot => absurd hpasses hnot⟩
      · rw [hcross row hordered,checkTeam_other hteams]
      · rw [crossRuling_passes hpasses,errorCode,herror]
        rfl

end LatexCore.Imports
