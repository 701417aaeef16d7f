import LatexCore.Imports.Modes

/-! # Deletions judged by their keys

Once every line without a formula is valid, the comparison of rows leaves a deletion as it
is exactly if the Writers and leaders of its teams are in order, and the verdicts are then
those of the keys exactly if all references are found.
-/
namespace LatexCore.Imports
open Core Foundation

variable {texts : Texts} {limits : ImportLimits} {line : Line} {row : SourceRow}
variable {tables : Tables} {dependents : Dependents} {lines : List Line} {rows : List SourceRow} {index : ℕ}

/-! ## The comparison of rows -/

theorem checkTeam_eq_iff {sheet : Bool} {tally : WriterTally} (hteams : row.dataset = .paperTeams)
    (hnone : row.error = none) : checkTeam sheet tally row = row ↔
      (sheet = true → teamOf row ∈ tally.writers) ∧ tally.leaders.count (teamOf row) ≤ 1 := by
  have herror : ∀ (row' : SourceRow) (code message : String), row'.fail code message ≠ row := by
    rintro row' code message rfl
    simp [SourceRow.fail] at hnone
  rw [checkTeam,if_pos ⟨hteams,by rw [hnone]; rfl⟩]
  dsimp only
  split
  · next hmany => exact iff_of_false (herror _ _ _) (fun h => absurd hmany (by omega))
  · next hfew =>
    split
    · next hmissing =>
      refine iff_of_false (herror _ _ _) (fun h => ?_)
      simp only [Bool.and_eq_true,Bool.not_eq_true',List.contains_eq_mem,decide_eq_false_iff_not] at hmissing
      exact hmissing.2 (h.1 hmissing.1)
    · next hthere =>
      simp only [Bool.and_eq_true,Bool.not_eq_true',List.contains_eq_mem,decide_eq_false_iff_not,not_and,
        not_not] at hthere
      exact iff_of_true rfl ⟨hthere,by omega⟩

theorem countP_pointwise {α β : Type} {xs : List α} {ys : List β} {p : α → Bool} {q : β → Bool}
    (hlength : xs.length = ys.length)
    (h : ∀ (index : ℕ) (x : α) (y : β), xs[index]? = some x → ys[index]? = some y → p x = q y) :
    xs.countP p = ys.countP q := by
  have hmap : xs.map p = ys.map q := by
    refine List.ext_getElem (by simpa using hlength) fun index hx hy => ?_
    rw [List.length_map] at hx hy
    rw [List.getElem_map,List.getElem_map]
    exact h index _ _ (List.getElem?_eq_getElem hx) (List.getElem?_eq_getElem hy)
  calc xs.countP p = (xs.map p).countP id := by rw [List.countP_map]; rfl
    _ = (ys.map q).countP id := by rw [hmap]
    _ = ys.countP q := by rw [List.countP_map]; rfl

theorem writer_dataset (h : line.writer = true) : line.dataset = .paperTeamWriters := by
  rw [Line.writer,Bool.and_eq_true,decide_eq_true_eq] at h
  exact h.1

namespace Known
variable (known : Known texts limits .deleteOnly tables lines rows)
include known

theorem clean_iff : (∀ line ∈ lines, line.formulaError = none → line.Valid texts) ↔
    ∀ (index : ℕ) (line : Line) (row : SourceRow), lines[index]? = some line → rows[index]? = some row →
      line.formulaError = none → row.error = none := by
  constructor
  · intro h index line row hline hrow hformula
    exact (known.error_none (.inr rfl) hline hrow).mpr ⟨hformula,h line (List.mem_of_getElem? hline) hformula⟩
  · intro h line hmem hformula
    obtain ⟨index,hline⟩ := List.mem_iff_getElem?.mp hmem
    obtain ⟨row,hrow⟩ := known.row_of hline
    exact ((known.error_none (.inr rfl) hline hrow).mp (h index line row hline hrow hformula)).2

variable (clean : ∀ line ∈ lines, line.formulaError = none → line.Valid texts)
include clean

theorem isWriter_eq (hline : lines[index]? = some line) (hrow : rows[index]? = some row) :
    isWriter row = line.writer := by
  rw [Bool.eq_iff_iff,known.isWriter_iff (.inr rfl) hline hrow,Line.writer,Bool.and_eq_true,decide_eq_true_eq,
    Option.isNone_iff_eq_none]
  constructor
  · rintro ⟨hwriters,hformula,-⟩
    exact ⟨hwriters,hformula⟩
  · rintro ⟨hwriters,hformula⟩
    exact ⟨hwriters,hformula,clean line (List.mem_of_getElem? hline) hformula⟩

theorem distinctOrders_lines : DistinctOrders rows ↔ lines.Pairwise (fun line other =>
    line.writer = true → other.writer = true → line.pair ≠ other.pair) := by
  constructor
  · intro h
    refine pairwise_of_get fun first second line other hline hother hlt hwriter hwriter' heq => ?_
    obtain ⟨row,hrow⟩ := known.row_of hline
    obtain ⟨row',hrow'⟩ := known.row_of hother
    refine distinctOrders_iff.mp h second row' hrow' (by rwa [known.isWriter_eq clean hother hrow']) ?_
    refine ⟨first,hlt,row,hrow,by rwa [known.isWriter_eq clean hline hrow],?_⟩
    rw [known.pair_eq hline hrow (writer_dataset hwriter),known.pair_eq hother hrow' (writer_dataset hwriter'),heq]
  · intro h
    refine distinctOrders_iff.mpr ?_
    rintro second row' hrow' hwriter' ⟨first,hlt,row,hrow,hwriter,heq⟩
    obtain ⟨line,hline⟩ := known.line_of hrow
    obtain ⟨other,hother⟩ := known.line_of hrow'
    rw [known.isWriter_eq clean hline hrow] at hwriter
    rw [known.isWriter_eq clean hother hrow'] at hwriter'
    rw [known.pair_eq hline hrow (writer_dataset hwriter),known.pair_eq hother hrow' (writer_dataset hwriter')] at heq
    exact pairwise_get h hline hother hlt hwriter hwriter' heq

theorem leaders_lines (team : String) :
    rows.countP (fun row => isWriter row && isLeader row && teamOf row == team) =
      lines.countP (fun line => line.writer && line.leads && line.pair.1 == team) := by
  refine countP_pointwise known.parsed.length.symm fun index row line hrow hline => ?_
  have view := known.view hline hrow
  rw [known.isWriter_eq clean hline hrow]
  cases hwriter : line.writer with
  | false => rfl
  | true =>
    have hwriters := writer_dataset hwriter
    have hnone : row.error = none := by
      have hcounted := known.isWriter_eq clean hline hrow
      rw [hwriter,isWriter,Bool.and_eq_true] at hcounted
      exact Option.isNone_iff_eq_none.mp hcounted.2
    have hleader : isLeader row = line.leads := by
      rw [isLeader,view.leader hnone hwriters]
      cases line.leads <;> rfl
    have hteam : teamOf row = line.pair.1 := congrArg Prod.fst (known.pair_eq hline hrow hwriters)
    rw [hleader,hteam]

theorem writers_lines (team : String) :
    (∃ row ∈ rows, isWriter row = true ∧ teamOf row = team) ↔
      ∃ line ∈ lines, line.writer = true ∧ line.pair.1 = team := by
  constructor
  · rintro ⟨row,hmem,hwriter,hteam⟩
    obtain ⟨index,hrow⟩ := List.mem_iff_getElem?.mp hmem
    obtain ⟨line,hline⟩ := known.line_of hrow
    rw [known.isWriter_eq clean hline hrow] at hwriter
    have hpair : teamOf row = line.pair.1 :=
      congrArg Prod.fst (known.pair_eq hline hrow (writer_dataset hwriter))
    exact ⟨line,List.mem_of_getElem? hline,hwriter,hpair ▸ hteam⟩
  · rintro ⟨line,hmem,hwriter,hteam⟩
    obtain ⟨index,hline⟩ := List.mem_iff_getElem?.mp hmem
    obtain ⟨row,hrow⟩ := known.row_of hline
    have hpair : teamOf row = line.pair.1 :=
      congrArg Prod.fst (known.pair_eq hline hrow (writer_dataset hwriter))
    exact ⟨row,List.mem_of_getElem? hrow,by rwa [known.isWriter_eq clean hline hrow],hpair.trans hteam⟩

omit clean in
theorem includesWriters_lines : includesWriters rows = true ↔ ∃ line ∈ lines, line.dataset = .paperTeamWriters := by
  rw [includesWriters,List.any_eq_true]
  constructor
  · rintro ⟨row,hmem,hwriters⟩
    obtain ⟨index,hrow⟩ := List.mem_iff_getElem?.mp hmem
    obtain ⟨line,hline⟩ := known.line_of hrow
    exact ⟨line,List.mem_of_getElem? hline,(known.view hline hrow).dataset ▸ of_decide_eq_true hwriters⟩
  · rintro ⟨line,hmem,hwriters⟩
    obtain ⟨index,hline⟩ := List.mem_iff_getElem?.mp hmem
    obtain ⟨row,hrow⟩ := known.row_of hline
    exact ⟨row,List.mem_of_getElem? hrow,decide_eq_true ((known.view hline hrow).dataset.trans hwriters)⟩

theorem crossRows_eq_iff : validateCrossRows rows = rows ↔
    lines.Pairwise (fun line other => line.writer = true → other.writer = true → line.pair ≠ other.pair) ∧
    ∀ line ∈ lines, line.dataset = .paperTeams → line.formulaError = none →
      ((∃ other ∈ lines, other.dataset = .paperTeamWriters) →
        ∃ other ∈ lines, other.writer = true ∧ other.pair.1 = line.pair.1) ∧
      lines.countP (fun other => other.writer && other.leads && other.pair.1 == line.pair.1) ≤ 1 := by
  rw [← known.distinctOrders_lines clean]
  have hteam : DistinctOrders rows → ∀ (index : ℕ) (line : Line) (row : SourceRow), lines[index]? = some line →
      rows[index]? = some row → line.dataset = .paperTeams → line.formulaError = none →
      (checkTeam (includesWriters rows) (markWriterOrders ⟨[],[],[]⟩ rows).2 row = row ↔
        ((∃ other ∈ lines, other.dataset = .paperTeamWriters) →
          ∃ other ∈ lines, other.writer = true ∧ other.pair.1 = line.pair.1) ∧
        lines.countP (fun other => other.writer && other.leads && other.pair.1 == line.pair.1) ≤ 1) := by
    intro hdistinct index line row hline hrow hteams hformula
    have view := known.view hline hrow
    have hnone := known.clean_iff.mp clean index line row hline hrow hformula
    obtain ⟨hwriters,hleaders⟩ := @markWriterOrders_tally ⟨[],[],[]⟩ rows hdistinct (by simp) (teamOf row)
    have hpair : teamOf row = line.pair.1 := congrArg Prod.fst (view.pair_eq (.inr hteams))
    rw [checkTeam_eq_iff (view.dataset.trans hteams) hnone,hwriters,hleaders,known.leaders_lines clean,
      known.writers_lines clean,known.includesWriters_lines,hpair]
    simp
  constructor
  · intro hcross
    have hdistinct : DistinctOrders rows := by
      refine distinctOrders_iff.mpr fun index row hrow hwriter hearlier => ?_
      have hrepeated := crossRows_repeated known.distinct hrow hwriter hearlier
      rw [hcross,hrow,Option.some.injEq] at hrepeated
      have hnone : row.error = none := by
        rw [isWriter,Bool.and_eq_true] at hwriter
        exact Option.isNone_iff_eq_none.mp hwriter.2
      rw [hrepeated] at hnone
      exact absurd hnone (by simp [repeatedOrder,SourceRow.fail])
    refine ⟨hdistinct,fun line hmem hteams hformula => ?_⟩
    obtain ⟨index,hline⟩ := List.mem_iff_getElem?.mp hmem
    obtain ⟨row,hrow⟩ := known.row_of hline
    refine (hteam hdistinct index line row hline hrow hteams hformula).mp ?_
    have hkept := crossRows_kept known.distinct hrow (distinctOrders_iff.mp hdistinct index row hrow)
    rw [hcross,hrow,Option.some.injEq] at hkept
    exact hkept.symm
  · rintro ⟨hdistinct,hteams⟩
    refine List.ext_getElem? fun index => ?_
    cases hrow : rows[index]? with
    | none =>
      rw [List.getElem?_eq_none_iff] at hrow ⊢
      rwa [validateCrossRows_length rows known.distinct]
    | some row =>
      rw [crossRows_kept known.distinct hrow (distinctOrders_iff.mp hdistinct index row hrow)]
      obtain ⟨line,hline⟩ := known.line_of hrow
      have view := known.view hline hrow
      by_cases hdataset : line.dataset = .paperTeams
      · cases hformula : line.formulaError with
        | some message => rw [checkTeam_error (by rw [view.error_formula hformula]; rfl)]
        | none =>
          rw [(hteam hdistinct index line row hline hrow hdataset hformula).mpr
            (hteams line (List.mem_of_getElem? hline) hdataset hformula)]
      · rw [checkTeam_other (fun hrowTeams => hdataset (view.dataset ▸ hrowTeams))]

end Known

/-! ## Verdicts -/

def deleted (tables : Tables) (row : SourceRow) : SourceRow :=
  { row with
    existingPayload := (existingRecord tables row).map Value.obj
    payload := row.payload.set "__action" (.str "DELETE") }

def assignedRows (tables : Tables) (rows : List SourceRow) : List SourceRow :=
  (validateCrossRows rows).map (assignAction tables .deleteOnly)

theorem final_get (h : (validateCrossRows rows)[index]? = some row) :
    (validateRows tables dependents .deleteOnly rows)[index]? = some (checkDependencies dependents
      (checkReferences tables (assignedRows tables rows) (assignAction tables .deleteOnly row))) := by
  rw [validateRows,if_pos rfl,validateDatabaseReferences,List.getElem?_map,List.getElem?_map,List.getElem?_map,h]
  rfl

theorem final_error (h : (validateCrossRows rows)[index]? = some row) (herror : row.error.isSome = true) :
    (validateRows tables dependents .deleteOnly rows)[index]? = some row := by
  rw [final_get h,assignAction_error herror,checkReferences_error herror,checkDependencies_error herror]

theorem assign_delete (hnone : row.error = none) (haction : row.payload.get? "__action" = none)
    (hpresent : (existingRecord tables row).isSome = true) :
    assignAction tables .deleteOnly row = deleted tables row := by
  have hskip : ¬(row.error.isSome ∨ actionFor row = "SKIP" ∨ actionFor row = "DELETE") := by
    simp [hnone,actionFor,haction]
  obtain ⟨record,hrecord⟩ := Option.isSome_iff_exists.mp hpresent
  rw [assignAction,if_neg hskip]
  simp [hrecord,deleted,actionName]

theorem verdict_clean (hformula : line.formulaError = none) :
    verdict dependents line = none ∨ verdict dependents line = some "DELETE_BLOCKED_DEPENDENCY" := by
  rw [verdict,hformula]
  simp only [Option.isSome_none,Bool.false_eq_true,if_false]
  split
  · exact .inr rfl
  · exact .inl rfl

theorem dependencyKey_key (dataset : Dataset) : (dependencyKey dataset).all (· ∈ dataset.spec.keys) = true := by
  cases dataset <;> decide

theorem dependencies_key (dataset : Dataset) {payload cells : Value}
    (h : ∀ column ∈ dataset.spec.keys, textValue payload column = textValue cells column) :
    dependenciesOf dependents dataset payload = dependenciesOf dependents dataset (naturalKeyOf dataset cells) := by
  rw [dependenciesOf,dependenciesOf]
  cases hkey : dependencyKey dataset with
  | none => rfl
  | some column =>
    have hcolumn : column ∈ dataset.spec.keys := by
      have hall := dependencyKey_key dataset
      rw [hkey] at hall
      simpa using hall
    have hsame : textValue (naturalKeyOf dataset cells) column = textValue cells column := by
      rw [textValue,naturalKeyOf_get hcolumn,Option.bind_some,textValue]
      cases cells.get? column <;> rfl
    rw [Option.bind_some,Option.bind_some,h column hcolumn,hsame]

theorem code_dependencies (hnone : row.error = none) (haction : actionFor row = "DELETE") :
    errorCode (checkDependencies dependents row) =
      if dependenciesOf dependents row.dataset row.payload ≠ [] then some "DELETE_BLOCKED_DEPENDENCY" else none := by
  rw [checkDependencies,if_pos ⟨by rw [hnone]; rfl,haction⟩]
  dsimp only
  split
  · rfl
  · rw [errorCode,hnone]
    rfl

theorem checkReferences_none {assigned : List SourceRow} (hnone : row.error = none) :
    (checkReferences tables assigned row = row ∧
      ∀ reference ∈ checkedReferences row.dataset, referenceMissing tables assigned row.payload reference = false) ∨
    errorCode (checkReferences tables assigned row) = some "INVALID_FK" ∧
      ∃ reference ∈ checkedReferences row.dataset, referenceMissing tables assigned row.payload reference = true := by
  rw [checkReferences,hnone]
  simp only [Option.isSome_none,Bool.false_eq_true,if_false]
  split
  · next hfound =>
    refine .inl ⟨rfl,fun reference hreference => ?_⟩
    simpa using List.find?_eq_none.mp hfound reference hreference
  · next reference hfound =>
    exact .inr ⟨rfl,reference,List.mem_of_find?_eq_some hfound,List.find?_some hfound⟩

theorem cellError_code {mode : ImportMode} {dataset : Dataset} {cells : Value} {error : RowError}
    (h : cellError texts mode dataset cells = some error) : error.1 ≠ "DELETE_BLOCKED_DEPENDENCY" := by
  simp only [cellError,Option.or_eq_some_iff] at h
  rcases h with h | ⟨-,h | ⟨-,h | ⟨-,h | ⟨-,h⟩⟩⟩⟩
  · obtain ⟨field,-,rfl⟩ := Option.map_eq_some_iff.mp h
    simp
  · obtain ⟨field,-,rfl⟩ := Option.map_eq_some_iff.mp h
    simp
  · obtain ⟨field,-,rfl⟩ := Option.map_eq_some_iff.mp h
    simp
  · obtain ⟨field,-,-,rfl⟩ := checkEmails_some h
    simp
  · have hcode := checkLeader_code dataset cells
    rw [h] at hcode
    have hboolean : error.1 = "INVALID_BOOLEAN" := by simpa using hcode
    simp [hboolean]

namespace Known
variable (known : Known texts limits .deleteOnly tables lines rows)
include known

theorem judged_cross (judged : JudgedByKey tables dependents lines rows) :
    (∀ line ∈ lines, line.formulaError = none → line.Valid texts) ∧ validateCrossRows rows = rows := by
  have hcode : ∀ (index : ℕ) (line : Line) (row : SourceRow) (error : RowError), lines[index]? = some line →
      (validateCrossRows rows)[index]? = some row → line.formulaError = none → row.error = some error →
      error.1 = "DELETE_BLOCKED_DEPENDENCY" := by
    intro index line row error hline hcross hformula herror
    have hjudged := judged index line row hline (final_error hcross (by rw [herror]; rfl))
    rw [errorCode,herror,Option.map_some] at hjudged
    rcases verdict_clean hformula with hclean | hclean
    · rw [hclean] at hjudged
      exact absurd hjudged (by simp)
    · rw [hclean] at hjudged
      exact Option.some.inj hjudged
  have hclean : ∀ (index : ℕ) (line : Line) (row : SourceRow), lines[index]? = some line →
      rows[index]? = some row → line.formulaError = none → row.error = none := by
    intro index line row hline hrow hformula
    by_contra hsome
    obtain ⟨error,herror⟩ := Option.ne_none_iff_exists'.mp hsome
    have hcross := crossRows_error known.distinct hrow (by rw [herror]; rfl)
    have hcells := (known.view hline hrow).error_cells hformula
    rw [herror] at hcells
    exact cellError_code hcells.symm (hcode index line row error hline hcross hformula herror)
  refine ⟨known.clean_iff.mpr hclean,List.ext_getElem? fun index => ?_⟩
  cases hrow : rows[index]? with
  | none =>
    rw [List.getElem?_eq_none_iff] at hrow ⊢
    rwa [validateCrossRows_length rows known.distinct]
  | some row =>
    obtain ⟨line,hline⟩ := known.line_of hrow
    cases hfirst : row.error with
    | some error => exact crossRows_error known.distinct hrow (by rw [hfirst]; rfl)
    | none =>
      have hformula := ((known.error_none (.inr rfl) hline hrow).mp hfirst).1
      by_cases hrepeated : isWriter row = true ∧ Earlier rows index (orderPair row)
      · have hcross := crossRows_repeated known.distinct hrow hrepeated.1 hrepeated.2
        exact absurd (hcode index line _ _ hline hcross hformula rfl) (by simp)
      · have hcross := crossRows_kept known.distinct hrow
          (fun hwriter hearlier => hrepeated ⟨hwriter,hearlier⟩)
        rcases checkTeam_cases (includesWriters rows) (markWriterOrders ⟨[],[],[]⟩ rows).2 row with
          hkept | ⟨code,message,hrefused,herror⟩
        · rw [hcross,hkept]
        · have hblocked := hcode index line _ _ hline hcross hformula herror
          simp only [List.mem_cons,List.not_mem_nil,or_false,formulaInKeyCode] at hrefused
          rcases hrefused with rfl | rfl | rfl
          all_goals exact absurd hblocked (by simp)

variable (clean : ∀ line ∈ lines, line.formulaError = none → line.Valid texts)
include clean

theorem assigned_get (hline : lines[index]? = some line) (hrow : rows[index]? = some row)
    (hformula : line.formulaError = none) :
    assignAction tables .deleteOnly row = deleted tables row ∧ (deleted tables row).error = none := by
  have hnone := known.clean_iff.mp clean index line row hline hrow hformula
  exact ⟨assign_delete hnone (known.view hline hrow).action (known.present row (List.mem_of_getElem? hrow)),hnone⟩

variable (hcross : validateCrossRows rows = rows)
include hcross

theorem uploadedKey_lines (dataset : Dataset) (value : String) :
    uploadedKey (assignedRows tables rows) dataset value = true ↔
      ∃ other ∈ lines, other.formulaError = none ∧ other.dataset = dataset ∧ some value ∈ other.key := by
  rw [uploadedKey,assignedRows,hcross,List.any_map,List.any_eq_true]
  simp only [Function.comp_apply,Bool.and_eq_true,Option.isNone_iff_eq_none,decide_eq_true_eq,
    List.contains_eq_mem]
  constructor
  · rintro ⟨row,hmem,⟨hnone,hdataset⟩,hkey⟩
    obtain ⟨index,hrow⟩ := List.mem_iff_getElem?.mp hmem
    obtain ⟨line,hline⟩ := known.line_of hrow
    have view := known.view hline hrow
    cases hformula : line.formulaError with
    | some message =>
      have herror := view.error_formula hformula
      rw [assignAction_error (by rw [herror]; rfl),herror] at hnone
      exact absurd hnone (by simp)
    | none =>
      obtain ⟨hassigned,-⟩ := known.assigned_get clean hline hrow hformula
      rw [hassigned] at hdataset hkey
      refine ⟨line,List.mem_of_getElem? hline,hformula,view.dataset ▸ hdataset,?_⟩
      rw [← view.keyToken_eq]
      exact hkey
  · rintro ⟨line,hmem,hformula,hdataset,hkey⟩
    obtain ⟨index,hline⟩ := List.mem_iff_getElem?.mp hmem
    obtain ⟨row,hrow⟩ := known.row_of hline
    have view := known.view hline hrow
    obtain ⟨hassigned,hnone⟩ := known.assigned_get clean hline hrow hformula
    refine ⟨row,List.mem_of_getElem? hrow,?_⟩
    rw [hassigned]
    refine ⟨⟨hnone,view.dataset.trans hdataset⟩,?_⟩
    rw [← view.keyToken_eq] at hkey
    exact hkey

theorem referenceMissing_lines (hline : lines[index]? = some line) (hrow : rows[index]? = some row)
    {reference : String × Dataset} (hreference : reference ∈ checkedReferences line.dataset) :
    referenceMissing tables (assignedRows tables rows) (deleted tables row).payload reference = false ↔
      ∀ value, filledValue line.cells reference.1 = some value →
        ((tables reference.2).get? [value]).isSome = true ∨
          ∃ other ∈ lines, other.formulaError = none ∧ other.dataset = reference.2 ∧ some value ∈ other.key := by
  have view := known.view hline hrow
  obtain ⟨hemail,hleader,haction⟩ := reference_column line.dataset reference hreference
  have hfilled : filledValue (deleted tables row).payload reference.1 = filledValue line.cells reference.1 := by
    rw [filledValue,filledValue,← view.text hemail hleader,textValue,deleted,Value.get?_set_of_ne haction,textValue]
  rw [referenceMissing,hfilled]
  cases filledValue line.cells reference.1 with
  | none => simp
  | some value =>
    have huploaded := known.uploadedKey_lines clean hcross reference.2 value
    rw [Option.any_some,Bool.and_eq_false_iff,Bool.not_eq_false',huploaded,Option.isNone_eq_false_iff]
    simp only [Option.some.injEq,forall_eq']

/-- After a comparison that refuses nothing, the verdicts are those of the keys exactly if all
references are found. -/
theorem judged_iff : JudgedByKey tables dependents lines rows ↔
    ∀ line ∈ lines, line.formulaError = none → ∀ reference ∈ checkedReferences line.dataset, ∀ value,
      filledValue line.cells reference.1 = some value → ((tables reference.2).get? [value]).isSome = true ∨
        ∃ other ∈ lines, other.formulaError = none ∧ other.dataset = reference.2 ∧ some value ∈ other.key := by
  have hfinal : ∀ (index : ℕ) (row : SourceRow), rows[index]? = some row →
      (validateRows tables dependents .deleteOnly rows)[index]? = some (checkDependencies dependents
        (checkReferences tables (assignedRows tables rows) (assignAction tables .deleteOnly row))) := by
    intro index row hrow
    exact final_get (by rw [hcross]; exact hrow)
  constructor
  · intro judged line hmem hformula reference hreference
    obtain ⟨index,hline⟩ := List.mem_iff_getElem?.mp hmem
    obtain ⟨row,hrow⟩ := known.row_of hline
    have view := known.view hline hrow
    obtain ⟨hassigned,hnone⟩ := known.assigned_get clean hline hrow hformula
    have hjudged := judged index line _ hline (hfinal index row hrow)
    rw [hassigned] at hjudged
    have hdataset : (deleted tables row).dataset = line.dataset := view.dataset
    rcases checkReferences_none hnone with
      ⟨-,hfound⟩ | ⟨hcode,-⟩
    · rw [hdataset] at hfound
      exact (known.referenceMissing_lines clean hcross hline hrow hreference).mp (hfound reference hreference)
    · obtain ⟨error,herror,-⟩ := Option.map_eq_some_iff.mp hcode
      rw [checkDependencies_error (by rw [herror]; rfl),hcode] at hjudged
      rcases verdict_clean hformula with hclean | hclean
      · rw [hclean] at hjudged
        exact absurd hjudged (by simp)
      · rw [hclean] at hjudged
        exact absurd hjudged (by simp)
  · intro hreferences index line row' hline hrow'
    obtain ⟨row,hrow⟩ := known.row_of hline
    have view := known.view hline hrow
    rw [hfinal index row hrow,Option.some.injEq] at hrow'
    subst hrow'
    cases hformula : line.formulaError with
    | some message =>
      have herror := view.error_formula hformula
      have hsome : row.error.isSome = true := by rw [herror]; rfl
      rw [assignAction_error hsome,checkReferences_error hsome,checkDependencies_error hsome,errorCode,herror,
        verdict,hformula]
      rfl
    | none =>
      obtain ⟨hassigned,hnone⟩ := known.assigned_get clean hline hrow hformula
      have hdataset : (deleted tables row).dataset = line.dataset := view.dataset
      rw [hassigned]
      rcases checkReferences_none hnone with
        ⟨hkept,-⟩ | ⟨-,reference,hreference,hmissing⟩
      · have haction : actionFor (deleted tables row) = "DELETE" := by
          rw [actionFor,deleted,get?_set view.object,if_pos rfl]
          rfl
        have hkeys : ∀ column ∈ line.dataset.spec.keys,
            textValue (deleted tables row).payload column = textValue line.cells column := by
          intro column hcolumn
          obtain ⟨hemail,hleader,hspec⟩ := key_column line.dataset column hcolumn
          have hne : column ≠ "__action" := by
            rintro rfl
            exact (no_action line.dataset).1 (by rwa [trim_column _ _ hspec])
          rw [← view.text hemail hleader,textValue,deleted,Value.get?_set_of_ne hne,textValue]
        rw [hkept,code_dependencies hnone haction,hdataset,dependencies_key line.dataset hkeys,verdict,hformula]
        rfl
      · rw [hdataset] at hreference
        rw [(known.referenceMissing_lines clean hcross hline hrow hreference).mpr
          (hreferences line (List.mem_of_getElem? hline) hformula reference hreference)] at hmissing
        exact absurd hmissing Bool.false_ne_true

end Known

theorem deleteClean_iff (known : Known texts limits .deleteOnly tables lines rows) :
    ModeAware tables dependents .deleteOnly lines rows ↔ DeleteClean texts tables lines := by
  constructor
  · rintro ⟨-,hjudged⟩
    obtain ⟨clean,hcross⟩ := known.judged_cross (hjudged rfl)
    obtain ⟨horders,hteams⟩ := (known.crossRows_eq_iff clean).mp hcross
    exact ⟨clean,horders,fun line hline hdataset hformula => (hteams line hline hdataset hformula).1,
      fun line hline hdataset hformula => (hteams line hline hdataset hformula).2,
      (known.judged_iff clean hcross).mp (hjudged rfl)⟩
  · intro h
    have hcross := (known.crossRows_eq_iff h.cells).mpr ⟨h.orders,fun line hline hdataset hformula =>
      ⟨h.writers line hline hdataset hformula,h.leaders line hline hdataset hformula⟩⟩
    refine ⟨?_,fun _ => (known.judged_iff h.cells hcross).mpr h.references⟩
    intro index line row error column hline hrow herror hblames
    rw [hcross] at hrow
    cases hformula : line.formulaError with
    | some message =>
      rw [(known.view hline hrow).error_formula hformula,Option.some.injEq] at herror
      exact absurd (herror ▸ hblames) (not_blames (by simp [formulaInKeyCode]))
    | none =>
      rw [known.clean_iff.mp h.cells index line row hline hrow hformula] at herror
      exact absurd herror (by simp)

/-! ## Uploads with the key columns only -/

def ModeClean (texts : Texts) (tables : Tables) (mode : ImportMode) (lines : List Line) : Prop :=
  (mode = .updateOnly → UpdateClean texts lines) ∧ (mode = .deleteOnly → DeleteClean texts tables lines)

/-- An update or a deletion whose keys are distinct and present is judged without the columns that it
does not have, and a deletion by its keys alone, exactly if it is clean. -/
theorem mode_aware_iff (texts : Texts) (limits : ImportLimits) (tables : Tables) (dependents : Dependents)
    (mode : ImportMode) (lines : List Line) (rows : List SourceRow)
    (partial_mode : mode = .updateOnly ∨ mode = .deleteOnly) (known : Known texts limits mode tables lines rows) :
    ModeAware tables dependents mode lines rows ↔ ModeClean texts tables mode lines := by
  rcases partial_mode with rfl | rfl
  · have hupdate := blameless_update_iff known
    constructor
    · intro h
      exact ⟨fun _ => hupdate.mp h.1,nofun⟩
    · intro h
      exact ⟨hupdate.mpr (h.1 rfl),nofun⟩
  · have hdelete : ModeAware tables dependents .deleteOnly lines rows ↔ _ := deleteClean_iff known
    constructor
    · intro h
      exact ⟨nofun,fun _ => hdelete.mp h⟩
    · intro h
      exact hdelete.mpr (h.2 rfl)

def oneRecord (key : RecordKey) (record : Record) : Records := ⟨[(key,record)],List.nodup_singleton key⟩

def writerTables : Tables
  | .students => oneRecord ["S1"] [("reg_no",.str "S1")]
  | .paperTeams => oneRecord ["T1"] [("external_team_key",.str "T1"),("team_name",.str "Team")]
  | .paperTeamWriters => oneRecord ["T1","S1"] [("external_team_key",.str "T1"),("student_reg_no",.str "S1"),
      ("writer_order",.num 1),("is_leader",.bool true)]
  | _ => Table.empty

def noDependents : Dependents := fun _ _ => []

def writerLine : Line := ⟨.paperTeamWriters,["external_team_key","student_reg_no"],["T1","S1"],none⟩

def writerRow : SourceRow where
  uploadIndex := 0
  dataset := .paperTeamWriters
  rowNumber := 2
  naturalKey := .obj [("external_team_key",.str "T1"),("student_reg_no",.str "S1")]
  payload := .obj [("external_team_key",.str "T1"),("student_reg_no",.str "S1"),("is_leader",.bool false)]
  existingPayload := none
  error := some ("INVALID_BOOLEAN","is_leader must be true or false")

theorem known_single {mode : ImportMode} (h : RowOf texts limits mode line row)
    (hpresent : (existingRecord tables row).isSome = true) : Known texts limits mode tables [line] [row] := by
  refine ⟨⟨rfl,?_⟩,List.nodup_singleton _,by simpa using hpresent⟩
  intro index other found hother hfound
  cases index with
  | zero =>
    obtain rfl : line = other := by simpa using hother
    obtain rfl : row = found := by simpa using hfound
    exact h
  | succ index => simp at hother

theorem writerLine_known {mode : ImportMode} (hmode : mode = .updateOnly ∨ mode = .deleteOnly) :
    Known noTexts .default mode writerTables [writerLine] [writerRow] := by
  refine known_single ?_ (by decide)
  rcases hmode with rfl | rfl
  · exact ⟨by decide,2,0,rfl⟩
  · exact ⟨by decide,2,0,rfl⟩

/-- The refusal of the row names a column that the file does not have. -/
theorem writerLine_blamed {mode : ImportMode} :
    ¬ModeAware writerTables noDependents mode [writerLine] [writerRow] := by
  intro h
  have hcross := @crossRows_error [writerRow] 0 writerRow (List.nodup_singleton _) rfl rfl
  have hcolumn : "is_leader" ∈ writerLine.headers.map trim :=
    (h.1 0 writerLine writerRow _ "is_leader" rfl hcross rfl (by simp [Blames])).1
  revert hcolumn
  decide

/-- Updates and deletions of Writers by their keys are refused for the leader that the file does not
have. -/
theorem writer_refused :
    (Known noTexts .default .updateOnly writerTables [writerLine] [writerRow] ∧
      ¬ModeAware writerTables noDependents .updateOnly [writerLine] [writerRow]) ∧
    Known noTexts .default .deleteOnly writerTables [writerLine] [writerRow] ∧
      ¬ModeAware writerTables noDependents .deleteOnly [writerLine] [writerRow] :=
  ⟨⟨writerLine_known (.inl rfl),writerLine_blamed⟩,writerLine_known (.inr rfl),writerLine_blamed⟩

def studentLine : Line := ⟨.students,["reg_no"],["S1"],none⟩

def numberedRow : SourceRow where
  uploadIndex := 0
  dataset := .students
  rowNumber := 2
  naturalKey := .obj [("reg_no",.str "S1")]
  payload := .obj [("reg_no",.str "S1")]
  existingPayload := none
  error := none

theorem studentLine_valid : studentLine.Valid noTexts := by
  refine ⟨nofun,nofun,?_,nofun⟩
  intro field hfield value hvalue
  obtain rfl : field = "email" := by simpa [studentLine,Dataset.spec] using hfield
  have hempty : filledValue studentLine.cells "email" = none := by decide
  exact absurd (hempty.symm.trans hvalue) (by simp)

theorem studentLine_clean : DeleteClean noTexts writerTables [studentLine] := by
  have hstudents : studentLine.dataset ≠ .paperTeams := by decide
  refine ⟨?_,List.pairwise_singleton _ _,?_,?_,?_⟩
  · simpa using fun _ => studentLine_valid
  · simpa using fun h => absurd h hstudents
  · simpa using fun h => absurd h hstudents
  · simp only [List.mem_singleton,forall_eq]
    intro _ reference hreference value hvalue
    obtain rfl : reference = ("programme_code",.programmes) := by
      simpa [studentLine,checkedReferences,Dataset.references] using hreference
    have hempty : filledValue studentLine.cells "programme_code" = none := by decide
    exact absurd (hempty.symm.trans hvalue) (by simp)

/-- The deletion of a student by the number is judged by the number alone. -/
theorem student_judged : ModeAware writerTables noDependents .deleteOnly [studentLine] [numberedRow] :=
  (mode_aware_iff noTexts .default writerTables noDependents .deleteOnly [studentLine] [numberedRow] (.inr rfl)
    (known_single ⟨by decide,2,0,rfl⟩ (by decide))).mpr ⟨nofun,fun _ => studentLine_clean⟩

end LatexCore.Imports
