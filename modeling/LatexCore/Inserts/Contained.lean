import LatexCore.Inserts.Meanings

/-! # What the inserts are read as

An insert is read as it is meant unless a text ends the bracket or the setting that it
stands in, or its braces are not balanced for BibTeX.
-/
namespace LatexCore.Inserts
open Foundation Foundation.Tex

/-! ## Tables -/

theorem lined_bottomrule : Lined (lit "\\bottomrule") [call "bottomrule"] :=
  lined_call (by simp [lit_eq]) (by rw [lit_eq]; decide)

theorem lined_centering : Lined (lit "\\centering") [call "centering"] :=
  lined_call (by simp [lit_eq]) (by rw [lit_eq]; decide)

theorem lined_midrule : Lined (lit "\\midrule") [call "midrule"] :=
  lined_call (by simp [lit_eq]) (by rw [lit_eq]; decide)

theorem lined_toprule : Lined (lit "\\toprule") [call "toprule"] :=
  lined_call (by simp [lit_eq]) (by rw [lit_eq]; decide)

theorem isText_of_isDigit {c : Char} (h : c.isDigit = true) : isText c = true := by
  by_contra hc
  simp only [isText,Bool.and_eq_true,decide_eq_true_eq,not_and_or,not_not,ne_eq] at hc
  rcases hc with (((rfl | rfl) | rfl) | rfl) | rfl <;> cases h

theorem cell_text {o : TableOptions} {row column : ℕ} : ∀ c ∈ o.cell row column, isText c = true := by
  have hdigits : ∀ n, ∀ c ∈ Nat.toDigits 10 n, isText c = true :=
    fun n c hc => isText_of_isDigit (Nat.isDigit_of_mem_toDigits (by decide) (by decide) hc)
  have hheader : ∀ c ∈ lit "Header ", isText c = true := by rw [lit_eq]; decide
  have hcell : ∀ c ∈ lit "Cell ", isText c = true := by rw [lit_eq]; decide
  have hdot : ∀ c ∈ ['.'], isText c = true := by decide
  unfold TableOptions.cell
  split
  · exact List.forall_mem_append.mpr ⟨hheader,hdigits _⟩
  · refine List.forall_mem_append.mpr ⟨List.forall_mem_append.mpr ⟨List.forall_mem_append.mpr ⟨hcell,hdigits _⟩,hdot⟩,
      hdigits _⟩

theorem cells_text (o : TableOptions) (row : ℕ) : ∀ c ∈ o.cells row ++ [' '], isText c = true := by
  have hsep : ∀ c ∈ lit " & ", isText c = true := by rw [lit_eq]; decide
  intro c hc
  rcases List.mem_append.mp hc with hc | hc
  · rcases mem_intercalate hc with hc | ⟨cell,hcell,hc⟩
    · exact hsep c hc
    · obtain ⟨column,-,rfl⟩ := List.mem_map.mp hcell
      exact cell_text c hc
  · rw [List.mem_singleton.mp hc]
    decide

theorem lined_row (o : TableOptions) (row : ℕ) :
    Lined (o.cells row ++ lit " \\\\") (chars (o.cells row ++ [' ']) ++ [.plain (.call ['\\'])]) := by
  refine ⟨?_,regular_chars (cells_text o row) (regularParts_nil.cons_plain ⟨.inl ⟨'\\',rfl,rfl⟩,by decide,by decide⟩)⟩
  rw [printParts_chars,List.append_assoc,lit_eq]
  rfl

theorem lined_rowLines (o : TableOptions) (row : ℕ) : List.Forall₂ Lined (o.rowLines row) (o.meantRows row) := by
  unfold TableOptions.rowLines TableOptions.meantRows
  refine .cons (lined_row o row) ?_
  split
  · exact .cons (lined_midrule) .nil
  · exact .nil

theorem forall₂_flatMap {α β γ : Type} {r : β → γ → Prop} {f : α → List β} {g : α → List γ}
    (h : ∀ x, List.Forall₂ r (f x) (g x)) (xs : List α) : List.Forall₂ r (xs.flatMap f) (xs.flatMap g) :=
  List.rel_flatMap (List.forall₂_same.mpr fun _ _ => rfl) fun x _ hx => hx ▸ h x

def Prints (text : List Char) (lines : List (List Part)) : Prop :=
  ∃ texts, text = join texts ∧ List.Forall₂ Lined texts lines

theorem Prints.fragment_iff {text : List Char} {lines : List (List Part)} (h : Prints text lines)
    (hlevel : Level lines) : Fragment text lines ↔ ∀ line ∈ lines, ∀ part ∈ line, part.Contained := by
  obtain ⟨texts,rfl,hlined⟩ := h
  exact Tex.fragment_iff hlined hlevel

theorem lined_if {c : Prop} [Decidable c] {text : List Char} {parts : List Part} (h : Lined text parts) :
    List.Forall₂ Lined (if c then [text] else []) (if c then [parts] else []) := by
  split
  · exact .cons h .nil
  · exact .nil

theorem TableOptions.prints {o : TableOptions} (h : orElse o.placement (lit "htbp") = lit "htbp") :
    Prints (buildTable o) o.meant := by
  have htop := lined_if (c := o.booktabs = true) (lined_toprule)
  have hbottom := lined_if (c := o.booktabs = true) (lined_bottomrule)
  have hrows := forall₂_flatMap (lined_rowLines o) (List.range (clamp o.rows 1 30))
  have htabular := lined_within (lit "tabular") (regularParts_group o.alignmentLetters)
    (forall₂_append (forall₂_append htop hrows) hbottom)
  have hlines := lined_within (lit "table") (regularParts_bracket (lit "htbp"))
    (forall₂_append (.cons (lined_centering) htabular) (lined_captions o.caption o.label))
  refine ⟨_,?_,hlines⟩
  unfold buildTable
  rw [h]
  refine congrArg join ?_
  rw [printParts_group,printParts_bracket]
  simp only [List.append_assoc,List.cons_append,List.nil_append,lit_eq]
  rfl

/-- The rows and rules of a table have no arguments. -/
theorem TableOptions.body_plain (o : TableOptions) :
    ∀ line ∈ o.meantBody, ∀ part ∈ line, part.Neutral ∧ part.Contained := by
  have hcall : ∀ name, ∀ part ∈ [call name], part.Neutral ∧ part.Contained :=
    fun name => List.forall_mem_singleton.mpr ⟨trivial,trivial⟩
  have hrow : ∀ row, ∀ line ∈ o.meantRows row, ∀ part ∈ line, part.Neutral ∧ part.Contained := by
    intro row line hline part hpart
    rcases List.mem_cons.mp hline with rfl | hline
    · rcases List.mem_append.mp hpart with hpart | hpart
      · exact ⟨neutral_chars _ part hpart,contained_chars _ part hpart⟩
      · rw [List.mem_singleton.mp hpart]
        exact ⟨trivial,trivial⟩
    · split at hline
      · rw [List.mem_singleton.mp hline] at hpart
        exact hcall _ part hpart
      · cases hline
  have hrule : ∀ name, ∀ line ∈ (if o.booktabs = true then [[call name]] else []), ∀ part ∈ line,
      part.Neutral ∧ part.Contained := by
    intro name line hline part hpart
    split at hline
    · rw [List.mem_singleton.mp hline] at hpart
      exact hcall name part hpart
    · cases hline
  intro line hline
  rcases List.mem_append.mp hline with hline | hline
  · rcases List.mem_append.mp hline with hline | hline
    · exact hrule _ line hline
    · obtain ⟨row,-,hmem⟩ := List.mem_flatMap.mp hline
      exact hrow row line hmem
  · exact hrule _ line hline

theorem TableOptions.level (o : TableOptions) : Level o.meant := by
  have hbody : Level o.meantBody := level_neutral fun line hline part hpart => (o.body_plain line hline part hpart).1
  have hgroup : ∀ part ∈ [group o.alignmentLetters], part.Neutral := List.forall_mem_singleton.mpr trivial
  have hbracket : ∀ part ∈ [bracket (lit "htbp")], part.Neutral := List.forall_mem_singleton.mpr trivial
  have hcentering : Level [[call "centering"]] :=
    level_neutral (List.forall_mem_singleton.mpr (List.forall_mem_singleton.mpr trivial))
  exact level_within _ hbracket
    ((hcentering.append (level_within _ hgroup hbody)).append (level_captions o.caption o.label))

theorem alignmentLetters_group (o : TableOptions) : scanner.Contained '\x7d' o.alignmentLetters := by
  refine contained_plain fun c hc => ?_
  obtain ⟨index,-,rfl⟩ := List.mem_map.mp hc
  generalize (o.alignments[index]?).getD .other = alignment
  cases alignment <;> decide

theorem TableOptions.contained (o : TableOptions) : AllContained o.meant := by
  have hbody : AllContained o.meantBody := fun line hline part hpart => (o.body_plain line hline part hpart).2
  have hcentering : AllContained [[call "centering"]] :=
    List.forall_mem_singleton.mpr (List.forall_mem_singleton.mpr trivial)
  have hbracket : scanner.Contained ']' (lit "htbp") := by rw [lit_eq]; decide
  refine (allContained_within (by rw [lit_eq]; decide)).mpr ⟨List.forall_mem_singleton.mpr hbracket,?_⟩
  refine allContained_append.mpr ⟨allContained_append.mpr ⟨hcentering,?_⟩,allContained_captions o.caption o.label⟩
  exact (allContained_within (by rw [lit_eq]; decide)).mpr
    ⟨List.forall_mem_singleton.mpr (alignmentLetters_group o),hbody⟩

theorem table_fragment {o : TableOptions} (h : orElse o.placement (lit "htbp") = lit "htbp") :
    Fragment (buildTable o) o.meant :=
  ((TableOptions.prints h).fragment_iff o.level).mpr o.contained

/-! ## Figures -/

def PlainKey (key : List Char) : Prop :=
  scanner.Contained ']' key ∧ scanner.Contained ',' key ∧ keys.Contained '=' key

instance (key : List Char) : Decidable (PlainKey key) :=
  inferInstanceAs (Decidable (scanner.Contained ']' key ∧ scanner.Contained ',' key ∧ keys.Contained '=' key))

theorem regular_plain {key value : List Char} (hkey : PlainKey key) (hvalue : value.head? ≠ some '\x7b') :
    (Setting.plain key value).Regular := by
  refine ⟨hkey.1,hkey.2.1,hkey.2.2,?_⟩
  rintro _ _ ⟨⟩
  exact hvalue

theorem regular_braced {key : List Char} (value : List Char) (hkey : PlainKey key) :
    (Setting.braced key value).Regular :=
  ⟨hkey.1,hkey.2.1,hkey.2.2,fun _ _ h => (by cases h)⟩

theorem safeText_head (value : List Char) : (safeText value).head? ≠ some '\x7b' := by
  cases value with
  | nil => exact fun h => (by cases h)
  | cons c value =>
    have hcons : safeText (c :: value) = safeChar c ++ safeText value := List.flatMap_cons
    rw [hcons,safeChar]
    split
    · rw [lit_eq]
      exact fun h => absurd (Option.some.inj h) (by decide)
    · split
      · exact fun h => absurd (Option.some.inj h) (by decide)
      · next hspecial =>
        rintro h
        exact hspecial (.inl (Option.some.inj h))

theorem printParts_cons (part : Part) (parts : List Part) :
    printParts (part :: parts) = part.piece.print ++ printParts parts := rfl

theorem lined_graphics (path : List Char) :
    Lined (lit "\\includegraphics[width=" ++ lineWidth ++ lit "]\x7b" ++ path ++ lit "\x7d")
      [call "includegraphics",.settings [.plain (lit "width") lineWidth],group path] := by
  have hsettings : ∀ s ∈ [Setting.plain (lit "width") lineWidth], s.Regular :=
    List.forall_mem_singleton.mpr (regular_plain (by rw [lit_eq]; decide) (by rw [lineWidth,lit_eq]; decide))
  refine ⟨?_,regular_call ((regularParts_group path).cons_settings (List.cons_ne_nil _ _) hsettings)
    (by rw [lit_eq]; decide) ?_⟩
  · rw [printParts_cons,printParts_cons,printParts_group]
    simp [lit_eq,lineWidth,call,Part.piece,Piece.print,printSettings,Setting.print,Setting.key,Setting.value]
  · intro c hc
    obtain rfl := Option.some.inj hc
    rfl

theorem FigureOptions.prints {o : FigureOptions} (h : orElse o.placement (lit "htbp") = lit "htbp")
    (hwidth : o.givenWidth = lineWidth) : Prints (buildFigure o) o.meant := by
  have hlines := lined_within (lit "figure") (regularParts_bracket (lit "htbp"))
    (forall₂_append (.cons (lined_centering)
      (.cons (lined_graphics (safePath (orElse o.asset (lit "path/to/image")))) .nil))
      (lined_captions o.caption o.label))
  refine ⟨_,?_,hlines⟩
  unfold buildFigure
  rw [h,hwidth]
  refine congrArg join ?_
  rw [printParts_bracket]
  simp only [List.append_assoc,List.cons_append,List.nil_append,lit_eq]
  rfl

theorem level_centering : Level [[call "centering"]] :=
  level_neutral (List.forall_mem_singleton.mpr (List.forall_mem_singleton.mpr trivial))

theorem placement_contained : scanner.Contained ']' (lit "htbp") := by rw [lit_eq]; decide

theorem FigureOptions.level (o : FigureOptions) : Level o.meant := by
  have hbracket : ∀ part ∈ [bracket (lit "htbp")], part.Neutral := List.forall_mem_singleton.mpr trivial
  have hlines : Level [[call "centering"],[call "includegraphics",.settings [.plain (lit "width") lineWidth],
      group (safePath (orElse o.asset (lit "path/to/image")))]] := by
    refine level_neutral (List.forall_mem_cons.mpr ⟨List.forall_mem_singleton.mpr trivial,?_⟩)
    refine List.forall_mem_singleton.mpr (List.forall_mem_cons.mpr ⟨trivial,List.forall_mem_cons.mpr ⟨trivial,?_⟩⟩)
    exact List.forall_mem_singleton.mpr trivial
  exact level_within _ hbracket (hlines.append (level_captions o.caption o.label))

theorem FigureOptions.contained (o : FigureOptions) : AllContained o.meant := by
  have hwidth : ∀ s ∈ [Setting.plain (lit "width") lineWidth], s.Contained :=
    List.forall_mem_singleton.mpr ⟨by rw [lineWidth,lit_eq]; decide,by rw [lineWidth,lit_eq]; decide⟩
  refine (allContained_within (by rw [lit_eq]; decide)).mpr ⟨List.forall_mem_singleton.mpr placement_contained,?_⟩
  refine allContained_append.mpr ⟨?_,allContained_captions o.caption o.label⟩
  refine List.forall_mem_cons.mpr ⟨List.forall_mem_singleton.mpr trivial,List.forall_mem_singleton.mpr ?_⟩
  refine List.forall_mem_cons.mpr ⟨trivial,List.forall_mem_cons.mpr ⟨hwidth,?_⟩⟩
  exact List.forall_mem_singleton.mpr (safePath_group _)

theorem figure_fragment {o : FigureOptions} (h : orElse o.placement (lit "htbp") = lit "htbp")
    (hwidth : o.givenWidth = lineWidth) : Fragment (buildFigure o) o.meant :=
  ((FigureOptions.prints h hwidth).fragment_iff o.level).mpr o.contained

/-! ## Plots -/

theorem axis_text (o : PlotOptions) (h : orElse o.width lineWidth = lineWidth) :
    o.axisLine = (Piece.enter (lit "axis")).print ++ printParts [.settings o.axisSettings] := by
  unfold PlotOptions.axisLine PlotOptions.axisSettings whenGiven
  rw [h,printParts_settings]
  split <;> simp [lit_eq,lineWidth,printSettings,Setting.print,Setting.key,Setting.value,Piece.print,beginName]

theorem regular_axis (o : PlotOptions) : RegularParts [.settings o.axisSettings] := by
  refine regularParts_nil.cons_settings (List.cons_ne_nil _ _) (List.forall_mem_append.mpr ⟨?_,?_⟩)
  · refine List.forall_mem_cons.mpr ⟨regular_plain (by rw [lit_eq]; decide) (by rw [lineWidth,lit_eq]; decide),?_⟩
    refine List.forall_mem_cons.mpr ⟨regular_braced _ (by rw [lit_eq]; decide),?_⟩
    refine List.forall_mem_cons.mpr ⟨regular_braced _ (by rw [lit_eq]; decide),?_⟩
    exact List.forall_mem_singleton.mpr (regular_braced _ (by rw [lit_eq]; decide))
  · unfold whenGiven
    split
    · exact fun _ h => (by cases h)
    · exact List.forall_mem_singleton.mpr (regular_braced _ (by rw [lit_eq]; decide))

theorem axis_contained (o : PlotOptions) : ∀ s ∈ o.axisSettings, s.Contained := by
  refine List.forall_mem_append.mpr ⟨?_,?_⟩
  · refine List.forall_mem_cons.mpr ⟨⟨by rw [lineWidth,lit_eq]; decide,by rw [lineWidth,lit_eq]; decide⟩,?_⟩
    refine List.forall_mem_cons.mpr ⟨safeText_group _,List.forall_mem_cons.mpr ⟨safeText_group _,?_⟩⟩
    exact List.forall_mem_singleton.mpr (safeText_group _)
  · unfold whenGiven
    split
    · exact fun _ h => (by cases h)
    · exact List.forall_mem_singleton.mpr (safeText_group _)

theorem lined_addplot (o : PlotOptions) : Lined o.addplotLine o.meantAddplot := by
  have hcolumns : ∀ s ∈ o.columnSettings, s.Regular := by
    refine List.forall_mem_cons.mpr ⟨regular_plain (by rw [lit_eq]; decide) (safeText_head _),?_⟩
    refine List.forall_mem_cons.mpr ⟨regular_plain (by rw [lit_eq]; decide) (safeText_head _),?_⟩
    exact List.forall_mem_singleton.mpr (regular_plain (by rw [lit_eq]; decide) (by rw [lit_eq]; decide))
  have hend : RegularParts (chars [';'] ++ []) := regular_chars (by decide) regularParts_nil
  have hspace : ∀ c ∈ [' '], isText c = true := by decide
  have hword : ∀ c ∈ lit " table", isText c = true := by rw [lit_eq]; decide
  have hpath := regular_chars hspace (regular_group hend (safePath (orElse o.asset (lit "data.csv"))))
  have htable := regular_chars hword (hpath.cons_settings (List.cons_ne_nil _ _) hcolumns)
  refine ⟨?_,regular_call (regular_bracket htable o.plotOptions) (by rw [lit_eq]; decide) ?_⟩
  · unfold PlotOptions.addplotLine PlotOptions.meantAddplot
    rw [printParts_cons,printParts_cons,printParts_chars,printParts_cons,printParts_chars,printParts_cons,
      printParts_chars]
    simp [lit_eq,call,bracket,group,Part.piece,Piece.print,printParts,print,printSettings,PlotOptions.columnSettings,
      Setting.print,Setting.key,Setting.value]
  · intro c hc
    obtain rfl := Option.some.inj hc
    rfl

theorem not_mem_orElse {c : Char} {value fallback : List Char} (h : c ∉ fallback) :
    c ∉ orElse value fallback ↔ c ∉ value := by
  unfold orElse
  split
  · next hnil =>
    subst hnil
    simp [h]
  · exact Iff.rfl

theorem columns_contained (o : PlotOptions) : (∀ s ∈ o.columnSettings, s.Contained) ↔
    (']' ∉ o.x ∧ ',' ∉ o.x) ∧ ']' ∉ o.y ∧ ',' ∉ o.y := by
  have hsep : (Setting.plain (lit "col sep") (lit "comma")).Contained := ⟨by rw [lit_eq]; decide,by rw [lit_eq]; decide⟩
  have hplain : ∀ key value, (Setting.plain key (safeText value)).Contained ↔ ']' ∉ value ∧ ',' ∉ value :=
    fun key value => and_congr (safeText_contained (.inl rfl)) (safeText_contained (.inr rfl))
  unfold PlotOptions.columnSettings
  rw [List.forall_mem_cons,List.forall_mem_cons,List.forall_mem_singleton,hplain,hplain,
    not_mem_orElse (by rw [lit_eq]; decide),not_mem_orElse (by rw [lit_eq]; decide),
    not_mem_orElse (by rw [lit_eq]; decide),
    not_mem_orElse (by rw [lit_eq]; decide)]
  exact and_congr_right fun _ => and_iff_left hsep

theorem plotOptions_contained (o : PlotOptions) : scanner.Contained ']' o.plotOptions := by
  unfold PlotOptions.plotOptions
  dsimp only
  split
  · simp only [lit_eq]; decide
  · split
    · simp only [lit_eq]; decide
    · exact Scanner.contained_nil

theorem addplot_contained (o : PlotOptions) : (∀ part ∈ o.meantAddplot, part.Contained) ↔
    (']' ∉ o.x ∧ ',' ∉ o.x) ∧ ']' ∉ o.y ∧ ',' ∉ o.y := by
  have hbracket : (bracket o.plotOptions).Contained := plotOptions_contained o
  have hgroup : (group (safePath (orElse o.asset (lit "data.csv")))).Contained := safePath_group _
  have hsettings : (Part.settings o.columnSettings).Contained ↔ ∀ s ∈ o.columnSettings, s.Contained := Iff.rfl
  unfold PlotOptions.meantAddplot
  rw [List.forall_mem_cons,List.forall_mem_cons,List.forall_mem_append,List.forall_mem_cons,List.forall_mem_append,
    List.forall_mem_cons,List.append_nil,hsettings,columns_contained]
  exact ⟨fun h => h.2.2.2.1,fun h => ⟨trivial,hbracket,contained_chars _,h,contained_chars _,hgroup,contained_chars _⟩⟩

theorem PlotOptions.prints {o : PlotOptions} (h : orElse o.width lineWidth = lineWidth) :
    Prints (buildPlot o) o.meant := by
  have haxis := lined_within (lit "axis") (regular_axis o) (.cons (lined_addplot o) .nil)
  have hlines := lined_within (lit "figure") (regularParts_bracket (lit "htbp"))
    (forall₂_append (.cons (lined_centering)
      (lined_within (lit "tikzpicture") regularParts_nil haxis)) (lined_captions o.caption o.label))
  refine ⟨_,?_,hlines⟩
  unfold buildPlot
  refine congrArg join ?_
  rw [axis_text o h,printParts_bracket]
  simp only [List.append_assoc,List.cons_append,List.nil_append,lit_eq]
  rfl

theorem PlotOptions.level (o : PlotOptions) : Level o.meant := by
  have hbracket : ∀ part ∈ [bracket (lit "htbp")], part.Neutral := List.forall_mem_singleton.mpr trivial
  have hsettings : ∀ part ∈ [Part.settings o.axisSettings], part.Neutral := List.forall_mem_singleton.mpr trivial
  have haddplot : Level [o.meantAddplot] := by
    refine level_neutral (List.forall_mem_singleton.mpr ?_)
    unfold PlotOptions.meantAddplot
    refine List.forall_mem_cons.mpr ⟨trivial,List.forall_mem_cons.mpr ⟨trivial,?_⟩⟩
    refine List.forall_mem_append.mpr ⟨neutral_chars _,List.forall_mem_cons.mpr ⟨trivial,?_⟩⟩
    refine List.forall_mem_append.mpr ⟨neutral_chars _,List.forall_mem_cons.mpr ⟨trivial,?_⟩⟩
    rw [List.append_nil]
    exact neutral_chars _
  have htikz := level_within (lit "tikzpicture") (List.forall_mem_nil _) (level_within (lit "axis") hsettings haddplot)
  exact level_within _ hbracket ((level_centering.append htikz).append (level_captions o.caption o.label))

theorem plot_fragment {o : PlotOptions} (h : orElse o.width lineWidth = lineWidth) :
    Fragment (buildPlot o) o.meant ↔ (']' ∉ o.x ∧ ',' ∉ o.x) ∧ ']' ∉ o.y ∧ ',' ∉ o.y := by
  rw [(PlotOptions.prints h).fragment_iff o.level,← addplot_contained]
  have hcentering : AllContained [[call "centering"]] :=
    List.forall_mem_singleton.mpr (List.forall_mem_singleton.mpr trivial)
  have hwhole : AllContained o.meant ↔ AllContained [o.meantAddplot] := by
    unfold PlotOptions.meant
    rw [allContained_within (by rw [lit_eq]; decide),allContained_append,allContained_append,
      allContained_within (by rw [lit_eq]; decide),allContained_within (by rw [lit_eq]; decide)]
    constructor
    · intro hall
      exact hall.2.1.2.2.2
    · intro hall
      exact ⟨List.forall_mem_singleton.mpr placement_contained,⟨hcentering,List.forall_mem_nil _,
        List.forall_mem_singleton.mpr (axis_contained o),hall⟩,allContained_captions o.caption o.label⟩
  exact hwhole.trans List.forall_mem_singleton

/-! ## Algorithms, listings and theorems -/

theorem lined_chars {text : List Char} (h : ∀ c ∈ text, isText c = true) : Lined text (chars text) := by
  have hprint := printParts_chars text []
  have hregular := regular_chars h regularParts_nil
  rw [List.append_nil] at hprint hregular
  exact ⟨(hprint.trans (List.append_nil _)).symm,hregular⟩

theorem lined_state :
    Lined (lit "\\State Describe the method") (call "State" :: chars (lit " Describe the method")) := by
  have hchars := lined_chars (show ∀ c ∈ lit " Describe the method", isText c = true by rw [lit_eq]; decide)
  refine ⟨?_,regular_call hchars.regular (by rw [lit_eq]; decide) ?_⟩
  · rw [printParts_cons,← hchars.text]
    simp [lit_eq,call,Part.piece,Piece.print]
  · rw [← hchars.text,lit_eq]
    exact fun c hc => Option.some.inj hc ▸ rfl

theorem AlgorithmOptions.prints {o : AlgorithmOptions}
    (h : orElse o.body (lit "\\State Describe the method") = lit "\\State Describe the method") :
    Prints (buildAlgorithm o) o.meant := by
  have hlines := lined_within (lit "algorithm") regularParts_nil
    (forall₂_append (.cons (lined_caption (orElse o.caption (lit "Algorithm")))
      (lined_whenGiven o.label (lined_label o.label)))
      (lined_within (lit "algorithmic") (regularParts_bracket ['1']) (.cons lined_state .nil)))
  refine ⟨_,?_,hlines⟩
  unfold buildAlgorithm
  dsimp only
  rw [h,join,List.intercalate_splitOn,printParts_bracket,printParts_nil]
  unfold whenGiven captionLine labelLine join
  split <;> simp [lit_eq,Piece.print,beginName,endName,List.intercalate_cons_cons]

theorem level_labelled (label : List Char) : Level (whenGiven label [[call "label",group (safeLabel label)]]) := by
  unfold whenGiven
  split
  · exact level_neutral (List.forall_mem_nil _)
  · exact level_neutral (List.forall_mem_singleton.mpr
      (List.forall_mem_cons.mpr ⟨trivial,List.forall_mem_singleton.mpr trivial⟩))

theorem allContained_labelled (label : List Char) :
    AllContained (whenGiven label [[call "label",group (safeLabel label)]]) := by
  unfold whenGiven
  split
  · exact List.forall_mem_nil _
  · exact List.forall_mem_singleton.mpr (contained_label label)

theorem AlgorithmOptions.level (o : AlgorithmOptions) : Level o.meant := by
  have hcaption : Level [[call "caption",group (safeText (orElse o.caption (lit "Algorithm")))]] :=
    level_neutral (List.forall_mem_singleton.mpr
      (List.forall_mem_cons.mpr ⟨trivial,List.forall_mem_singleton.mpr trivial⟩))
  have hstate : Level [call "State" :: chars (lit " Describe the method")] :=
    level_neutral (List.forall_mem_singleton.mpr (List.forall_mem_cons.mpr ⟨trivial,neutral_chars _⟩))
  have hbracket : ∀ part ∈ [bracket ['1']], part.Neutral := List.forall_mem_singleton.mpr trivial
  exact level_within _ (List.forall_mem_nil _)
    ((hcaption.append (level_labelled o.label)).append (level_within _ hbracket hstate))

theorem AlgorithmOptions.contained (o : AlgorithmOptions) : AllContained o.meant := by
  have hstate : AllContained [call "State" :: chars (lit " Describe the method")] :=
    List.forall_mem_singleton.mpr (List.forall_mem_cons.mpr ⟨trivial,contained_chars _⟩)
  have hbracket : (bracket ['1']).Contained := show scanner.Contained ']' ['1'] by decide
  refine (allContained_within (by rw [lit_eq]; decide)).mpr ⟨List.forall_mem_nil _,allContained_append.mpr ⟨?_,?_⟩⟩
  · exact allContained_append.mpr ⟨List.forall_mem_singleton.mpr (contained_caption _),allContained_labelled o.label⟩
  · exact (allContained_within (by rw [lit_eq]; decide)).mpr ⟨List.forall_mem_singleton.mpr hbracket,hstate⟩

theorem algorithm_fragment {o : AlgorithmOptions}
    (h : orElse o.body (lit "\\State Describe the method") = lit "\\State Describe the method") :
    Fragment (buildAlgorithm o) o.meant :=
  ((AlgorithmOptions.prints h).fragment_iff o.level).mpr o.contained

theorem listing_text (o : ListingOptions) : o.settings = printParts [o.meantSettings] := by
  unfold ListingOptions.settings ListingOptions.meantSettings whenGiven
  rw [printParts_settings]
  split <;> simp [lit_eq,printSettings,Setting.print,Setting.key,Setting.value]

theorem listing_regular (o : ListingOptions) {parts : List Part} (h : RegularParts parts) :
    RegularParts (o.meantSettings :: parts) := by
  refine h.cons_settings (List.cons_ne_nil _ _) (List.forall_mem_append.mpr ⟨?_,?_⟩)
  · refine List.forall_mem_cons.mpr ⟨regular_plain (by rw [lit_eq]; decide) (safeText_head _),?_⟩
    exact List.forall_mem_singleton.mpr (regular_braced _ (by rw [lit_eq]; decide))
  · unfold whenGiven
    split
    · exact List.forall_mem_nil _
    · exact List.forall_mem_singleton.mpr (regular_braced _ (by rw [lit_eq]; decide))

theorem listing_contained (o : ListingOptions) :
    o.meantSettings.Contained ↔ ']' ∉ o.language ∧ ',' ∉ o.language := by
  have hlabel : ∀ s ∈ whenGiven o.label [Setting.braced (lit "label") (safeLabel o.label)], s.Contained := by
    unfold whenGiven
    split
    · exact List.forall_mem_nil _
    · exact List.forall_mem_singleton.mpr (safeLabel_contained (.inr (.inr rfl)) o.label)
  have hplain : (Setting.plain (lit "language") (safeText o.language)).Contained ↔
      ']' ∉ o.language ∧ ',' ∉ o.language :=
    and_congr (safeText_contained (.inl rfl)) (safeText_contained (.inr rfl))
  have hcaption : (Setting.braced (lit "caption") (safeText o.caption)).Contained := safeText_group _
  unfold ListingOptions.meantSettings
  rw [Part.Contained,List.forall_mem_append,List.forall_mem_cons,List.forall_mem_singleton,hplain]
  exact ⟨fun h => h.1.1,fun h => ⟨⟨h,hcaption⟩,hlabel⟩⟩

theorem lined_lstinputlisting (o : ListingOptions) :
    Lined (lit "\\lstinputlisting" ++ o.settings ++ lit "\x7b" ++ safePath o.file ++ lit "\x7d")
      [call "lstinputlisting",o.meantSettings,group (safePath o.file)] := by
  refine ⟨?_,regular_call (listing_regular o (regularParts_group _)) (by rw [lit_eq]; decide) ?_⟩
  · have hsettings : printParts [o.meantSettings] = o.meantSettings.piece.print := List.append_nil _
    rw [listing_text,hsettings,printParts_cons,printParts_cons,printParts_group]
    simp [lit_eq,call,Part.piece,Piece.print]
  · intro c hc
    obtain rfl := Option.some.inj hc
    rfl

theorem ListingOptions.prints {o : ListingOptions} (h : o.code = []) : Prints (buildCodeListing o) o.meant := by
  unfold buildCodeListing ListingOptions.meant
  split
  · exact ⟨_,List.intercalate_singleton.symm,.cons (lined_lstinputlisting o) .nil⟩
  · have hempty : Lined [] [] := ⟨rfl,regularParts_nil⟩
    refine ⟨_,?_,lined_within (lit "lstlisting") (listing_regular o regularParts_nil) (.cons hempty .nil)⟩
    rw [h,listing_text,List.append_nil]
    unfold join
    rw [List.singleton_append,List.intercalate_cons_cons,List.intercalate_cons_cons,List.intercalate_singleton]
    simp [lit_eq,Piece.print,beginName,endName]

theorem ListingOptions.level (o : ListingOptions) : Level o.meant := by
  have hsettings : o.meantSettings.Neutral := trivial
  unfold ListingOptions.meant
  split
  · exact level_neutral (List.forall_mem_singleton.mpr (List.forall_mem_cons.mpr ⟨trivial,
      List.forall_mem_cons.mpr ⟨hsettings,List.forall_mem_singleton.mpr trivial⟩⟩))
  · exact level_within _ (List.forall_mem_singleton.mpr hsettings)
      (level_neutral (List.forall_mem_singleton.mpr (List.forall_mem_nil _)))

theorem code_fragment {o : ListingOptions} (h : o.code = []) :
    Fragment (buildCodeListing o) o.meant ↔ ']' ∉ o.language ∧ ',' ∉ o.language := by
  have hwhole : AllContained o.meant ↔ o.meantSettings.Contained := by
    unfold ListingOptions.meant
    split
    · have hgroup : (group (safePath o.file)).Contained := safePath_group _
      unfold AllContained
      rw [List.forall_mem_singleton,List.forall_mem_cons,List.forall_mem_cons,List.forall_mem_singleton]
      exact ⟨fun hall => hall.2.1,fun hall => ⟨trivial,hall,hgroup⟩⟩
    · rw [allContained_within (by rw [lit_eq]; decide),List.forall_mem_singleton]
      exact and_iff_left (List.forall_mem_singleton.mpr (List.forall_mem_nil _))
  rw [(ListingOptions.prints h).fragment_iff o.level,← listing_contained]
  exact hwhole

theorem TheoremOptions.prints {o : TheoremOptions} (h : orElse o.body (lit "Statement.") = lit "Statement.") :
    Prints (buildTheorem o) o.meant := by
  have htitle : RegularParts (whenGiven o.title [bracket (safeText o.title)]) := by
    unfold whenGiven
    split
    · exact regularParts_nil
    · exact regularParts_bracket _
  have hbody := lined_chars (show ∀ c ∈ lit "Statement.", isText c = true by rw [lit_eq]; decide)
  have hlines := lined_within (safeLabel (orElse o.environment (lit "theorem"))) htitle
    (forall₂_append (lined_whenGiven o.label (lined_label o.label)) (.cons hbody .nil))
  refine ⟨_,?_,hlines⟩
  unfold buildTheorem
  dsimp only
  rw [h]
  have hprint : printParts (whenGiven o.title [bracket (safeText o.title)]) =
      whenGiven o.title (lit "[" ++ safeText o.title ++ lit "]") := by
    unfold whenGiven
    split
    · rfl
    · rw [printParts_bracket]
      simp [lit_eq]
  rw [hprint]
  unfold join
  by_cases hlabel : o.label = []
  · simp [lit_eq,whenGiven,hlabel,Piece.print,beginName,endName,List.intercalate_cons_cons]
  · simp [lit_eq,whenGiven,hlabel,Piece.print,beginName,endName,List.intercalate_cons_cons]

theorem TheoremOptions.level (o : TheoremOptions) : Level o.meant := by
  have htitle : ∀ part ∈ whenGiven o.title [bracket (safeText o.title)], part.Neutral := by
    unfold whenGiven
    split
    · exact List.forall_mem_nil _
    · exact List.forall_mem_singleton.mpr trivial
  have hbody : Level [chars (lit "Statement.")] := level_neutral (List.forall_mem_singleton.mpr (neutral_chars _))
  exact level_within _ htitle ((level_labelled o.label).append hbody)

theorem theorem_fragment {o : TheoremOptions} (h : orElse o.body (lit "Statement.") = lit "Statement.") :
    Fragment (buildTheorem o) o.meant ↔ ']' ∉ o.title := by
  have htitle : (∀ part ∈ whenGiven o.title [bracket (safeText o.title)], part.Contained) ↔ ']' ∉ o.title := by
    unfold whenGiven
    split
    · next hnil => simp [hnil]
    · exact List.forall_mem_singleton.trans (safeText_contained (.inl rfl))
  have hbody : AllContained [chars (lit "Statement.")] := List.forall_mem_singleton.mpr (contained_chars _)
  rw [(TheoremOptions.prints h).fragment_iff o.level,← htitle]
  refine (allContained_within (safeLabel_contained (.inr (.inr rfl)) _)).trans (and_iff_left ?_)
  exact allContained_append.mpr ⟨allContained_labelled o.label,hbody⟩

/-! ## Bibliography entries -/

theorem bibtex_text (o : BibtexOptions) : buildBibtexEntry o = Bib.printEntry o.meant := by
  have hfields : (o.fields.map (fun field => (⟨field.1,safeText field.2⟩ : Bib.Field))).map Bib.printField =
      o.fields.map (fun field => lit "  " ++ field.1 ++ lit " = \x7b" ++ safeText field.2 ++ lit "\x7d") := by
    rw [List.map_map]
    refine List.map_congr_left fun field _ => ?_
    simp [Bib.printField,lit_eq]
  unfold buildBibtexEntry BibtexOptions.meant Bib.printEntry Bib.printFields
  rw [hfields]
  simp [lit_eq]

theorem named_of_all {isName : Char → Bool} {name : List Char} (hne : name ≠ [])
    (h : (name.all fun c => isName c && !c.isWhitespace) = true) : Bib.Named isName name := by
  refine ⟨hne,fun c hc => ?_⟩
  simpa using List.all_eq_true.mp h c hc

theorem entryType_named (o : BibtexOptions) : Bib.Named Char.isAlpha o.entryType := by
  have htypes : ∀ type ∈ entryTypes, type ≠ [] ∧ (type.all fun c => c.isAlpha && !c.isWhitespace) = true := by
    simp only [entryTypes,lit_eq]; decide
  have harticle : lit "article" ∈ entryTypes := List.mem_cons_self
  have hmem : o.entryType ∈ entryTypes := by
    unfold BibtexOptions.entryType
    split
    · next h => exact List.contains_iff_mem.mp h
    · exact harticle
  exact named_of_all (htypes _ hmem).1 (htypes _ hmem).2

theorem isLabel_isKey {c : Char} (h : isLabel c = true) : Bib.isKey c = true ∧ c.isWhitespace = false := by
  obtain ⟨-,hcomma,-,hopen,hclose,-⟩ := isLabel_plain h
  have hspace : c.isWhitespace = false := by
    by_contra hc
    simp only [Char.isWhitespace,Bool.or_eq_true,decide_eq_true_eq,Bool.not_eq_false] at hc
    rcases hc with ((rfl | rfl) | rfl) | rfl <;> cases h
  exact ⟨by simp [Bib.isKey,hcomma,hopen,hclose,hspace],hspace⟩

theorem safeLabel_ne_nil {value : List Char} (h : value ≠ []) : safeLabel value ≠ [] := by
  cases value with
  | nil => exact absurd rfl h
  | cons c value =>
    have hpos := utf16Size_pos c
    have hcons : safeLabel (c :: value) =
        (if isLabel c then [c] else List.replicate (utf16Size c) '-') ++ safeLabel value := List.flatMap_cons
    rw [hcons]
    refine List.append_ne_nil_of_left_ne_nil ?_ _
    split
    · exact List.cons_ne_nil _ _
    · exact mt (List.replicate_eq_nil_iff '-').mp hpos.ne'

theorem key_named (o : BibtexOptions) : Bib.Named Bib.isKey (safeLabel (orElse o.key (lit "key"))) := by
  have hkey : lit "key" ≠ [] := by rw [lit_eq]; decide
  refine ⟨safeLabel_ne_nil ?_,fun c hc => isLabel_isKey (safeLabel_isLabel c hc)⟩
  unfold orElse
  split
  · exact hkey
  · assumption

theorem fields_named (o : BibtexOptions) : ∀ field ∈ o.meant.fields, Bib.Named Char.isAlpha field.name := by
  have hnames : ∀ name ∈ [lit "title",lit "author",lit "year",lit "journal",lit "booktitle",lit "doi",lit "url"],
      name ≠ [] ∧ (name.all fun c => c.isAlpha && !c.isWhitespace) = true := by simp only [lit_eq]; decide
  intro field hfield
  obtain ⟨candidate,hcandidate,rfl⟩ := List.mem_map.mp hfield
  have hname : candidate.1 ∈ o.candidates.map Prod.fst :=
    List.mem_map_of_mem (List.mem_of_mem_filter hcandidate)
  exact named_of_all (hnames _ hname).1 (hnames _ hname).2

theorem bibtex_entry (o : BibtexOptions) : Bib.readEntry (buildBibtexEntry o) = some o.meant ↔
    ∀ field ∈ o.candidates, Bib.braces.Contained '\x7d' field.2 := by
  have hregular : o.meant.Regular := ⟨entryType_named o,key_named o,fields_named o⟩
  have hvalue : ∀ value, Bib.braces.Contained '\x7d' (safeText value) ↔ Bib.braces.Contained '\x7d' value := by
    intro value
    rw [Scanner.Contained,Scanner.Contained,braces_safeText]
  rw [bibtex_text,Bib.readEntry_print hregular]
  unfold BibtexOptions.meant BibtexOptions.fields
  rw [List.forall_mem_map]
  constructor
  · intro hall field hfield
    by_cases hnil : field.2 = []
    · rw [hnil]
      exact Scanner.contained_nil
    · exact (hvalue _).mp (hall field (List.mem_filter.mpr ⟨hfield,decide_eq_true hnil⟩))
  · intro hall field hfield
    exact (hvalue _).mpr (hall field (List.mem_of_mem_filter hfield))

/-! ## All inserts -/

/-- With bodies, widths and placements at their defaults, an insert is read as it is meant exactly if it fits. -/
theorem insert_well_formed_iff (insert : Insert) (h : insert.Defaults) : insert.WellFormed ↔ insert.Fits := by
  cases insert with
  | table o => exact iff_of_true (table_fragment h) trivial
  | figure o => exact iff_of_true (figure_fragment h.1 h.2) trivial
  | plot o => exact plot_fragment h
  | algorithm o => exact iff_of_true (algorithm_fragment h) trivial
  | code o => exact code_fragment h
  | bibliography o => exact bibtex_entry o
  | theorem_ o => exact theorem_fragment h

def bracketTheorem : TheoremOptions := ⟨[],['a',']','b'],[],[]⟩

theorem insert_well_formed_iff_bracket : (Insert.theorem_ bracketTheorem).Defaults ∧
    ((Insert.theorem_ bracketTheorem).WellFormed ↔ (Insert.theorem_ bracketTheorem).Fits) := by
  have hdefaults : (Insert.theorem_ bracketTheorem).Defaults := if_pos rfl
  exact ⟨hdefaults,insert_well_formed_iff _ hdefaults⟩

/-- The bracket ends the optional argument of the theorem. -/
theorem not_wellFormed_bracket : ¬(Insert.theorem_ bracketTheorem).WellFormed := by
  intro h
  have hread := h.reads.pieces
  revert hread
  decide +kernel

end LatexCore.Inserts
