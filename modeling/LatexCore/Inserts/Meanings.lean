import LatexCore.Foundation.BibEntries
import LatexCore.Foundation.TexSettings
import LatexCore.Inserts.Builders

/-! # What the inserts mean

Every insert is meant as a fragment in which each text of the dialog is one argument, or
as one entry with a field for each text. The escapes are made for groups: in a bracket a
text may still end the bracket or its setting, and BibTeX counts the escaped braces.
-/
namespace LatexCore.Inserts
open Foundation Foundation.Tex

/-! ## The escapes -/

/-- Delimiters of arguments and settings. -/
def Stops (stop : Char) : Prop := stop = ']' ∨ stop = ',' ∨ stop = '\x7d'

theorem contained_plain {stop : Char} {text : List Char}
    (h : ∀ c ∈ text, c ≠ stop ∧ c ≠ '\\' ∧ c ≠ '\x7b' ∧ c ≠ '\x7d' ∧ c ≠ '%') : scanner.Contained stop text := by
  induction text with
  | nil => exact Scanner.contained_nil
  | cons c text ih =>
    obtain ⟨⟨hstop,hbackslash,hopen,hclose,hpercent⟩,htext⟩ := List.forall_mem_cons.mp h
    have hstep : scanner.step scanner.rest c = some scanner.rest := by
      have hplain : step (.plain,0) c = some (.plain,0) := by
        rw [step,if_neg hbackslash,if_neg hopen,if_neg hclose,if_neg hpercent]
      exact hplain
    rw [Scanner.Contained,Scanner.free_cons hstop,hstep]
    exact ih htext

theorem contained_safeChar {stop c : Char} (hstop : Stops stop) (hc : c = stop → stop = '\x7d') :
    scanner.Contained stop (safeChar c) := by
  rw [safeChar]
  split
  · rcases hstop with rfl | rfl | rfl <;> rw [lit_eq] <;> decide
  · split
    · next hspecial =>
      rcases hspecial with rfl | rfl | rfl | rfl | rfl <;> rcases hstop with rfl | rfl | rfl <;> decide
    · next hbackslash hspecial =>
      simp only [not_or] at hspecial
      obtain ⟨hopen,hclose,hpercent,-,-⟩ := hspecial
      refine contained_plain fun d hd => ?_
      obtain rfl := List.mem_singleton.mp hd
      exact ⟨fun hd => hclose (hd.trans (hc hd)),hbackslash,hopen,hclose,hpercent⟩

theorem contained_flatMap {stop : Char} {f : Char → List Char} {value : List Char}
    (h : ∀ c ∈ value, scanner.Contained stop (f c)) : scanner.Contained stop (value.flatMap f) := by
  induction value with
  | nil => exact Scanner.contained_nil
  | cons c value ih =>
    obtain ⟨hc,hvalue⟩ := List.forall_mem_cons.mp h
    rw [List.flatMap_cons]
    exact hc.append (ih hvalue)

theorem safeText_group (value : List Char) : scanner.Contained '\x7d' (safeText value) :=
  contained_flatMap fun _ _ => contained_safeChar (.inr (.inr rfl)) fun _ => rfl

theorem safeText_contained {stop : Char} (hstop : stop = ']' ∨ stop = ',') {value : List Char} :
    scanner.Contained stop (safeText value) ↔ stop ∉ value := by
  have hstops : Stops stop := by
    rcases hstop with rfl | rfl
    · exact .inl rfl
    · exact .inr (.inl rfl)
  induction value with
  | nil => simp [safeText,Scanner.contained_nil]
  | cons c value ih =>
    have hcons : safeText (c :: value) = safeChar c ++ safeText value := List.flatMap_cons
    rw [hcons,List.mem_cons,not_or]
    by_cases hc : stop = c
    · subst hc
      have hchar : safeChar stop = [stop] := by
        rcases hstop with rfl | rfl <;> rfl
      rw [hchar,Scanner.Contained,List.singleton_append,Scanner.free,if_pos ⟨rfl,rfl⟩]
      simp
    · have hchar := contained_safeChar hstops (fun h => absurd h.symm hc)
      constructor
      · intro hall
        exact ⟨hc,ih.mp (hall.of_append hchar).2⟩
      · rintro ⟨-,hvalue⟩
        exact hchar.append (ih.mpr hvalue)

theorem isLabel_plain {c : Char} (h : isLabel c = true) :
    c ≠ ']' ∧ c ≠ ',' ∧ c ≠ '\\' ∧ c ≠ '\x7b' ∧ c ≠ '\x7d' ∧ c ≠ '%' := by
  refine ⟨?_,?_,?_,?_,?_,?_⟩ <;>
  · rintro rfl
    cases h

theorem safeLabel_isLabel {value : List Char} : ∀ c ∈ safeLabel value, isLabel c = true := by
  intro c hc
  obtain ⟨d,-,hd⟩ := List.mem_flatMap.mp hc
  split at hd
  · next hlabel =>
    rw [List.mem_singleton.mp hd]
    exact hlabel
  · rw [(List.mem_replicate.mp hd).2]
    rfl

theorem safeLabel_contained {stop : Char} (hstop : Stops stop) (value : List Char) :
    scanner.Contained stop (safeLabel value) := by
  refine contained_plain fun c hc => ?_
  obtain ⟨hbracket,hcomma,hbackslash,hopen,hclose,hpercent⟩ := isLabel_plain (safeLabel_isLabel c hc)
  refine ⟨?_,hbackslash,hopen,hclose,hpercent⟩
  rcases hstop with rfl | rfl | rfl <;> assumption

theorem safePath_group (value : List Char) : scanner.Contained '\x7d' (safePath value) := by
  refine contained_plain fun c hc => ?_
  have hpath := (List.mem_filter.mp hc).2
  refine ⟨?_,?_,?_,?_,?_⟩ <;>
  · rintro rfl
    cases hpath

theorem braces_safeChar (depth : ℕ) (c : Char) :
    Bib.braces.free '\x7d' depth (safeChar c) = Bib.braces.free '\x7d' depth [c] := by
  have hrest : Bib.braces.rest = 0 := rfl
  have hstep : ∀ depth c, Bib.braces.step depth c = Bib.braceStep depth c := fun _ _ => rfl
  rw [safeChar]
  split
  · next hc =>
    subst hc
    simp [lit_eq,Scanner.free,hrest,hstep,Bib.braceStep]
  · split
    · next hc =>
      rcases hc with rfl | rfl | rfl | rfl | rfl <;> simp [Scanner.free,hrest,hstep,Bib.braceStep]
    · rfl

theorem braces_safeText {depth : ℕ} {value : List Char} :
    Bib.braces.free '\x7d' depth (safeText value) = Bib.braces.free '\x7d' depth value := by
  induction value generalizing depth with
  | nil => rfl
  | cons c value ih =>
    have hcons : safeText (c :: value) = safeChar c ++ safeText value := List.flatMap_cons
    have hvalue : c :: value = [c] ++ value := rfl
    rw [hcons,Scanner.free_append,braces_safeChar,hvalue,Scanner.free_append]
    exact congrArg _ (funext fun _ => ih)

/-! ## What the inserts mean -/

def call (name : String) : Part := .plain (.call (lit name))

def group (content : List Char) : Part := .plain (.group content)

def bracket (content : List Char) : Part := .plain (.bracket content)

def chars (text : List Char) : List Part := text.map (fun c => .plain (.char c))

def within (name : List Char) (arguments : List Part) (lines : List (List Part)) : List (List Part) :=
  (.plain (.enter name) :: arguments) :: (lines ++ [[.plain (.leave name)]])

def captions (caption label : List Char) : List (List Part) :=
  whenGiven caption [[call "caption",group (safeText caption)]] ++
    whenGiven label [[call "label",group (safeLabel label)]]

def TableOptions.meantRows (o : TableOptions) (row : ℕ) : List (List Part) :=
  (chars (o.cells row ++ [' ']) ++ [.plain (.call ['\\'])]) ::
    if o.booktabs ∧ o.header ∧ row = 0 then [[call "midrule"]] else []

def TableOptions.meantBody (o : TableOptions) : List (List Part) :=
  (if o.booktabs then [[call "toprule"]] else []) ++ (List.range (clamp o.rows 1 30)).flatMap o.meantRows ++
    if o.booktabs then [[call "bottomrule"]] else []

def TableOptions.meant (o : TableOptions) : List (List Part) :=
  within (lit "table") [bracket (lit "htbp")] ([[call "centering"]] ++
    within (lit "tabular") [group o.alignmentLetters] o.meantBody ++ captions o.caption o.label)

def FigureOptions.meant (o : FigureOptions) : List (List Part) :=
  within (lit "figure") [bracket (lit "htbp")] ([[call "centering"],
    [call "includegraphics",.settings [.plain (lit "width") lineWidth],
      group (safePath (orElse o.asset (lit "path/to/image")))]] ++
    captions o.caption o.label)

def PlotOptions.axisSettings (o : PlotOptions) : List Setting :=
  [.plain (lit "width") lineWidth,.braced (lit "title") (safeText o.title),
    .braced (lit "xlabel") (safeText o.xLabel),.braced (lit "ylabel") (safeText o.yLabel)] ++
    whenGiven o.legend [.braced (lit "legend entries") (safeText o.legend)]

def PlotOptions.columnSettings (o : PlotOptions) : List Setting :=
  [.plain (lit "x") (safeText (orElse o.x (lit "x"))),.plain (lit "y") (safeText (orElse o.y (lit "y"))),
    .plain (lit "col sep") (lit "comma")]

def PlotOptions.meantAddplot (o : PlotOptions) : List Part :=
  call "addplot" :: bracket o.plotOptions :: (chars (lit " table") ++ .settings o.columnSettings ::
    (chars [' '] ++ group (safePath (orElse o.asset (lit "data.csv"))) :: (chars [';'] ++ [])))

def PlotOptions.meant (o : PlotOptions) : List (List Part) :=
  within (lit "figure") [bracket (lit "htbp")] ([[call "centering"]] ++
    within (lit "tikzpicture") [] (within (lit "axis") [.settings o.axisSettings] [o.meantAddplot]) ++
    captions o.caption o.label)

def AlgorithmOptions.meant (o : AlgorithmOptions) : List (List Part) :=
  within (lit "algorithm") [] ([[call "caption",group (safeText (orElse o.caption (lit "Algorithm")))]] ++
    whenGiven o.label [[call "label",group (safeLabel o.label)]] ++
    within (lit "algorithmic") [bracket ['1']] [call "State" :: chars (lit " Describe the method")])

def ListingOptions.meantSettings (o : ListingOptions) : Part :=
  .settings ([.plain (lit "language") (safeText o.language),.braced (lit "caption") (safeText o.caption)] ++
    whenGiven o.label [.braced (lit "label") (safeLabel o.label)])

def ListingOptions.meant (o : ListingOptions) : List (List Part) :=
  if o.file ≠ [] then [[call "lstinputlisting",o.meantSettings,group (safePath o.file)]]
  else within (lit "lstlisting") [o.meantSettings] [[]]

def TheoremOptions.meant (o : TheoremOptions) : List (List Part) :=
  within (safeLabel (orElse o.environment (lit "theorem"))) (whenGiven o.title [bracket (safeText o.title)])
    (whenGiven o.label [[call "label",group (safeLabel o.label)]] ++ [chars (lit "Statement.")])

def BibtexOptions.meant (o : BibtexOptions) : Bib.Entry :=
  ⟨o.entryType,safeLabel (orElse o.key (lit "key")),o.fields.map (fun field => ⟨field.1,safeText field.2⟩)⟩

def Insert.WellFormed : Insert → Prop
  | .table o => Fragment (buildTable o) o.meant
  | .figure o => Fragment (buildFigure o) o.meant
  | .plot o => Fragment (buildPlot o) o.meant
  | .algorithm o => Fragment (buildAlgorithm o) o.meant
  | .code o => Fragment (buildCodeListing o) o.meant
  | .bibliography o => Bib.readEntry (buildBibtexEntry o) = some o.meant
  | .theorem_ o => Fragment (buildTheorem o) o.meant

def Insert.Defaults : Insert → Prop
  | .table o => orElse o.placement (lit "htbp") = lit "htbp"
  | .figure o => orElse o.placement (lit "htbp") = lit "htbp" ∧ o.givenWidth = lineWidth
  | .plot o => orElse o.width lineWidth = lineWidth
  | .algorithm o => orElse o.body (lit "\\State Describe the method") = lit "\\State Describe the method"
  | .code o => o.code = []
  | .bibliography _ => True
  | .theorem_ o => orElse o.body (lit "Statement.") = lit "Statement."

/-- No bracket or comma is in a column name or in the language of a listing, and no bracket in the title of
a theorem; the braces of every field are balanced. -/
def Insert.Fits : Insert → Prop
  | .plot o => (']' ∉ o.x ∧ ',' ∉ o.x) ∧ ']' ∉ o.y ∧ ',' ∉ o.y
  | .code o => ']' ∉ o.language ∧ ',' ∉ o.language
  | .bibliography o => ∀ field ∈ o.candidates, Bib.braces.Contained '\x7d' field.2
  | .theorem_ o => ']' ∉ o.title
  | _ => True

/-! ## Lines -/

def isWord (name : List Char) : Bool :=
  name ≠ [] && name.all Char.isAlpha && name ≠ beginName && name ≠ endName

/-- A character that a fragment is not structured by. -/
def isText (c : Char) : Bool := c ≠ '\\' && c ≠ '\x7b' && c ≠ '[' && c ≠ '\x7d' && c ≠ '%'

theorem regular_chars {text : List Char} {parts : List Part} (h : ∀ c ∈ text, isText c = true)
    (hparts : RegularParts parts) : RegularParts (chars text ++ parts) := by
  induction text with
  | nil => exact hparts
  | cons c text ih =>
    obtain ⟨hc,htext⟩ := List.forall_mem_cons.mp h
    have hplain : c ≠ '\\' ∧ c ≠ '\x7b' ∧ c ≠ '[' ∧ c ≠ '\x7d' ∧ c ≠ '%' := by simpa [isText,and_assoc] using hc
    exact (ih htext).cons_plain hplain

theorem printParts_chars (text : List Char) (parts : List Part) :
    printParts (chars text ++ parts) = text ++ printParts parts := by
  induction text with
  | nil => rfl
  | cons c text ih => exact congrArg (c :: ·) ih

theorem regular_call {name : String} {parts : List Part} (h : RegularParts parts)
    (hname : isWord (lit name) = true) (hafter : ∀ c ∈ (printParts parts).head?, c.isAlpha = false) :
    RegularParts (call name :: parts) := by
  simp only [isWord,Bool.and_eq_true,decide_eq_true_eq,List.all_eq_true] at hname
  obtain ⟨⟨⟨hne,hletters⟩,hbegin⟩,hend⟩ := hname
  exact h.cons_plain ⟨.inr ⟨hne,hletters,hafter⟩,hbegin,hend⟩

theorem regularParts_group (content : List Char) : RegularParts [group content] :=
  regularParts_nil.cons_plain trivial

theorem lined_call {text name : String} (htext : lit text = '\\' :: lit name) (hname : isWord (lit name) = true) :
    Lined (lit text) [call name] :=
  ⟨htext.trans (List.append_nil _).symm,regular_call regularParts_nil hname fun _ hc => (by cases hc)⟩

theorem lined_call_group (name : String) (hname : isWord (lit name) = true) (content : List Char) :
    Lined ('\\' :: (lit name ++ '\x7b' :: (content ++ ['\x7d']))) [call name,group content] := by
  refine ⟨?_,regular_call (regularParts_group content) hname ?_⟩
  · simp [printParts,call,group,Part.piece,print,Piece.print]
  · intro c hc
    obtain rfl := Option.some.inj hc
    rfl

theorem forall₂_append {α β : Type} {r : α → β → Prop} {xs xs' : List α} {ys ys' : List β}
    (h : List.Forall₂ r xs ys) (h' : List.Forall₂ r xs' ys') : List.Forall₂ r (xs ++ xs') (ys ++ ys') :=
  List.rel_append h h'

theorem printParts_nil : printParts [] = [] := rfl

theorem printParts_group (content : List Char) : printParts [group content] = '\x7b' :: (content ++ ['\x7d']) :=
  List.append_nil _

theorem printParts_bracket (content : List Char) : printParts [bracket content] = '[' :: (content ++ [']']) :=
  List.append_nil _

theorem printParts_settings (items : List Setting) :
    printParts [.settings items] = '[' :: (printSettings items ++ [']']) := List.append_nil _

theorem regular_group {parts : List Part} (h : RegularParts parts) (content : List Char) :
    RegularParts (group content :: parts) := h.cons_plain trivial

theorem regular_bracket {parts : List Part} (h : RegularParts parts) (content : List Char) :
    RegularParts (bracket content :: parts) := h.cons_plain trivial

theorem regularParts_bracket (content : List Char) : RegularParts [bracket content] :=
  regularParts_nil.cons_plain trivial

theorem lined_within (name : List Char) {arguments : List Part} {texts : List (List Char)} {lines : List (List Part)}
    (harguments : RegularParts arguments) (h : List.Forall₂ Lined texts lines) :
    List.Forall₂ Lined (((Piece.enter name).print ++ printParts arguments) :: (texts ++ [(Piece.leave name).print]))
      (within name arguments lines) := by
  have hfirst : Lined ((Piece.enter name).print ++ printParts arguments) (.plain (.enter name) :: arguments) :=
    ⟨rfl,harguments.cons_plain trivial⟩
  have hlast : Lined (Piece.leave name).print [.plain (.leave name)] :=
    ⟨(List.append_nil _).symm,regularParts_nil.cons_plain trivial⟩
  exact .cons hfirst (forall₂_append h (.cons hlast .nil))

theorem lined_caption (caption : List Char) :
    Lined (captionLine caption) [call "caption",group (safeText caption)] := by
  have htext : captionLine caption =
      '\\' :: (lit "caption" ++ '\x7b' :: (safeText caption ++ ['\x7d'])) := by
    simp [captionLine,lit_eq]
  rw [htext]
  exact lined_call_group "caption" (by rw [lit_eq]; decide) (safeText caption)

theorem lined_label (label : List Char) : Lined (labelLine label) [call "label",group (safeLabel label)] := by
  have htext : labelLine label = '\\' :: (lit "label" ++ '\x7b' :: (safeLabel label ++ ['\x7d'])) := by
    simp [labelLine,lit_eq]
  rw [htext]
  exact lined_call_group "label" (by rw [lit_eq]; decide) (safeLabel label)

theorem lined_whenGiven (value : List Char) {text : List Char} {parts : List Part} (h : Lined text parts) :
    List.Forall₂ Lined (whenGiven value [text]) (whenGiven value [parts]) := by
  unfold whenGiven
  split
  · exact .nil
  · exact .cons h .nil

theorem lined_captions (caption label : List Char) :
    List.Forall₂ Lined (whenGiven caption [captionLine caption] ++ whenGiven label [labelLine label])
      (captions caption label) :=
  forall₂_append (lined_whenGiven caption (lined_caption caption)) (lined_whenGiven label (lined_label label))

/-! ## Nesting and containment -/

theorem level_within (name : List Char) {arguments : List Part} {lines : List (List Part)}
    (harguments : ∀ part ∈ arguments, part.Neutral) (h : Level lines) : Level (within name arguments lines) :=
  h.environment harguments

theorem neutral_chars (text : List Char) : ∀ part ∈ chars text, part.Neutral := by
  intro part hpart
  obtain ⟨c,-,rfl⟩ := List.mem_map.mp hpart
  trivial

theorem level_captions (caption label : List Char) : Level (captions caption label) := by
  refine level_neutral fun line hline part hpart => ?_
  unfold captions whenGiven at hline
  rcases List.mem_append.mp hline with hline | hline <;> split at hline
  · cases hline
  · rw [List.mem_singleton.mp hline] at hpart
    rcases List.mem_pair.mp hpart with rfl | rfl <;> trivial
  · cases hline
  · rw [List.mem_singleton.mp hline] at hpart
    rcases List.mem_pair.mp hpart with rfl | rfl <;> trivial

def AllContained (lines : List (List Part)) : Prop := ∀ line ∈ lines, ∀ part ∈ line, part.Contained

theorem allContained_append {lines more : List (List Part)} :
    AllContained (lines ++ more) ↔ AllContained lines ∧ AllContained more := List.forall_mem_append

theorem allContained_cons {line : List Part} {lines : List (List Part)} :
    AllContained (line :: lines) ↔ (∀ part ∈ line, part.Contained) ∧ AllContained lines := List.forall_mem_cons

theorem allContained_within {name : List Char} (hname : scanner.Contained '\x7d' name) {arguments : List Part}
    {lines : List (List Part)} : AllContained (within name arguments lines) ↔
      (∀ part ∈ arguments, part.Contained) ∧ AllContained lines := by
  have henter : (Part.plain (.enter name)).Contained := hname
  have hleave : (Part.plain (.leave name)).Contained := hname
  rw [within,allContained_cons,allContained_append,List.forall_mem_cons]
  constructor
  · rintro ⟨⟨-,harguments⟩,hlines,-⟩
    exact ⟨harguments,hlines⟩
  · rintro ⟨harguments,hlines⟩
    refine ⟨⟨henter,harguments⟩,hlines,?_⟩
    intro line hline part hpart
    rw [List.mem_singleton.mp hline] at hpart
    rw [List.mem_singleton.mp hpart]
    exact hleave

theorem contained_chars (text : List Char) : ∀ part ∈ chars text, part.Contained := by
  intro part hpart
  obtain ⟨c,-,rfl⟩ := List.mem_map.mp hpart
  trivial

theorem contained_caption (caption : List Char) :
    ∀ part ∈ [call "caption",group (safeText caption)], part.Contained :=
  List.forall_mem_cons.mpr ⟨trivial,List.forall_mem_singleton.mpr (safeText_group caption)⟩

theorem contained_label (label : List Char) : ∀ part ∈ [call "label",group (safeLabel label)], part.Contained :=
  List.forall_mem_cons.mpr ⟨trivial,List.forall_mem_singleton.mpr (safeLabel_contained (.inr (.inr rfl)) label)⟩

theorem allContained_captions (caption label : List Char) : AllContained (captions caption label) := by
  unfold captions whenGiven
  refine allContained_append.mpr ⟨?_,?_⟩ <;> split
  · exact fun _ h => (by cases h)
  · exact List.forall_mem_singleton.mpr (contained_caption caption)
  · exact fun _ h => (by cases h)
  · exact List.forall_mem_singleton.mpr (contained_label label)

end LatexCore.Inserts
