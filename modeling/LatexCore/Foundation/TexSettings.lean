import LatexCore.Foundation.TexFragments

/-! # Settings of TeX

Some brackets hold a list of keys with values. A comma that counts ends a setting, and a
value may be a group. A fragment is read as it is meant exactly if every argument and
every value is contained.
-/
namespace LatexCore.Foundation
namespace Tex

/-! ## Settings -/

inductive Setting
  | plain (key value : List Char)
  | braced (key value : List Char)
deriving DecidableEq

def Setting.key : Setting → List Char
  | .plain key _ => key
  | .braced key _ => key

def Setting.value : Setting → List Char
  | .plain _ value => value
  | .braced _ value => '\x7b' :: (value ++ ['\x7d'])

def Setting.print (s : Setting) : List Char := s.key ++ '=' :: s.value

def printSettings (settings : List Setting) : List Char := [','].intercalate (settings.map Setting.print)

def keys : Scanner Char Unit := ⟨(),fun _ _ => some ()⟩

def readValue (key : List Char) : List Char → Option Setting
  | [] => some (.plain key [])
  | c :: value =>
    if c = '\x7b' then
      (readArgument '\x7d' value).bind (fun found => if found.2 = [] then some (.braced key found.1) else none)
    else some (.plain key (c :: value))

def readSetting (text : List Char) : Option Setting :=
  (keys.upTo '=' () text).bind (fun found => readValue found.1 found.2)

def readSettings (text : List Char) : Option (List Setting) :=
  (scanner.pieces ',' scanner.rest text).bind (fun found => found.mapM readSetting)

/-- Neither a bracket nor a comma ends the value, nor a brace that of a group. -/
def Setting.Contained : Setting → Prop
  | .plain _ value => scanner.Contained ']' value ∧ scanner.Contained ',' value
  | .braced _ value => scanner.Contained '\x7d' value

/-- The key is free of delimiters, and a value without a group does not begin with one. -/
structure Setting.Regular (s : Setting) : Prop where
  bracket : scanner.Contained ']' s.key
  comma : scanner.Contained ',' s.key
  equals : keys.Contained '=' s.key
  value : ∀ key value, s = .plain key value → value.head? ≠ some '\x7b'

theorem readValue_eq_some {key text : List Char} {s : Setting} (h : readValue key text = some s) :
    s.key = key ∧ s.value = text := by
  cases text with
  | nil =>
    obtain rfl := Option.some.inj h
    exact ⟨rfl,rfl⟩
  | cons c value =>
    rw [readValue] at h
    split at h
    · next hc =>
      subst hc
      obtain ⟨found,hfound,hrest⟩ := Option.bind_eq_some_iff.mp h
      split at hrest
      · next hnil =>
        obtain rfl := Option.some.inj hrest
        have htext := (Scanner.upTo_eq_some.mp hfound).1
        rw [hnil] at htext
        exact ⟨rfl,by rw [Setting.value,htext]⟩
      · cases hrest
    · obtain rfl := Option.some.inj h
      exact ⟨rfl,rfl⟩

theorem readSetting_eq_some {text : List Char} {s : Setting} (h : readSetting text = some s) : text = s.print := by
  obtain ⟨⟨key,value⟩,hfound,hvalue⟩ := Option.bind_eq_some_iff.mp h
  obtain ⟨rfl,rfl⟩ := readValue_eq_some hvalue
  exact (Scanner.upTo_eq_some.mp hfound).1

theorem readValue_group {key value : List Char} :
    readValue key ('\x7b' :: (value ++ ['\x7d'])) = some (.braced key value) ↔ scanner.Contained '\x7d' value := by
  rw [readValue,if_pos rfl]
  constructor
  · intro h
    obtain ⟨found,hfound,hrest⟩ := Option.bind_eq_some_iff.mp h
    split at hrest
    · obtain ⟨-,rfl⟩ := Setting.braced.inj (Option.some.inj hrest)
      exact (Scanner.upTo_eq_some.mp hfound).2
    · cases hrest
  · intro h
    have hfound : readArgument '\x7d' (value ++ ['\x7d']) = some (value,[]) := Scanner.upTo_append_iff.mpr h
    rw [hfound,Option.bind_some,if_pos rfl]

theorem readSetting_print {s : Setting} (h : s.Regular) :
    readSetting s.print = some s ↔ ∀ key value, s = .braced key value → scanner.Contained '\x7d' value := by
  have hkey : keys.upTo '=' () s.print = some (s.key,s.value) := Scanner.upTo_append_iff.mpr h.equals
  rw [readSetting,hkey,Option.bind_some]
  cases s with
  | plain key value =>
    have hread : readValue key value = some (.plain key value) := by
      cases value with
      | nil => rfl
      | cons c value =>
        have hc : c ≠ '\x7b' := fun hc => h.value key (c :: value) rfl (by rw [hc]; rfl)
        rw [readValue,if_neg hc]
    exact ⟨fun _ key value hsetting => (by cases hsetting),fun _ => hread⟩
  | braced key value =>
    refine readValue_group.trans ⟨fun hvalue _ _ hsetting => ?_,fun hvalue => hvalue key value rfl⟩
    obtain ⟨rfl,rfl⟩ := Setting.braced.inj hsetting
    exact hvalue

theorem contained_print {s : Setting} {stop : Char} (hkey : scanner.Contained stop s.key) (hstop : stop ≠ '=') :
    scanner.Contained stop s.print ↔ scanner.Contained stop s.value := by
  have hequals : scanner.free stop scanner.rest ('=' :: s.value) = scanner.free stop scanner.rest s.value := by
    rw [Scanner.free_cons (Ne.symm hstop)]
    rfl
  rw [Scanner.Contained,Scanner.Contained,Setting.print,Scanner.free_append,show scanner.free stop scanner.rest s.key =
    some scanner.rest from hkey,Option.bind_some,hequals]

theorem Setting.contained_comma {s : Setting} (h : s.Regular) (hs : s.Contained) : scanner.Contained ',' s.print := by
  rw [contained_print h.comma (by decide)]
  cases s with
  | plain key value => exact hs.2
  | braced key value => exact contained_group (by decide) hs

theorem Setting.contained_bracket {s : Setting} (h : s.Regular) (hs : s.Contained) :
    scanner.Contained ']' s.print := by
  rw [contained_print h.bracket (by decide)]
  cases s with
  | plain key value => exact hs.1
  | braced key value => exact contained_group (by decide) hs

theorem printSettings_cons (s : Setting) (settings : List Setting) :
    printSettings (s :: settings) = s.print ++ (settings.map Setting.print).flatMap (',' :: ·) := by
  rw [printSettings,List.map_cons]
  induction settings generalizing s with
  | nil => simp
  | cons next settings ih =>
    rw [List.map_cons,List.intercalate_cons_cons,ih next,List.flatMap_cons,List.append_assoc]
    rfl

theorem mapM_readSetting {texts : List (List Char)} {settings : List Setting}
    (h : texts.mapM readSetting = some settings) : texts = settings.map Setting.print := by
  induction texts generalizing settings with
  | nil =>
    obtain rfl := Option.some.inj h
    rfl
  | cons text texts ih =>
    rw [List.mapM_cons] at h
    obtain ⟨s,hs,h⟩ := Option.bind_eq_some_iff.mp h
    obtain ⟨more,hmore,h⟩ := Option.bind_eq_some_iff.mp h
    obtain rfl := Option.some.inj h
    rw [List.map_cons,← readSetting_eq_some hs,← ih hmore]

theorem mapM_readSetting_print {settings : List Setting} :
    (settings.map Setting.print).mapM readSetting = some settings ↔
      ∀ s ∈ settings, readSetting s.print = some s := by
  induction settings with
  | nil => simp
  | cons s settings ih =>
    rw [List.map_cons,List.mapM_cons,List.forall_mem_cons,← ih]
    constructor
    · intro h
      obtain ⟨s',hs,h⟩ := Option.bind_eq_some_iff.mp h
      obtain ⟨more,hmore,h⟩ := Option.bind_eq_some_iff.mp h
      obtain ⟨rfl,rfl⟩ := List.cons.inj (Option.some.inj h)
      exact ⟨hs,hmore⟩
    · rintro ⟨hs,hmore⟩
      rw [hs,hmore]
      rfl

theorem contained_printSettings {settings : List Setting} (h : ∀ s ∈ settings, scanner.Contained ',' s.print) :
    scanner.Contained ']' (printSettings settings) ↔ ∀ s ∈ settings, scanner.Contained ']' s.print := by
  cases settings with
  | nil => simp [printSettings,Scanner.contained_nil]
  | cons s settings =>
    rw [printSettings_cons]
    induction settings generalizing s with
    | nil => simp
    | cons next settings ih =>
      obtain ⟨hs,hmore⟩ := List.forall_mem_cons.mp h
      have hcomma : ∀ text, scanner.free ']' scanner.rest (',' :: text) = scanner.free ']' scanner.rest text := by
        intro text
        rw [Scanner.free_cons (by decide)]
        rfl
      have hnext : (',' :: next.print) ++ (settings.map Setting.print).flatMap (',' :: ·) =
          ',' :: (next.print ++ (settings.map Setting.print).flatMap (',' :: ·)) := rfl
      rw [List.map_cons,List.flatMap_cons,hnext,List.forall_mem_cons,← ih next hmore]
      constructor
      · intro hall
        obtain ⟨hfirst,hrest⟩ := hall.of_append hs
        rw [Scanner.Contained,hcomma] at hrest
        exact ⟨hfirst,hrest⟩
      · rintro ⟨hfirst,hrest⟩
        refine hfirst.append ?_
        rw [Scanner.Contained,hcomma]
        exact hrest

theorem readSettings_print {settings : List Setting} (hne : settings ≠ []) (h : ∀ s ∈ settings, s.Regular) :
    scanner.Contained ']' (printSettings settings) ∧ readSettings (printSettings settings) = some settings ↔
      ∀ s ∈ settings, s.Contained := by
  obtain ⟨first,more,rfl⟩ := List.exists_cons_of_ne_nil hne
  have hpieces : scanner.pieces ',' scanner.rest (printSettings (first :: more)) =
      some ((first :: more).map Setting.print) ↔ ∀ s ∈ first :: more, scanner.Contained ',' s.print := by
    rw [printSettings_cons,List.map_cons,Scanner.pieces_cons_eq_some,List.forall_mem_cons,List.forall_mem_map]
    exact ⟨fun hall => hall.2,fun hall => ⟨rfl,hall⟩⟩
  constructor
  · rintro ⟨hbracket,hread⟩ s hs
    obtain ⟨texts,htexts,hmap⟩ := Option.bind_eq_some_iff.mp hread
    obtain rfl := mapM_readSetting hmap
    have hcomma := hpieces.mp htexts
    have hbrackets := (contained_printSettings hcomma).mp hbracket
    have hregular := h s hs
    have hvalue := (readSetting_print hregular).mp (mapM_readSetting_print.mp hmap s hs)
    cases s with
    | plain key value =>
      exact ⟨(contained_print hregular.bracket (by decide)).mp (hbrackets _ hs),
        (contained_print hregular.comma (by decide)).mp (hcomma _ hs)⟩
    | braced key value => exact hvalue key value rfl
  · intro hall
    have hcomma : ∀ s ∈ first :: more, scanner.Contained ',' s.print :=
      fun s hs => Setting.contained_comma (h s hs) (hall s hs)
    refine ⟨(contained_printSettings hcomma).mpr fun s hs => Setting.contained_bracket (h s hs) (hall s hs),?_⟩
    rw [readSettings,hpieces.mpr hcomma,Option.bind_some,mapM_readSetting_print]
    intro s hs
    refine (readSetting_print (h s hs)).mpr ?_
    rintro key value rfl
    exact hall _ hs

/-! ## Fragments -/

/-- A part of a fragment as it is meant, with the brackets that hold settings. -/
inductive Part
  | plain (piece : Piece)
  | settings (items : List Setting)
deriving DecidableEq

def Part.piece : Part → Piece
  | .plain piece => piece
  | .settings items => .bracket (printSettings items)

structure Reads (text : List Char) (parts : List Part) : Prop where
  pieces : readFragment text = some (parts.map Part.piece)
  settings : ∀ items, .settings items ∈ parts → readSettings (printSettings items) = some items

def Part.Contained : Part → Prop
  | .plain piece => piece.Contained
  | .settings items => ∀ s ∈ items, s.Contained

structure RegularParts (parts : List Part) : Prop where
  pieces : Regular (parts.map Part.piece)
  settings : ∀ items, .settings items ∈ parts → items ≠ [] ∧ ∀ s ∈ items, s.Regular

theorem regularParts_nil : RegularParts [] := ⟨trivial,fun _ h => (by cases h)⟩

theorem RegularParts.cons_plain {piece : Piece} {parts : List Part} (h : RegularParts parts)
    (hpiece : piece.Regular (print (parts.map Part.piece))) : RegularParts (.plain piece :: parts) := by
  refine ⟨⟨hpiece,h.pieces⟩,fun items hitems => ?_⟩
  rcases List.mem_cons.mp hitems with heq | hitems
  · cases heq
  · exact h.settings items hitems

theorem RegularParts.cons_settings {items : List Setting} {parts : List Part} (h : RegularParts parts)
    (hne : items ≠ []) (hitems : ∀ s ∈ items, s.Regular) : RegularParts (.settings items :: parts) := by
  refine ⟨⟨trivial,h.pieces⟩,fun items' hmem => ?_⟩
  rcases List.mem_cons.mp hmem with heq | hmem
  · cases heq
    exact ⟨hne,hitems⟩
  · exact h.settings items' hmem

/-- A fragment is read as it is meant exactly if every argument and every value is contained. -/
theorem reads_print {parts : List Part} (h : RegularParts parts) :
    Reads (print (parts.map Part.piece)) parts ↔ ∀ part ∈ parts, part.Contained := by
  constructor
  · rintro ⟨hpieces,hsettings⟩ part hpart
    have hpiece := (readFragment_print h.pieces).mp hpieces _ (List.mem_map_of_mem hpart)
    cases part with
    | plain piece => exact hpiece
    | settings items =>
      obtain ⟨hne,hregular⟩ := h.settings items hpart
      exact (readSettings_print hne hregular).mp ⟨hpiece,hsettings items hpart⟩
  · intro hall
    constructor
    · rw [readFragment_print h.pieces]
      intro piece hpiece
      obtain ⟨part,hpart,rfl⟩ := List.mem_map.mp hpiece
      cases part with
      | plain piece => exact hall _ hpart
      | settings items =>
        obtain ⟨hne,hregular⟩ := h.settings items hpart
        exact ((readSettings_print hne hregular).mpr (hall _ hpart)).1
    · intro items hpart
      obtain ⟨hne,hregular⟩ := h.settings items hpart
      exact ((readSettings_print hne hregular).mpr (hall _ hpart)).2

/-! ## Lines -/

def printParts (parts : List Part) : List Char := print (parts.map Part.piece)

def newlinePart : Part := .plain (.char '\n')

def joinParts (lines : List (List Part)) : List Part := [newlinePart].intercalate lines

structure Lined (text : List Char) (parts : List Part) : Prop where
  text : text = printParts parts
  regular : RegularParts parts

theorem lined {texts : List (List Char)} {lines : List (List Part)} (h : List.Forall₂ Lined texts lines) :
    texts = lines.map printParts ∧ ∀ line ∈ lines, RegularParts line := by
  induction h with
  | nil => exact ⟨rfl,by simp⟩
  | cons hline _ ih =>
    exact ⟨by rw [List.map_cons,← ih.1,hline.text],List.forall_mem_cons.mpr ⟨hline.regular,ih.2⟩⟩

theorem map_piece_joinParts (lines : List (List Part)) :
    (joinParts lines).map Part.piece = joined (lines.map (List.map Part.piece)) :=
  map_intercalate Part.piece _ lines

theorem regularParts_joinParts {lines : List (List Part)} (h : ∀ line ∈ lines, RegularParts line) :
    RegularParts (joinParts lines) := by
  constructor
  · rw [map_piece_joinParts]
    refine regular_joined fun pieces hpieces => ?_
    obtain ⟨line,hline,rfl⟩ := List.mem_map.mp hpieces
    exact (h line hline).pieces
  · intro items hitems
    rcases mem_intercalate hitems with hnewline | ⟨line,hline,hmem⟩
    · cases List.mem_singleton.mp hnewline
    · exact (h line hline).settings items hmem

theorem contained_joinParts {lines : List (List Part)} :
    (∀ part ∈ joinParts lines, part.Contained) ↔ ∀ line ∈ lines, ∀ part ∈ line, part.Contained := by
  constructor
  · intro hall line hline part hpart
    exact hall part (mem_intercalate_of_mem hline hpart)
  · intro hall part hpart
    rcases mem_intercalate hpart with hnewline | ⟨line,hline,hmem⟩
    · rw [List.mem_singleton.mp hnewline]
      trivial
    · exact hall line hline part hmem

/-- Line ends and the parts of a line open and close nothing. -/
def Part.Neutral : Part → Prop
  | .plain (.enter _) => False
  | .plain (.leave _) => False
  | _ => True

def followParts (opened : List (List Char)) (line : List Part) : Option (List (List Char)) :=
  (line.map Part.piece).foldlM follow opened

/-- The environments of the lines are nested, and none is left open. -/
def Level (lines : List (List Part)) : Prop := ∀ opened, lines.foldlM followParts opened = some opened

theorem Part.Neutral.follow {part : Part} (h : part.Neutral) (opened : List (List Char)) :
    Tex.follow opened part.piece = some opened := by
  cases part with
  | settings items => rfl
  | plain piece =>
    cases piece with
    | enter name => exact h.elim
    | leave name => exact h.elim
    | _ => rfl

theorem followParts_neutral {line : List Part} (h : ∀ part ∈ line, part.Neutral) (opened : List (List Char)) :
    followParts opened line = some opened := by
  induction line with
  | nil => rfl
  | cons part line ih =>
    obtain ⟨hpart,hline⟩ := List.forall_mem_cons.mp h
    rw [followParts,List.map_cons,List.foldlM_cons,hpart.follow]
    exact ih hline

theorem Level.append {lines more : List (List Part)} (h : Level lines) (h' : Level more) : Level (lines ++ more) := by
  intro opened
  rw [List.foldlM_append,h opened]
  exact h' opened

theorem level_neutral {lines : List (List Part)} (h : ∀ line ∈ lines, ∀ part ∈ line, part.Neutral) : Level lines := by
  intro opened
  induction lines with
  | nil => rfl
  | cons line lines ih =>
    obtain ⟨hline,hlines⟩ := List.forall_mem_cons.mp h
    rw [List.foldlM_cons,followParts_neutral hline]
    exact ih hlines

theorem Level.environment {name : List Char} {arguments : List Part} {lines : List (List Part)}
    (h : Level lines) (harguments : ∀ part ∈ arguments, part.Neutral) :
    Level ((.plain (.enter name) :: arguments) :: (lines ++ [[.plain (.leave name)]])) := by
  intro opened
  have henter : followParts opened (.plain (.enter name) :: arguments) = some (name :: opened) :=
    followParts_neutral harguments (name :: opened)
  have hleave : followParts (name :: opened) [.plain (.leave name)] = some opened := by
    rw [followParts,List.map_cons,List.foldlM_cons,Part.piece,follow,List.head?_cons,if_pos rfl]
    rfl
  rw [List.foldlM_cons,henter]
  refine List.foldlM_append.trans ?_
  rw [h (name :: opened)]
  exact (bind_pure _).trans hleave

theorem Level.nested {lines : List (List Part)} (h : Level lines) : Nested ((joinParts lines).map Part.piece) := by
  rw [Nested,map_piece_joinParts,foldlM_follow_joined,List.foldlM_map]
  exact h []

structure Fragment (text : List Char) (lines : List (List Part)) : Prop where
  balanced : Balanced text
  nested : Nested ((joinParts lines).map Part.piece)
  reads : Reads text (joinParts lines)

theorem fragment_iff {texts : List (List Char)} {lines : List (List Part)} (h : List.Forall₂ Lined texts lines)
    (hlevel : Level lines) : Fragment (['\n'].intercalate texts) lines ↔
      ∀ line ∈ lines, ∀ part ∈ line, part.Contained := by
  obtain ⟨htexts,hlines⟩ := lined h
  have htext : ['\n'].intercalate texts = print ((joinParts lines).map Part.piece) := by
    rw [map_piece_joinParts,print_joined,htexts,List.map_map]
    rfl
  have hregular := regularParts_joinParts hlines
  rw [htext,← contained_joinParts]
  constructor
  · intro hfragment
    exact (reads_print hregular).mp hfragment.reads
  · intro hall
    refine ⟨balanced_print hregular.pieces ?_,hlevel.nested,(reads_print hregular).mpr hall⟩
    exact (readFragment_print hregular.pieces).mp ((reads_print hregular).mpr hall).pieces

end Tex
end LatexCore.Foundation
