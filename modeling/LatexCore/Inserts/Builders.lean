import LatexCore.Foundation.TextOffsets
import Mathlib.Data.List.Basic

/-! # Insert builders

The builders of the Writer client put the fields of a dialog into LaTeX and BibTeX.
Absent fields are empty texts, which JavaScript takes for absent too, and numbers are
what `parseInt` makes of their fields.
-/
namespace LatexCore.Inserts
open Foundation

@[irreducible] def lit (text : String) : List Char := text.toList

theorem lit_eq (text : String) : lit text = text.toList := by
  rw [lit]

/-- A number field, where NaN and zero give the minimum. -/
def clamp (value : Option ℤ) (minimum maximum : ℤ) : ℕ :=
  (min maximum (max minimum ((value.filter (· ≠ 0)).getD minimum))).toNat

def isLabel (c : Char) : Bool := c.isAlphanum || c == ':' || c == '_' || c == '.' || c == '-'

/-- Every UTF-16 unit that is not replaced by itself is replaced by a hyphen. -/
def safeLabel (value : List Char) : List Char :=
  value.flatMap (fun c => if isLabel c then [c] else List.replicate (utf16Size c) '-')

def safeChar (c : Char) : List Char :=
  if c = '\\' then lit "\\textbackslash{}"
  else if c = '\x7b' ∨ c = '\x7d' ∨ c = '%' ∨ c = '&' ∨ c = '#' then ['\\',c]
  else [c]

def safeText (value : List Char) : List Char := value.flatMap safeChar

def isPath (c : Char) : Bool :=
  !(c == '\x7b' || c == '\x7d' || c == '\\' || c == '\r' || c == '\n' || c == '%' || c == '#')

def safePath (value : List Char) : List Char := value.filter isPath

/-- `||` on texts. -/
def orElse (value fallback : List Char) : List Char := if value = [] then fallback else value

/-- A text that is put in where the field is given. -/
def whenGiven {α : Type} (value : List Char) (result : List α) : List α := if value = [] then [] else result

def join (lines : List (List Char)) : List Char := ['\n'].intercalate lines

def captionLine (caption : List Char) : List Char := lit "\\caption\x7b" ++ safeText caption ++ lit "\x7d"

def labelLine (label : List Char) : List Char := lit "\\label\x7b" ++ safeLabel label ++ lit "\x7d"

/-! ## Tables -/

/-- The text of an alignment; any other text, unless every object inherits the name, is the last one. -/
inductive Alignment
  | left | center | right | other
deriving DecidableEq

def Alignment.letter : Alignment → Char
  | .left => 'l'
  | .center => 'c'
  | .right => 'r'
  | .other => 'l'

structure TableOptions where
  rows : Option ℤ
  columns : Option ℤ
  alignments : List Alignment
  header : Bool
  booktabs : Bool
  caption : List Char
  label : List Char
  placement : List Char

def TableOptions.alignmentLetters (o : TableOptions) : List Char :=
  (List.range (clamp o.columns 1 12)).map (fun index => ((o.alignments[index]?).getD .other).letter)

def TableOptions.cell (o : TableOptions) (row column : ℕ) : List Char :=
  if o.header ∧ row = 0 then lit "Header " ++ Nat.toDigits 10 (column + 1)
  else lit "Cell " ++ Nat.toDigits 10 (row + 1) ++ ['.'] ++ Nat.toDigits 10 (column + 1)

def TableOptions.cells (o : TableOptions) (row : ℕ) : List Char :=
  (lit " & ").intercalate ((List.range (clamp o.columns 1 12)).map (o.cell row))

def TableOptions.rowLines (o : TableOptions) (row : ℕ) : List (List Char) :=
  (o.cells row ++ lit " \\\\") :: if o.booktabs ∧ o.header ∧ row = 0 then [lit "\\midrule"] else []

def buildTable (o : TableOptions) : List Char :=
  join ([lit "\\begin{table}[" ++ orElse o.placement (lit "htbp") ++ lit "]",lit "\\centering",
      lit "\\begin{tabular}\x7b" ++ o.alignmentLetters ++ lit "\x7d"] ++
    (if o.booktabs then [lit "\\toprule"] else []) ++
    (List.range (clamp o.rows 1 30)).flatMap o.rowLines ++
    (if o.booktabs then [lit "\\bottomrule"] else []) ++
    [lit "\\end{tabular}"] ++
    whenGiven o.caption [captionLine o.caption] ++
    whenGiven o.label [labelLine o.label] ++
    [lit "\\end{table}"])

/-! ## Figures and plots -/

def lineWidth : List Char := lit "\\linewidth"

structure FigureOptions where
  asset : List Char
  width : List Char
  customWidth : List Char
  placement : List Char
  caption : List Char
  label : List Char

def FigureOptions.givenWidth (o : FigureOptions) : List Char :=
  if o.width = lit "custom" then orElse o.customWidth lineWidth else orElse o.width lineWidth

def buildFigure (o : FigureOptions) : List Char :=
  join ([lit "\\begin{figure}[" ++ orElse o.placement (lit "htbp") ++ lit "]",lit "\\centering",
      lit "\\includegraphics[width=" ++ o.givenWidth ++ lit "]\x7b" ++
        safePath (orElse o.asset (lit "path/to/image")) ++ lit "\x7d"] ++
    whenGiven o.caption [captionLine o.caption] ++
    whenGiven o.label [labelLine o.label] ++
    [lit "\\end{figure}"])

structure PlotOptions where
  asset : List Char
  x : List Char
  y : List Char
  type : List Char
  title : List Char
  xLabel : List Char
  yLabel : List Char
  legend : List Char
  caption : List Char
  label : List Char
  width : List Char

def PlotOptions.plotOptions (o : PlotOptions) : List Char :=
  let type := orElse o.type (lit "line")
  if type = lit "scatter" then lit "only marks" else if type = lit "bar" then lit "ybar" else []

def PlotOptions.axisLine (o : PlotOptions) : List Char :=
  lit "\\begin{axis}[width=" ++ orElse o.width lineWidth ++ lit ",title=\x7b" ++ safeText o.title ++
    lit "\x7d,xlabel=\x7b" ++ safeText o.xLabel ++ lit "\x7d,ylabel=\x7b" ++ safeText o.yLabel ++ lit "\x7d" ++
    whenGiven o.legend (lit ",legend entries=\x7b" ++ safeText o.legend ++ lit "\x7d") ++ lit "]"

def PlotOptions.addplotLine (o : PlotOptions) : List Char :=
  lit "\\addplot[" ++ o.plotOptions ++ lit "] table[x=" ++ safeText (orElse o.x (lit "x")) ++ lit ",y=" ++
    safeText (orElse o.y (lit "y")) ++ lit ",col sep=comma] \x7b" ++ safePath (orElse o.asset (lit "data.csv")) ++
    lit "\x7d;"

def buildPlot (o : PlotOptions) : List Char :=
  join ([lit "\\begin{figure}[htbp]",lit "\\centering",lit "\\begin{tikzpicture}",o.axisLine,o.addplotLine,
      lit "\\end{axis}",lit "\\end{tikzpicture}"] ++
    whenGiven o.caption [captionLine o.caption] ++
    whenGiven o.label [labelLine o.label] ++
    [lit "\\end{figure}"])

/-! ## Bibliography entries -/

structure BibtexOptions where
  type : List Char
  key : List Char
  title : List Char
  author : List Char
  year : List Char
  journal : List Char
  booktitle : List Char
  doi : List Char
  url : List Char

def entryTypes : List (List Char) :=
  [lit "article",lit "book",lit "inproceedings",lit "misc"]

def BibtexOptions.entryType (o : BibtexOptions) : List Char :=
  if entryTypes.contains o.type then o.type else lit "article"

/-- The fields of an entry, in their order. -/
def BibtexOptions.candidates (o : BibtexOptions) : List (List Char × List Char) :=
  [(lit "title",o.title),(lit "author",o.author),(lit "year",o.year),(lit "journal",o.journal),
    (lit "booktitle",o.booktitle),(lit "doi",o.doi),(lit "url",o.url)]

def BibtexOptions.fields (o : BibtexOptions) : List (List Char × List Char) :=
  o.candidates.filter (fun field => field.2 ≠ [])

def buildBibtexEntry (o : BibtexOptions) : List Char :=
  lit "@" ++ o.entryType ++ lit "\x7b" ++ safeLabel (orElse o.key (lit "key")) ++ lit ",\n" ++
    (lit ",\n").intercalate (o.fields.map (fun field =>
      lit "  " ++ field.1 ++ lit " = \x7b" ++ safeText field.2 ++ lit "\x7d")) ++ lit "\n\x7d"

/-! ## Algorithms, listings and theorems -/

structure AlgorithmOptions where
  caption : List Char
  label : List Char
  body : List Char

def buildAlgorithm (o : AlgorithmOptions) : List Char :=
  let body := join ((orElse o.body (lit "\\State Describe the method")).splitOn '\n')
  lit "\\begin{algorithm}\n\\caption\x7b" ++ safeText (orElse o.caption (lit "Algorithm")) ++ lit "\x7d" ++
    whenGiven o.label (lit "\n" ++ labelLine o.label) ++ lit "\n\\begin{algorithmic}[1]\n" ++ body ++
    lit "\n\\end{algorithmic}\n\\end{algorithm}"

structure ListingOptions where
  language : List Char
  caption : List Char
  label : List Char
  file : List Char
  code : List Char

def ListingOptions.settings (o : ListingOptions) : List Char :=
  lit "[language=" ++ safeText o.language ++ lit ",caption=\x7b" ++ safeText o.caption ++ lit "\x7d" ++
    whenGiven o.label (lit ",label=\x7b" ++ safeLabel o.label ++ lit "\x7d") ++ lit "]"

def buildCodeListing (o : ListingOptions) : List Char :=
  if o.file ≠ [] then lit "\\lstinputlisting" ++ o.settings ++ lit "\x7b" ++ safePath o.file ++ lit "\x7d"
  else lit "\\begin{lstlisting}" ++ o.settings ++ lit "\n" ++ o.code ++ lit "\n\\end{lstlisting}"

structure TheoremOptions where
  environment : List Char
  title : List Char
  label : List Char
  body : List Char

def buildTheorem (o : TheoremOptions) : List Char :=
  let environment := safeLabel (orElse o.environment (lit "theorem"))
  lit "\\begin\x7b" ++ environment ++ lit "\x7d" ++ whenGiven o.title (lit "[" ++ safeText o.title ++ lit "]") ++
    whenGiven o.label (lit "\n" ++ labelLine o.label) ++ lit "\n" ++ orElse o.body (lit "Statement.") ++
    lit "\n\\end\x7b" ++ environment ++ lit "\x7d"

/-! ## Inserts -/

/-- What the dialogs insert, but for equations, whose texts are bodies. -/
inductive Insert
  | table (options : TableOptions)
  | figure (options : FigureOptions)
  | plot (options : PlotOptions)
  | algorithm (options : AlgorithmOptions)
  | code (options : ListingOptions)
  | bibliography (options : BibtexOptions)
  | theorem_ (options : TheoremOptions)

def builderSource : Insert → List Char
  | .table options => buildTable options
  | .figure options => buildFigure options
  | .plot options => buildPlot options
  | .algorithm options => buildAlgorithm options
  | .code options => buildCodeListing options
  | .bibliography options => buildBibtexEntry options
  | .theorem_ options => buildTheorem options

end LatexCore.Inserts
