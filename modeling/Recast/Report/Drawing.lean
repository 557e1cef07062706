import Recast.Decimal.Shortest
import Recast.Report.Layout
import Recast.Text.Width

/-!
# Drawing diagnostics

A diagnostic is drawn over the lines of the source it is about: a header, the lines with what
is marked in them, a pointer from every mark to its message, and the suggestions.

* `draw` draws one diagnostic;
* `Failure.render` writes a failure with all its diagnostics.
-/

namespace Recast

namespace Report

/-- The characters that lines are drawn with. -/
inductive Charset where
  | unicode
  | ascii
  deriving DecidableEq

/-- How a failure is written. -/
structure Style where
  /-- Colors are shown. -/
  color : Bool
  /-- The name of the source, if it has one. -/
  filename : Option String
  /-- The characters that lines are drawn with. -/
  charset : Charset
  deriving DecidableEq

/-- In color, without a name, in line drawing characters. -/
def Style.standard : Style := ⟨true, none, .unicode⟩

namespace Charset

/-- A line to the right. -/
def horizontal : Charset → String
  | unicode => "─"
  | ascii => "-"

/-- A line down. -/
def vertical : Charset → String
  | unicode => "│"
  | ascii => "|"

/-- The corner where a drawing starts. -/
def top : Charset → String
  | unicode => "╭"
  | ascii => ","

/-- The branch where another group starts. -/
def branch : Charset → String
  | unicode => "├"
  | ascii => "|"

/-- The corner where a drawing ends. -/
def bottom : Charset → String
  | unicode => "╯"
  | ascii => "'"

/-- The corner where a pointer turns to its message. -/
def turn : Charset → String
  | unicode => "╰"
  | ascii => "\x60"

/-- The place of a mark where its pointer starts. -/
def underBar : Charset → String
  | unicode => "┬"
  | ascii => "|"

/-- The rest of a mark. -/
def underline : Charset → String
  | unicode => "─"
  | ascii => "^"

end Charset

/-! ### Colors of the parts -/

/-- The color of the frame. -/
def frameColor : Color := .palette 246

/-- The color of the margin beside lines without a number. -/
def marginColor : Color := .palette 240

/-- The color of source text that is not marked. -/
def sourceColor : Color := .palette 249

/-- The color of the word for suggestions. -/
def helpColor : Color := .palette 115

/-- The word for a severity. -/
def severityTitle : Severity → String
  | .error => "Error"
  | .warning => "Warning"
  | .info => "Advice"

/-- The color of a severity. -/
def severityColor : Severity → Color
  | .error => .basic 31
  | .warning => .basic 33
  | .info => .palette 147

/-! ### Parts of a drawing -/

/-- The code in brackets, filled up with blanks to two characters. -/
def codeTag (code : String) : String := "[" ++ code ++ blanks (2 - code.length) ++ "] "

/-- The first line: the code, the severity and the message. -/
def header (d : Diagnostic) : Drawing :=
  let code := (d.code.map codeTag).getD ""
  [paint (code ++ severityTitle d.severity ++ ":") (severityColor d.severity),
    plain (" " ++ d.message ++ "\n")]

/-- The place that a diagnostic is about: source, line and column. -/
def place (T : SourceText) (style : Style) (d : Diagnostic) : String :=
  style.filename.getD "<unknown>" ++ ":" ++
    match T.location? d.span.start with
    | some (line, column) => line.repr ++ ":" ++ column.repr
    | none => "?:?"

variable (cs : Charset) (w : Nat)

/-- The margin beside a line without a number. -/
def margin : Drawing :=
  [plain " ", paint (blanks (w + 1) ++ cs.vertical) marginColor, plain " "]

/-- The head of a group: where the diagnostic is about. -/
def groupHead (first : Bool) (place : String) : Drawing :=
  [plain (blanks (w + 2)), paint (if first then cs.top else cs.branch) frameColor,
    paint cs.horizontal frameColor, paint "[" frameColor, plain (" " ++ place ++ " "),
    paint "]" frameColor, plain ("\n" ++ blanks (w + 2)), paint cs.vertical frameColor,
    plain "\n"]

/-- The end of a group. -/
def groupEnd (last : Bool) : Drawing :=
  if last then
    [paint (.join (List.replicate (w + 2) cs.horizontal) ++ cs.bottom) frameColor, plain "\n"]
  else [plain (blanks (w + 2)), paint cs.vertical frameColor, plain "\n"]

/-- The line number in front of a source line. -/
def numberColumn (number : Nat) : Drawing :=
  let digits := number.repr
  [plain " ", paint (blanks (w - digits.length) ++ digits ++ " " ++ cs.vertical) frameColor,
    plain " "]

/-- A column of a row: what stands in its first cell, if it has one, and what fills the
others. -/
def column (width : Nat) (first rest : Fragment) : Drawing :=
  match width with
  | 0 => []
  | n + 1 => first :: List.replicate n rest

/-- A source line with what is marked in it. -/
def sourceLine (l : Line) (ps : List Pointer) : Drawing :=
  (Width.trimEnd l.chars).zipIdx.flatMap fun (c, i) =>
    let color := match shortestAt? ps (l.start + i) with
      | some a => a.color
      | none => sourceColor
    if Width.isBlank c then column (Width.width c i) (paint " " color) (paint " " color)
    else [paint c.toString color]

/-- The width of a column below a source line. -/
def columnWidth (l : Line) (i : Nat) : Nat :=
  match (Width.trimEnd l.chars)[i]? with
  | some c => Width.width c i
  | none => 1

/-- The row under a source line or between two messages: the marks, in the first such row, and
the pointers that go further down. -/
def pointerRow (l : Line) (marks below : List Pointer) (columns : Nat) : Drawing :=
  (List.range columns).flatMap fun i =>
    let width := columnWidth l i
    match (below.find? (·.column == i)).map (·.mark), shortestAt? marks (l.start + i) with
    | some p, some _ => column width (paint cs.underBar p.color) (paint cs.underline p.color)
    | some p, none => column width (paint cs.vertical p.color) (paint " " p.color)
    | none, some m => column width (paint cs.underline m.color) (paint cs.underline m.color)
    | none, none => column width (plain " ") (plain " ")

/-- The row that leads a pointer to its message. Pointers further down stand to the right of
its turn, where it crosses them. -/
def messageRow (l : Line) (p : Pointer) (columns : Nat) : Drawing :=
  let color := p.mark.color
  (List.range columns).flatMap fun i =>
    let width := columnWidth l i
    if i < p.column then column width (plain " ") (plain " ")
    else if i = p.column then column width (paint cs.turn color) (paint cs.horizontal color)
    else column width (paint cs.horizontal color) (paint cs.horizontal color)

/-- The rows for the pointers of a line that have no message yet; the marks are drawn in the
first row. -/
def messageRows (l : Line) (columns : Nat) : List Pointer → List Pointer → Drawing
  | _, [] => []
  | marks, p :: ps =>
    margin cs w ++ pointerRow cs l marks (p :: ps) columns ++ [plain "\n"] ++
      margin cs w ++ messageRow cs l p columns ++ [plain (" " ++ p.mark.message ++ "\n")] ++
      messageRows l columns [] ps

/-- A source line with all its messages. -/
def markedLine (number : Nat) (l : Line) (ps : List Pointer) : Drawing :=
  let columns := (ps.map fun p => p.mark.span.stop - l.start).foldl max 0 + 2
  numberColumn cs w number ++ sourceLine l ps ++ [plain "\n"] ++
    messageRows cs w l columns ps ps

/-- The lines of a group. Of lines without a mark that follow each other, only one is
hinted at. -/
def groupLines (G : Group) : Bool → List (Line × Nat) → Drawing
  | _, [] => []
  | skipping, (l, i) :: ls =>
    match G.onLine l with
    | [] => (if skipping then [] else margin cs w ++ [plain "\n"]) ++ groupLines G true ls
    | as => markedLine cs w (i + 1) l (pointers l as) ++ groupLines G false ls

/-- The lines of a suggestion: those of its text, which is cut at line feeds. A carriage return
before a line feed belongs to it, and nothing follows the last line feed. -/
def helpLines (text : String) : List String :=
  let parts := text.splitOn "\n"
  let ended := parts.dropLast.map fun s =>
    if s.endsWith "\r" then .ofList s.toList.dropLast else s
  match parts.getLast? with
  | none | some "" => ended
  | some s => ended ++ [s]

/-- A suggestion after its title. -/
def suggestion (title : String) (text : String) : Drawing :=
  margin cs w ++ [plain "\n"] ++ (helpLines text).zipIdx.flatMap fun (s, i) =>
    margin cs w ++
      (if i = 0 then [paint title helpColor, plain ": "]
        else [plain (blanks (title.length + 2))]) ++ [plain (s ++ "\n")]

/-- The suggestions, numbered if there are several. -/
def suggestions (help : List String) : Drawing :=
  help.zipIdx.flatMap fun (text, i) =>
    suggestion cs w (if help.length ≤ 1 then "Help" else "Help " ++ (i + 1).repr) text

/-! ### Diagnostics and failures -/

/-- Draw a diagnostic over the source. -/
def draw (T : SourceText) (style : Style) (d : Diagnostic) : Except DrawError Drawing := do
  let Gs := groups T (← marks? d)
  let cs := style.charset
  let w := Decimal.digitCount ((Gs.map (·.lastLine T)).foldl max 0 + 1)
  let body := Gs.zipIdx.flatMap fun (G, i) =>
    let last := i + 1 == Gs.length
    let lines := (T.lines.zipIdx.take (G.lastLine T + 1)).drop (G.firstLine T)
    groupHead cs w (i == 0) (place T style d) ++ groupLines cs w G false lines ++
      (if last then suggestions cs w d.help else []) ++ groupEnd cs w last
  return header d ++ body

end Report

/-- Write a failure over the source it is about. A defect of the compiler is said to be one. -/
def Failure.render (f : Failure) (source : String) (style : Report.Style) :
    Except Report.DrawError String := do
  let T := SourceText.ofString source
  let drawings ← f.diagnostics.mapM (Report.draw T style)
  let banner := if f.isInternal then "Internal compiler error, please report it.\n" else ""
  return banner ++ .join (drawings.map (Report.Drawing.write style.color))

end Recast
