import Recast.Report.Diagnostic
import Recast.Report.Paint
import Recast.Text.Lines

/-!
# The layout of marks

A mark is a range of the source with a message. The marks of a diagnostic are its own place and
the related ones; those that lie outside the source are left out, and the others are shown in
groups, each over a range of lines in ascending order.

* `marks?` lists the marks, unless a range is reversed;
* `groups` puts them into groups, `Group.onLine` finds those that a line shows.
-/

namespace Recast.Report

/-- A range of the source with a message and a color of its own. -/
structure Mark where
  /-- The range. -/
  span : Span
  /-- The message. -/
  message : String
  /-- The color it is drawn in. -/
  color : Color

namespace Mark

variable (a : Mark)

/-- The number of characters that are marked. -/
def length : Nat := a.span.stop - a.span.start

/-- The character at a position is marked. -/
def covers (position : Nat) : Bool := a.span.start ≤ position && position < a.span.stop

/-- The line a mark belongs to, that of its last character. An empty mark belongs to the line it
stands on, and one that does not lie in the source to none. -/
def line? (T : SourceText) : Option Nat :=
  T.lineIndex? (if a.span.start < a.span.stop then a.span.stop - 1 else a.span.start)

end Mark

/-- Why a diagnostic cannot be drawn. -/
inductive DrawError where
  /-- A range starts after its end. -/
  | reversedSpan (s : Span)
  deriving DecidableEq

/-- The text of the error. -/
def DrawError.message : DrawError → String
  | reversedSpan _ => "Label start is after its end"

/-- The marks of a diagnostic: its own place with its message, then the related ones. -/
def marks? (d : Diagnostic) : Except DrawError (List Mark) :=
  (⟨d.span, d.message⟩ :: d.related).zipIdx.mapM fun (r, i) =>
    if r.span.stop < r.span.start then .error (.reversedSpan r.span)
    else .ok ⟨r.span, r.message, .ofIndex i⟩

/-- A mark with the line it belongs to. -/
structure Placed where
  /-- The mark. -/
  mark : Mark
  /-- The line. -/
  line : Nat

/-- Marks that are shown together. -/
abbrev Group := List Placed

/-- The marks that lie in the source, in groups: a mark joins the group before it unless it would
go back to an earlier line. -/
def groups (T : SourceText) (as : List Mark) : List Group :=
  (as.filterMap fun a => (a.line? T).map (⟨a, ·⟩)).splitBy fun a b => !(b.line < a.line)

namespace Group

variable (G : Group)

/-- The first marked position. -/
def start : Nat := (G.map (·.mark.span.start)).min?.getD 0

/-- The position after the last marked one. -/
def stop : Nat := (G.map (·.mark.span.stop)).max?.getD 0

/-- The first line that is shown. -/
def firstLine (T : SourceText) : Nat := (T.lineIndex? G.start).getD 0

/-- The last line that is shown. -/
def lastLine (T : SourceText) : Nat := (T.lineIndex? (max (G.stop - 1) G.start)).getD 0

/-- The marks that lie within a line, its end included. -/
def onLine (l : Line) : List Mark :=
  (G.map (·.mark)).filter fun a => l.start ≤ a.span.start && a.span.stop ≤ l.stop

end Group

/-- A mark on a line, with the column that points to its message: the middle of the mark. -/
structure Pointer where
  /-- The mark. -/
  mark : Mark
  /-- The column within the line. -/
  column : Nat

/-- The pointers of a line from left to right; of two in one column, the one that starts later
comes first. -/
def pointers (l : Line) (as : List Mark) : List Pointer :=
  (as.map fun a => ⟨a, (a.span.start + a.span.stop) / 2 - l.start⟩).mergeSort fun p q =>
    p.column < q.column ||
      p.column == q.column && q.mark.span.start ≤ p.mark.span.start

/-- The shortest mark that covers a position, the first of several. -/
def shortestAt? (ps : List Pointer) (position : Nat) : Option Mark :=
  ((ps.map (·.mark)).filter (·.covers position)).foldl (fun best a =>
    match best with
    | some b => if a.length < b.length then some a else some b
    | none => some a) none

end Recast.Report
