/-!
# Lines of a text

A line ends after a character that ends lines, but a carriage return and a line feed after it are
one end. The end belongs to its line. The empty text has one empty line, and nothing follows the
last line's end.

* `Lines.flatten_split` says that the lines make up the text;
* `SourceText.lineIndex?` is the line that a position belongs to.
-/

namespace Recast

namespace Lines

/-- The characters that end a line: line feed, vertical tab, form feed, carriage return, next
line, and the separators of lines and paragraphs. -/
def terminators : List Char :=
  ['\n', '\x0b', '\x0c', '\r', '\u0085', '\u2028', '\u2029']

/-- Cut a text after each end of a line. -/
def split : List Char → List (List Char)
  | [] => []
  | '\r' :: '\n' :: cs => ['\r', '\n'] :: split cs
  | c :: cs =>
    if c ∈ terminators then [c] :: split cs
    else
      match split cs with
      | [] => [[c]]
      | l :: ls => (c :: l) :: ls

theorem flatten_split (cs : List Char) : (split cs).flatten = cs := by
  fun_induction split cs with
  | case1 => rfl
  | case2 cs ih => simp [ih]
  | case3 c cs _ _ ih => simp [ih]
  | case4 c cs _ _ hs ih => simp_all
  | case5 c cs _ _ l ls hs ih => simp_all

/-- A carriage return ends a line alone or together with the line feed after it. -/
example : split ['a', '\r', '\n', 'b', '\r', 'c'] = [['a', '\r', '\n'], ['b', '\r'], ['c']] := by
  decide +kernel

/-- A vertical tab after a carriage return ends a line of its own. -/
example : split ['a', '\r', '\x0b', 'b'] = [['a', '\r'], ['\x0b'], ['b']] := by decide +kernel

end Lines

/-- A line and where it stands in the text. -/
structure Line where
  /-- The position of its first character. -/
  start : Nat
  /-- Its characters, the end of the line included. -/
  chars : List Char

/-- The position after a line. -/
def Line.stop (l : Line) : Nat := l.start + l.chars.length

/-- A text by its lines. -/
structure SourceText where
  /-- The lines in order. -/
  lines : List Line
  /-- The number of characters. -/
  size : Nat

namespace SourceText

/-- Place lines one after the other. -/
def place : Nat → List (List Char) → List Line
  | _, [] => []
  | start, cs :: rest => ⟨start, cs⟩ :: place (start + cs.length) rest

/-- Read a text. -/
def ofString (s : String) : SourceText :=
  let cs := s.toList
  ⟨if cs.isEmpty then [⟨0, []⟩] else place 0 (Lines.split cs), cs.length⟩

/-- The last line that starts at or before a position; a position after the text has none. -/
def lineIndex? (T : SourceText) (position : Nat) : Option Nat :=
  if T.size < position then none else some (T.lines.countP (·.start ≤ position) - 1)

/-- The line and the column of a position, counted from one. -/
def location? (T : SourceText) (position : Nat) : Option (Nat × Nat) := do
  let i ← T.lineIndex? position
  let l ← T.lines[i]?
  return (i + 1, position - l.start + 1)

end SourceText

end Recast
