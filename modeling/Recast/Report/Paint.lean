/-!
# Paint

A drawing is a list of fragments of text, each in a color or in none. Whether colors are shown
is decided when the drawing is written, so it never changes what is drawn.

* `Fragment.write` writes a fragment with or without its color;
* `Color.ofIndex` gives each of several marks a color of its own.
-/

namespace Recast.Report

/-- A color of a terminal. -/
inductive Color where
  /-- One of the basic colors, by the number that selects it. -/
  | basic (n : Nat)
  /-- One of a palette of 256. -/
  | palette (n : Nat)
  deriving DecidableEq

/-- The sequence that starts a color. -/
def Color.start : Color → String
  | basic n => "\x1b[" ++ n.repr ++ "m"
  | palette n => "\x1b[38;5;" ++ n.repr ++ "m"

/-- The color of the mark at a position. The three parts of a color run through the upper
half of their ranges in steps that keep neighbours apart. -/
def Color.ofIndex (i : Nat) : Color :=
  let part (first : Nat) (step : Nat) : Nat := (first + (i + 2) * step) % 65536 + 65535
  let red := part 30000 (40503 * 1130)
  let green := part 15000 (40503 * 1134)
  let blue := part 35000 (40503 * 1138)
  palette (16 + (180 * red + 30 * green + 5 * blue) / 131070)

example : (List.range 4).map Color.ofIndex =
    [.palette 155, .palette 187, .palette 218, .palette 158] := by decide

/-- A piece of text in a color or in none. -/
structure Fragment where
  /-- The text. -/
  text : String
  /-- Its color. -/
  color : Option Color

/-- A drawing. -/
abbrev Drawing := List Fragment

/-- Text without a color. -/
def plain (text : String) : Fragment := ⟨text, none⟩

/-- Text in a color. -/
def paint (text : String) (c : Color) : Fragment := ⟨text, some c⟩

/-- A fragment as it is written. -/
def Fragment.write (colored : Bool) (f : Fragment) : String :=
  match colored, f.color with
  | true, some c => c.start ++ f.text ++ "\x1b[0m"
  | _, _ => f.text

/-- A drawing as it is written. -/
def Drawing.write (colored : Bool) (d : Drawing) : String :=
  .join (d.map (Fragment.write colored))

/-- A number of blanks. -/
def blanks (n : Nat) : String := .ofList (List.replicate n ' ')

end Recast.Report
