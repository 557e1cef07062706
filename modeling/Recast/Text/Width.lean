import Recast.Text.Combining

/-!
# The width of characters

How many cells of a terminal a character fills. Blanks fill one cell, but a tab reaches to the
next stop. Marks that are drawn on another character and characters that draw nothing have no
cell, the wide characters of East Asian scripts and pictographs fill two, and everything else
fills one.

* `Width.width` is the width of a character at a column;
* `Width.width_le` bounds it by the distance of tab stops;
* `Width.width_pos_of_blank` says that no blank is left out.
-/

namespace Recast

namespace CharClass

/-- Characters that share the cell of a neighbour without being combining: the later letters of a
Hangul syllable, and signs that are drawn over or under the characters they belong to. -/
def attached : CharClass :=
  ⟨[(0x0605, 0x0605), (0x070F, 0x070F), (0x0890, 0x0891), (0x08E2, 0x08E2), (0x0D4E, 0x0D4E),
    (0x1160, 0x11FF), (0xA8FA, 0xA8FA), (0xD7B0, 0xD7C6), (0xD7CB, 0xD7FB), (0x111C2, 0x111C3),
    (0x113D1, 0x113D1), (0x1193F, 0x1193F), (0x11941, 0x11941), (0x11A84, 0x11A89),
    (0x11D46, 0x11D46), (0x11F02, 0x11F02)]⟩

/-- Characters that fill two cells unless they have none. Code points set aside for pictographs are
among them. -/
def wide : CharClass :=
  ⟨[(0x1100, 0x115F), (0x231A, 0x231B), (0x2329, 0x232A), (0x23E9, 0x23EC), (0x23F0, 0x23F0),
    (0x23F3, 0x23F3), (0x25FD, 0x25FE), (0x2614, 0x2615), (0x2630, 0x2637), (0x2648, 0x2653),
    (0x267F, 0x267F), (0x268A, 0x268F), (0x2693, 0x2693), (0x26A1, 0x26A1), (0x26AA, 0x26AB),
    (0x26BD, 0x26BE), (0x26C4, 0x26C5), (0x26CE, 0x26CE), (0x26D4, 0x26D4), (0x26EA, 0x26EA),
    (0x26F2, 0x26F3), (0x26F5, 0x26F5), (0x26FA, 0x26FA), (0x26FD, 0x26FD), (0x2705, 0x2705),
    (0x270A, 0x270B), (0x2728, 0x2728), (0x274C, 0x274C), (0x274E, 0x274E), (0x2753, 0x2755),
    (0x2757, 0x2757), (0x2795, 0x2797), (0x27B0, 0x27B0), (0x27BF, 0x27BF), (0x2B1B, 0x2B1C),
    (0x2B50, 0x2B50), (0x2B55, 0x2B55), (0x2E80, 0x2E99), (0x2E9B, 0x2EF3), (0x2F00, 0x2FD5),
    (0x2FF0, 0x3029), (0x3030, 0x303E), (0x3041, 0x3096), (0x309B, 0x30FF), (0x3105, 0x312F),
    (0x3131, 0x3163), (0x3165, 0x318E), (0x3190, 0x31E5), (0x31EF, 0x321E), (0x3220, 0x3247),
    (0x3250, 0xA48C), (0xA490, 0xA4C6), (0xA960, 0xA97C), (0xAC00, 0xD7A3), (0xF900, 0xFAFF),
    (0xFE10, 0xFE19), (0xFE30, 0xFE52), (0xFE54, 0xFE66), (0xFE68, 0xFE6B), (0xFF01, 0xFF60),
    (0xFFE0, 0xFFE6), (0x16FE0, 0x16FE3), (0x16FF2, 0x16FF6), (0x17000, 0x18CD5),
    (0x18CFF, 0x18D1E), (0x18D80, 0x18DF2), (0x1AFF0, 0x1AFF3), (0x1AFF5, 0x1AFFB),
    (0x1AFFD, 0x1AFFE), (0x1B000, 0x1B122), (0x1B132, 0x1B132), (0x1B150, 0x1B152),
    (0x1B155, 0x1B155), (0x1B164, 0x1B167), (0x1B170, 0x1B2FB), (0x1D300, 0x1D356),
    (0x1D360, 0x1D376), (0x1F004, 0x1F004), (0x1F0CF, 0x1F0CF), (0x1F18E, 0x1F18E),
    (0x1F191, 0x1F19A), (0x1F200, 0x1F202), (0x1F210, 0x1F23B), (0x1F240, 0x1F248),
    (0x1F250, 0x1F251), (0x1F260, 0x1F265), (0x1F300, 0x1F320), (0x1F32D, 0x1F335),
    (0x1F337, 0x1F37C), (0x1F37E, 0x1F393), (0x1F3A0, 0x1F3CA), (0x1F3CF, 0x1F3D3),
    (0x1F3E0, 0x1F3F0), (0x1F3F4, 0x1F3F4), (0x1F3F8, 0x1F43E), (0x1F440, 0x1F440),
    (0x1F442, 0x1F4FC), (0x1F4FF, 0x1F53D), (0x1F54B, 0x1F54E), (0x1F550, 0x1F567),
    (0x1F57A, 0x1F57A), (0x1F595, 0x1F596), (0x1F5A4, 0x1F5A4), (0x1F5FB, 0x1F64F),
    (0x1F680, 0x1F6C5), (0x1F6CC, 0x1F6CC), (0x1F6D0, 0x1F6D2), (0x1F6D5, 0x1F6D9),
    (0x1F6DC, 0x1F6DF), (0x1F6EB, 0x1F6EC), (0x1F6F4, 0x1F6FC), (0x1F7E0, 0x1F7EB),
    (0x1F7F0, 0x1F7F0), (0x1F90C, 0x1F93A), (0x1F93C, 0x1F945), (0x1F947, 0x1F9FF),
    (0x1FA70, 0x1FA7C), (0x1FA80, 0x1FAC6), (0x1FAC8, 0x1FAC8), (0x1FACC, 0x1FADD),
    (0x1FADF, 0x1FAEB), (0x1FAEF, 0x1FAFA), (0x20000, 0x2FFFD),
    (0x30000, 0x3FFFD)]⟩

end CharClass

namespace Width

/-- The character is a blank. -/
def isBlank (c : Char) : Bool := CharClass.blank.contains c

/-- The character has no cell of its own. -/
def isCellless (c : Char) : Bool :=
  CharClass.combining.contains c || CharClass.ignorable.contains c ||
    CharClass.attached.contains c

/-- The number of cells of a character that is not a blank. The width of a few characters does not
follow from their classes: the filler for the first letter of a Hangul syllable, two Khmer signs
that are written as several characters, and a joiner that is shown where it joins nothing. -/
def cells (c : Char) : Nat :=
  if c = '\u115f' ∨ c = '\u17a4' then 2
  else if c = '\u17d8' then 3
  else if c = '\u2d7f' then 1
  else if isCellless c then 0
  else if CharClass.wide.contains c then 2
  else 1

/-- The distance of tab stops. -/
def tabStop : Nat := 4

/-- The width of a character that stands at a column of its line. -/
def width (c : Char) (column : Nat) : Nat :=
  if c = '\t' then tabStop - column % tabStop
  else if isBlank c then 1
  else cells c

theorem cells_le (c : Char) : cells c ≤ 3 := by
  unfold cells
  repeat' split
  all_goals decide

theorem width_le (c : Char) (column : Nat) : width c column ≤ tabStop := by
  have := cells_le c
  unfold width tabStop
  split
  · omega
  · split <;> omega

theorem width_pos_of_blank {c : Char} (h : isBlank c) (column : Nat) : 0 < width c column := by
  have := Nat.mod_lt column (show 0 < tabStop by decide)
  unfold width
  split
  · omega
  · decide

/-- An accent has no cell, and an ideograph has two. -/
example : width '\u0301' 1 = 0 ∧ width '\u65e5' 0 = 2 := by decide +kernel

/-- The line without the blanks at its end. -/
def trimEnd (cs : List Char) : List Char := (cs.reverse.dropWhile isBlank).reverse

end Width

end Recast
