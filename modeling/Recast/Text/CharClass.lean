/-!
# Classes of characters

A class is given by the ranges of the code points that belong to it.

* `CharClass.contains` tells whether a character belongs to a class;
* `CharClass.blank` are the blanks, which fill space and show nothing.
-/

namespace Recast

/-- A class of characters. -/
structure CharClass where
  /-- The first and the last code point of each range. -/
  ranges : List (Nat × Nat)

namespace CharClass

/-- The character belongs to the class. -/
def contains (K : CharClass) (c : Char) : Bool :=
  K.ranges.any fun r => r.1 ≤ c.toNat && c.toNat ≤ r.2

/-- The characters of both classes. -/
def union (K L : CharClass) : CharClass := ⟨K.ranges ++ L.ranges⟩

theorem contains_union (K L : CharClass) (c : Char) :
    (K.union L).contains c = (K.contains c || L.contains c) := by
  simp [contains, union]

/-- Control characters. -/
def control : CharClass :=
  ⟨[(0x0000, 0x001F), (0x007F, 0x009F)]⟩

/-- Format characters, which steer the layout and draw nothing. -/
def format : CharClass :=
  ⟨[(0x00AD, 0x00AD), (0x0600, 0x0605), (0x061C, 0x061C), (0x06DD, 0x06DD), (0x070F, 0x070F),
    (0x0890, 0x0891), (0x08E2, 0x08E2), (0x180E, 0x180E), (0x200B, 0x200F), (0x202A, 0x202E),
    (0x2060, 0x2064), (0x2066, 0x206F), (0xFEFF, 0xFEFF), (0xFFF9, 0xFFFB), (0x110BD, 0x110BD),
    (0x110CD, 0x110CD), (0x13430, 0x1343F), (0x1BCA0, 0x1BCA3), (0x1D173, 0x1D17A),
    (0xE0001, 0xE0001), (0xE0020, 0xE007F)]⟩

/-- Spaces and line and paragraph separators, but for the plain space. -/
def separator : CharClass :=
  ⟨[(0x00A0, 0x00A0), (0x1680, 0x1680), (0x2000, 0x200A), (0x2028, 0x2029), (0x202F, 0x202F),
    (0x205F, 0x205F), (0x3000, 0x3000)]⟩

/-- Characters for private use. -/
def privateUse : CharClass :=
  ⟨[(0xE000, 0xF8FF), (0xF0000, 0xFFFFD), (0x100000, 0x10FFFD)]⟩

/-- Characters that are ignored where they are not known: fillers, joiners, selectors of variants
and the code points set aside for more of them. -/
def ignorable : CharClass :=
  ⟨[(0x00AD, 0x00AD), (0x034F, 0x034F), (0x061C, 0x061C), (0x115F, 0x1160), (0x17B4, 0x17B5),
    (0x180B, 0x180F), (0x200B, 0x200F), (0x202A, 0x202E), (0x2060, 0x206F), (0x3164, 0x3164),
    (0xFE00, 0xFE0F), (0xFEFF, 0xFEFF), (0xFFA0, 0xFFA0), (0xFFF0, 0xFFF8), (0x1BCA0, 0x1BCA3),
    (0x1D173, 0x1D17A), (0xE0000, 0xE0FFF)]⟩

/-- Blanks: separators, the plain space, and the control characters that move on. -/
def blank : CharClass := separator.union ⟨[(0x0009, 0x000D), (0x0020, 0x0020), (0x0085, 0x0085)]⟩

end CharClass

end Recast
