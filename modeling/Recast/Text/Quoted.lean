import Recast.Text.Unprintable

/-!
# Quoted text

Text in double quotes on one line. A quote, a backslash and the usual blanks are escaped by a
backslash and one character, any other character that cannot be shown by its code point in
braces, and everything else stands as it is.
-/

namespace Recast.Quoted

/-- The escape of a code point: its hexadecimal digits in braces. -/
def codePoint (c : Char) : List Char :=
  ['\\', 'u', '{'] ++ Nat.toDigits 16 c.toNat ++ ['}']

/-- One character inside the quotes. -/
def encodeChar (c : Char) : List Char :=
  if c = '\x00' then ['\\', '0']
  else if c = '\t' then ['\\', 't']
  else if c = '\n' then ['\\', 'n']
  else if c = '\r' then ['\\', 'r']
  else if c = '"' then ['\\', '"']
  else if c = '\\' then ['\\', '\\']
  else if Unprintable.isUnprintable c then codePoint c
  else [c]

/-- The text in quotes. -/
def encode (s : List Char) : List Char := '"' :: (s.flatMap encodeChar ++ ['"'])

/-- A combining character is escaped, and a letter with an accent of its own is not. -/
example : encode ['a', '\n', '"', '\u00e9', '\u0301'] =
    ['"', 'a', '\\', 'n', '\\', '"', '\u00e9', '\\', 'u', '{', '3', '0', '1', '}', '"'] := by
  decide +kernel

end Recast.Quoted
