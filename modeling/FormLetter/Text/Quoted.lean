import FormLetter.Text.Glyph
import FormLetter.Text.Backslash

/-!
# Texts quoted in messages

A message shows a text between double quotes. A double quote and a backslash in it get a
backslash; tab, line feed, carriage return and the null character are written by their letters;
another character without a glyph of its own is written by its code point in hexadecimal.
-/

namespace FormLetter

/-- How a message writes a character of a quoted text. -/
def messageChar (c : Char) : List Char :=
  if c = '\x00' then [backslash, '0']
  else if c = '\t' then [backslash, 't']
  else if c = '\n' then [backslash, 'n']
  else if c = '\r' then [backslash, 'r']
  else if c = '\x22' ∨ c = backslash then [backslash, c]
  else if hasGlyph c then [c]
  else backslash :: 'u' :: '\x7b' :: Nat.toDigits 16 c.toNat ++ ['\x7d']

/-- A text as messages show it, between double quotes. -/
def quoted (s : String) : String :=
  String.ofList ('\x22' :: s.toList.flatMap messageChar ++ ['\x22'])

end FormLetter
