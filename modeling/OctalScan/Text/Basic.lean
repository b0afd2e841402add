/-!
# Text

A text is a list of characters, so that taking a text apart is recursion on a list. This module
fixes that type, the numerals that are written into texts, and the cutting of texts into lines.
-/

namespace OctalScan

abbrev Text := List Char

namespace Text

def ofNat (n : Nat) : Text := Nat.toDigits 10 n

/-- The decimal numeral of an integer, with a minus sign below zero. -/
def ofInt : Int → Text
  | .ofNat n => ofNat n
  | .negSucc n => '-' :: ofNat (n + 1)

def octal (n : Nat) : Text := Nat.toDigits 8 n

/-- The hexadecimal numeral of a natural number, in lower case. -/
def hex (n : Nat) : Text := Nat.toDigits 16 n

/-- The lines of a text, each without its newline; a text that ends in a newline has an empty last
line. -/
def lines (t : Text) : List Text := t.splitOn '\n'

/-- Joins texts by newlines. -/
def joinLines (ls : List Text) : Text := List.intercalate ['\n'] ls

/-- Writes texts as lines, each ended by a newline. -/
def unlines (ls : List Text) : Text := ls.flatMap fun l => l ++ ['\n']

end Text

end OctalScan
