import OctalScan.Text.Printable

/-!
# Quoted texts

A text as it is shown inside a message: in single quotes, or in double quotes if it holds a single
quote and no double quote. Characters that cannot be printed are shown by their code points.
-/

namespace OctalScan.Text

/-- The quote to put around a text. -/
def quoteFor (t : Text) : Char := if t.contains '\'' && !t.contains '"' then '"' else '\''

/-- A code point in hexadecimal, with a letter that announces the number of digits. -/
def codePoint (n : Nat) : Text :=
  if n < 0x100 then '\\' :: 'x' :: (hex n).leftpad 2 '0'
  else if n < 0x10000 then '\\' :: 'u' :: (hex n).leftpad 4 '0'
  else '\\' :: 'U' :: (hex n).leftpad 8 '0'

def quoteChar (q c : Char) : Text :=
  if c = '\\' || c = q then ['\\', c]
  else if c = '\n' then ['\\', 'n']
  else if c = '\r' then ['\\', 'r']
  else if c = '\t' then ['\\', 't']
  else if isPrintable c then [c]
  else codePoint c.toNat

def quoted (t : Text) : Text :=
  let q := quoteFor t
  q :: t.flatMap (quoteChar q) ++ [q]

example : quoted ['i', 't', '\'', 's'] = ['"', 'i', 't', '\'', 's', '"'] := by decide

end OctalScan.Text
