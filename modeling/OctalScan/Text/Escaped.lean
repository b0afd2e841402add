import OctalScan.Text.Basic

/-!
# Escaped texts

A text as a JSON string in printable ASCII: quote, backslash and the named controls get a
backslash, and every other character outside the printable range is written by its UTF-16 units.
-/

namespace OctalScan.Text

/-- A UTF-16 unit as an escape of four hexadecimal digits. -/
def unitEscape (n : Nat) : Text := '\\' :: 'u' :: (hex n).leftpad 4 '0'

/-- How a character is written inside a JSON string. -/
def escapeChar (c : Char) : Text :=
  let n := c.toNat
  if c = '"' then ['\\', '"']
  else if c = '\\' then ['\\', '\\']
  else if c = '\n' then ['\\', 'n']
  else if c = '\r' then ['\\', 'r']
  else if c = '\t' then ['\\', 't']
  else if n = 0x08 then ['\\', 'b']
  else if n = 0x0C then ['\\', 'f']
  else if 0x20 ≤ n && n < 0x7F then [c]
  else if n < 0x10000 then unitEscape n
  else unitEscape (0xD800 + (n - 0x10000) / 0x400) ++ unitEscape (0xDC00 + (n - 0x10000) % 0x400)

def escaped (t : Text) : Text := '"' :: t.flatMap escapeChar ++ ['"']

example : escaped ['a', '\t'] = ['"', 'a', '\\', 't', '"'] := by decide

end OctalScan.Text
