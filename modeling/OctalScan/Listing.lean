import OctalScan.Text.Blank
import OctalScan.Text.Escaped
import OctalScan.Token

/-!
# Listings

Two ways to write down tokens: one line of text per token, and one JSON document for all of them.
-/

namespace OctalScan

namespace Token

/-- The payload in a line of text: words by their octal digits, string literals with escapes, and
other texts as they are. -/
def payloadText (t : Token) : Text :=
  match t.payload, t.kind with
  | .empty, _ => []
  | .word w, _ => w.octal
  | .text s, .string => Text.escaped s
  | .text s, _ => s

/-- A text widened to a number of characters by blanks at its end. -/
def widen (n : Nat) (t : Text) : Text := t.rightpad n ' '

/-- A token as one line: position, kind and payload in columns, without blanks at the end. -/
def listed (t : Token) : Text :=
  Text.trimEnd (widen 8 t.position ++ ' ' :: widen 20 t.kind.name ++ ' ' :: t.payloadText)

/-- The payload in a document: words by their value. -/
def payloadJson (t : Token) : Text :=
  match t.payload with
  | .empty => "null".toList
  | .text s => Text.escaped s
  | .word w => Text.ofNat w.value

def json (t : Token) : Text :=
  "  \x7b\n    \"type\": ".toList ++ Text.escaped t.kind.name ++
  ",\n    \"value\": ".toList ++ t.payloadJson ++
  ",\n    \"offset\": ".toList ++ Text.ofNat t.offset ++
  ",\n    \"line\": ".toList ++ Text.ofInt t.line ++
  ",\n    \"column\": ".toList ++ Text.ofInt t.column ++ "\n  \x7d".toList

end Token

def textListing (ts : List Token) : Text := Text.unlines (ts.map Token.listed)

/-- Tokens as a JSON array, indented by two blanks. -/
def jsonDocument (ts : List Token) : Text :=
  if ts.isEmpty then "[]".toList
  else "[\n".toList ++ List.intercalate ",\n".toList (ts.map Token.json) ++ "\n]".toList

end OctalScan
