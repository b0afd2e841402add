import OctalScan.Excess
import OctalScan.Lexer

/-!
# Diagnostics

A diagnostic tells a person what is wrong with a source, and where: a message, the place, the line
of the source with a caret under the column, and a hint. The diagnostic of an error token is built
from the message that the token carries, which also decides the hint.
-/

namespace OctalScan

/-- A report of one fault. -/
structure Diagnostic where
  message : Text
  location : Option Location
  hint : Option Text
  sourceLine : Option Text
  deriving DecidableEq, Repr

namespace Diagnostic

/-- The first line: where the fault is, as far as it is known, and what it is. -/
def headline (d : Diagnostic) : Text :=
  match d.location with
  | some l => l.render ++ ": error: ".toList ++ d.message
  | none => "error: ".toList ++ d.message

def margin : Text := [' ', ' ', ' ', ' ']

/-- The caret under a column, the column counted from one. -/
def caret (column : Int) : Text := List.replicate (3 + column).toNat ' ' ++ ['^']

/-- The source line and the caret under the column. There is no caret for a column before the
first. -/
def excerpt (d : Diagnostic) : List Text :=
  match d.sourceLine, d.location with
  | some line, some l => (margin ++ line) :: if 0 < l.column then [caret l.column] else []
  | _, _ => []

/-- The line with the hint, unless there is none. -/
def hintLine (d : Diagnostic) : List Text :=
  match d.hint with
  | some (c :: hint) => ["hint: ".toList ++ c :: hint]
  | _ => []

def render (d : Diagnostic) : Text := Text.joinLines (d.headline :: (d.excerpt ++ d.hintLine))

/-- Why a diagnostic cannot be printed: the caret stands too far to the right. -/
def excess? (d : Diagnostic) : Option Excess :=
  match d.sourceLine, d.location with
  | some _, some l => if 0 < l.column then Excess.ofLength? (3 + l.column).toNat else none
  | _, _ => none

def ofMessage (message : Text) : Diagnostic := ⟨message, none, none, none⟩

end Diagnostic

/-- The faults that the message of an error token tells apart. -/
inductive Fault where
  | unclosedString
  | oversizedLiteral
  | other
  deriving DecidableEq, Repr

namespace Fault

/-- The fault that a message is about: the message of an unclosed string is the string itself, and
that of an oversized literal ends in words that say so. -/
def ofMessage (message : Text) : Fault :=
  if message.head? = some '"' then unclosedString
  else if Lexeme.oversized.isSuffixOf message then oversizedLiteral
  else other

/-- What a person is told about a fault. -/
def explain : Fault → Text → Text
  | unclosedString, message => "unterminated string literal ".toList ++ message
  | _, message => message

def hint : Fault → Option Text
  | unclosedString => some "close the string with '\"' before the end of input".toList
  | oversizedLiteral =>
    some ("octal literals must not exceed ".toList ++ Text.octal Width.twelve.maxValue)
  | other => none

end Fault

/-- The diagnostic of a token, as an error token of a source with the given lines. -/
def Diagnostic.ofToken (lines : Array Text) (t : Token) : Diagnostic :=
  let message := t.payload.message
  let fault := Fault.ofMessage message
  ⟨fault.explain message, some t.location, fault.hint, some (lineAt lines t.line)⟩

end OctalScan
