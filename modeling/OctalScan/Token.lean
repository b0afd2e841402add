import OctalScan.Text.Quoted
import OctalScan.Word

/-!
# Tokens

A token is a piece of assembly source together with the place where it stands. Lines are counted
from one and columns from zero; a location, as it is reported to people, counts columns from one.
-/

namespace OctalScan

/-- The kinds of token. -/
inductive Kind where
  | error
  | leftParen
  | rightParen
  | colon
  | comma
  | newline
  | lessThan
  | greaterThan
  | dot
  | symbol
  | nineBit
  | twelveBit
  | string
  deriving DecidableEq, Repr

namespace Kind

def all : List Kind :=
  [error, leftParen, rightParen, colon, comma, newline, lessThan, greaterThan, dot, symbol, nineBit,
    twelveBit, string]

/-- The name of a kind in listings and messages. -/
def name : Kind → Text
  | error => "ERROR".toList
  | leftParen => "LPAREN".toList
  | rightParen => "RPAREN".toList
  | colon => "COLON".toList
  | comma => "COMMA".toList
  | newline => "NEWLINE".toList
  | lessThan => "LT".toList
  | greaterThan => "GT".toList
  | dot => "DOT".toList
  | symbol => "SYMBOL".toList
  | nineBit => "NINE_BIT_LITERAL".toList
  | twelveBit => "TWELVE_BIT_LITERAL".toList
  | string => "STRING".toList

/-- The kind of a character that is a token by itself. -/
def ofDelimiter? : Char → Option Kind
  | '(' => some leftParen
  | ')' => some rightParen
  | ':' => some colon
  | ',' => some comma
  | '\n' => some newline
  | '<' => some lessThan
  | '>' => some greaterThan
  | '.' => some dot
  | _ => none

end Kind

/-- What a token carries besides its kind. -/
inductive Payload where
  | empty
  | text (t : Text)
  | word (w : Word)
  deriving DecidableEq, Repr

namespace Payload

/-- A payload as it is shown inside a token. -/
def render? : Payload → Option Text
  | empty => none
  | text t => some (Text.quoted t)
  | word w => some w.render

def message : Payload → Text
  | empty => "None".toList
  | text t => t
  | word w => w.render

end Payload

/-- A place in a source file as it is reported: line and column both count from one. -/
structure Location where
  file : Text
  line : Int
  column : Int
  deriving DecidableEq, Repr

def Location.render (l : Location) : Text :=
  l.file ++ ':' :: Text.ofInt l.line ++ ':' :: Text.ofInt l.column

/-- A token and where its first character stands. -/
structure Token where
  kind : Kind
  payload : Payload
  offset : Nat
  line : Int
  column : Int
  file : Text
  deriving DecidableEq, Repr

namespace Token

def isError (t : Token) : Bool := decide (t.kind = .error)

def location (t : Token) : Location := ⟨t.file, t.line, t.column + 1⟩

/-- Line and column, the column counted from zero, in the form `line:column`. -/
def position (t : Token) : Text := Text.ofInt t.line ++ ':' :: Text.ofInt t.column

def render (t : Token) : Text :=
  let payload := match t.payload.render? with
    | none => []
    | some p => ", ".toList ++ p
  "Token(".toList ++ t.kind.name ++ payload ++ ", ".toList ++ t.position ++ [')']

end Token

end OctalScan
