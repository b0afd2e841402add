import OctalScan.Text.Quoted
import OctalScan.Word

/-!
# Data offered to a word

What may be offered as the value of a machine word: numbers, and also things that are no numbers
and never fit. A datum can be shown, so that a refusal can name it.
-/

namespace OctalScan

/-- A value of any kind. A real number is known by its text alone. -/
inductive Datum where
  | absent
  | int (n : Int)
  | real (numeral : Text)
  | text (t : Text)
  | truth (b : Bool)
  | list (items : List Datum)
  | word (w : Word)

namespace Datum

mutual

def render : Datum → Text
  | absent => "None".toList
  | int n => Text.ofInt n
  | real numeral => numeral
  | text t => Text.quoted t
  | truth b => (if b then "True" else "False").toList
  | list items => '[' :: renderItems items
  | word w => w.render

/-- The data of a list, separated by commas, and the closing bracket. -/
def renderItems : List Datum → Text
  | [] => [']']
  | [d] => render d ++ [']']
  | d :: ds => render d ++ ", ".toList ++ renderItems ds

end

def kindName : Datum → Text
  | absent => "NoneType".toList
  | int _ => "int".toList
  | real _ => "float".toList
  | text _ => "str".toList
  | truth _ => "bool".toList
  | list _ => "list".toList
  | word w => w.width.name

/-- The word of a given width that a datum denotes: only integers denote words. -/
def toWord? (w : Width) : Datum → Option Word
  | int n => Word.ofInt? w n
  | _ => none

/-- Whether a datum fits in a word of a given width. -/
def fits (w : Width) (d : Datum) : Bool := (d.toWord? w).isSome

/-- Whether two data are the same word. Nothing else is equal to a word. -/
def sameWord : Datum → Datum → Bool
  | word v, word w => decide (v = w)
  | _, _ => false

/-- How two data are ordered: only words of one width are. -/
def order? : Datum → Datum → Option Ordering
  | word v, word w => v.order? w
  | _, _ => none

end Datum

/-- The four ways to ask how two values are ordered. -/
inductive Relation where
  | less
  | lessOrEqual
  | greater
  | greaterOrEqual
  deriving DecidableEq, Repr

namespace Relation

def sign : Relation → Text
  | less => ['<']
  | lessOrEqual => ['<', '=']
  | greater => ['>']
  | greaterOrEqual => ['>', '=']

/-- Whether a relation holds of values that are ordered as given. -/
def holds : Relation → Ordering → Bool
  | less, o => o.isLT
  | lessOrEqual, o => o.isLE
  | greater, o => o.isGT
  | greaterOrEqual, o => o.isGE

end Relation

end OctalScan
