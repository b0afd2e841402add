import OctalScan.Text.Blank
import OctalScan.Text.Digit

/-!
# Reading integers

The integer that a text denotes: white space around it, one optional sign, then decimal digits of
any script in groups joined by single underscores.
-/

namespace OctalScan.Text

/-- The greatest number of digits that a numeral may have, leading zeros included. -/
def maxDigits : Nat := 4300

/-- The number that a sequence of decimal digits denotes, the first digit weighing most. -/
def ofDigits (ds : List Nat) : Nat := ds.foldl (fun n d => 10 * n + d) 0

def readNat? (t : Text) : Option Nat :=
  let groups := t.splitOn '_'
  if groups.any List.isEmpty then none
  else
    match groups.flatten.mapM decimalDigit? with
    | none => none
    | some ds => if ds.length ≤ maxDigits then some (ofDigits ds) else none

/-- Reads a numeral with an optional sign. -/
def readSigned? : Text → Option Int
  | '-' :: t => (readNat? t).map fun n => -(n : Int)
  | '+' :: t => (readNat? t).map fun n => (n : Int)
  | t => (readNat? t).map fun n => (n : Int)

/-- Reads a numeral with white space around it. -/
def readInt? (t : Text) : Option Int := readSigned? (trimBy isMargin t)

end OctalScan.Text
