import OctalScan.Text.Numeral

/-!
# Excess

What is too large to be written. A text is counted by an index of 64 bits and lies in memory; a
number lies in memory in limbs of thirty bits, and its decimal numeral has a limited number of
digits.
-/

namespace OctalScan

/-- The ways in which a text or a number can be too large. -/
inductive Excess where
  | index
  | memory
  | limbs
  | digits
  deriving DecidableEq, Repr

namespace Excess

/-- An excess in words. There are none for a lack of memory. -/
def message : Excess → Text
  | index => "cannot fit 'int' into an index-sized integer".toList
  | memory => []
  | limbs => "too many digits in integer".toList
  | digits =>
    "Exceeds the limit (".toList ++ Text.ofNat Text.maxDigits ++
      (" digits) for integer string conversion; " ++
        "use sys.set_int_max_str_digits() to increase the limit").toList

def maxIndex : Nat := Nat.pow 2 63 - 1

/-- The bytes that one text or number may take. -/
def memorySize : Nat := Nat.pow 2 35

/-- The greatest number of limbs. A limb takes four bytes and the head of a number twenty-four, and
together they are no more than the greatest index. -/
def maxLimbs : Nat := (maxIndex - 24) / 4

/-- The limbs in which a power of two is made. -/
def limbCount (bits : Nat) : Nat := 1 + (bits + 29) / 30

/-- Why there is no text of a given number of ASCII characters. -/
def ofLength? (n : Nat) : Option Excess :=
  if maxIndex < n then some index
  else if memorySize < n then some memory
  else none

/-- Why the greatest number of a given number of bits cannot be written in decimal. With more than
four bits for every digit there are too many digits, and the numeral need not be made. -/
def ofBits? (bits : Nat) : Option Excess :=
  if maxLimbs < limbCount bits then some limbs
  else if memorySize < 4 * limbCount bits then some memory
  else if 4 * Text.maxDigits < bits then some digits
  else if Text.maxDigits < (Text.ofNat (Nat.pow 2 bits - 1)).length then some digits
  else none

/-- A text that is no longer than the memory is not too large. -/
theorem ofLength?_eq_none_iff {n : Nat} : ofLength? n = none ↔ n ≤ memorySize := by
  have hindex : memorySize ≤ maxIndex := by decide
  unfold ofLength?
  constructor
  · intro h
    split at h
    · cases h
    · split at h
      · cases h
      · omega
  · intro h
    rw [if_neg (by omega), if_neg (by omega)]

end Excess

end OctalScan
