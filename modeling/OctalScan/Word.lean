import OctalScan.Text.Basic

/-!
# Machine words

An unsigned machine word is a natural number that fits in a fixed number of bits. Two words are
equal, and are ordered, only within one width: five in nine bits and five in twelve bits are
different values.
-/

namespace OctalScan

/-- The widths of a machine word. The bare width has no bits, so it holds zero only. -/
inductive Width where
  | bare
  | nine
  | twelve
  deriving DecidableEq, Repr

namespace Width

def bits : Width → Nat
  | bare => 0
  | nine => 9
  | twelve => 12

/-- The name under which words of this width are shown. -/
def name : Width → Text
  | bare => "Word".toList
  | nine => "U9".toList
  | twelve => "U12".toList

def maxValue (w : Width) : Nat := Nat.pow 2 w.bits - 1

/-- How many octal digits hold every value: one for every three bits. -/
def octalDigits (w : Width) : Nat := w.bits / 3

end Width

/-- A number that fits in the bits of a width. -/
structure Word where
  width : Width
  value : Nat
  value_le : value ≤ width.maxValue
  deriving DecidableEq, Repr

namespace Word

@[ext] theorem ext {v w : Word} (hw : v.width = w.width) (hv : v.value = w.value) : v = w := by
  cases v
  cases w
  simp_all

/-- The word of a given width and value, if the value fits. -/
def ofInt? (w : Width) (n : Int) : Option Word :=
  if h : 0 ≤ n ∧ n ≤ w.maxValue then some ⟨w, n.toNat, by omega⟩ else none

/-- The octal digits of the value, padded with zeros to the digits of the width. -/
def octal (w : Word) : Text := (Text.octal w.value).leftpad w.width.octalDigits '0'

def render (w : Word) : Text := w.width.name ++ "(0o".toList ++ Text.octal w.value ++ [')']

/-- How two words are ordered, if they have the same width. -/
def order? (v w : Word) : Option Ordering :=
  if v.width = w.width then some (compare v.value w.value) else none

/-- A word arises from a number exactly if the number is its value. -/
theorem ofInt?_eq_some_iff {w : Width} {n : Int} {v : Word} :
    ofInt? w n = some v ↔ v.width = w ∧ (v.value : Int) = n := by
  rw [ofInt?]
  constructor
  · intro h
    split at h
    · cases h
      exact ⟨rfl, by simp; omega⟩
    · cases h
  · rintro ⟨rfl, rfl⟩
    have := v.value_le
    rw [dif_pos (by omega)]
    exact congrArg some (Word.ext rfl (by simp))

/-! ### Words in lists -/

/-- The words of a list without repetitions, each at its first occurrence. -/
def distinct : List Word → List Word
  | [] => []
  | w :: ws => w :: (distinct ws).filter fun v => decide (v ≠ w)

/-- Whether all words of a list have one width. -/
def sameWidth : List Word → Bool
  | [] => true
  | w :: ws => ws.all fun v => decide (v.width = w.width)

/-- The words of a list in rising order; a list with words of different widths has none. -/
def sort? (ws : List Word) : Option (List Word) :=
  if sameWidth ws then some (ws.mergeSort fun v w => decide (v.value ≤ w.value)) else none

end Word

end OctalScan
