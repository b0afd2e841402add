import OctalScan.Text.Basic

/-!
# Similarity

How alike two texts are: the characters that they share in common blocks. The longest common block
is taken first, then the longest ones to its left and to its right, and so on. A mistyped name is
compared in this way with the names that were perhaps meant.
-/

namespace OctalScan.Text

/-- How far two texts agree from their starts on. -/
def agreement : Text → Text → Nat
  | a :: s, b :: t => if a = b then agreement s t + 1 else 0
  | _, _ => 0

/-- A block that two texts have in common: where it begins in each, and how long it is. -/
structure Block where
  left : Nat
  right : Nat
  size : Nat

/-- Compares a text that begins at place `i` with the texts that begin at place `j` and later, and
keeps the first longest block. -/
def longestAt (best : Block) (i j : Nat) (s : Text) : Text → Block
  | [] => best
  | b :: t =>
    let size := agreement s (b :: t)
    longestAt (if best.size < size then ⟨i, j, size⟩ else best) i (j + 1) s t

/-- Compares the texts that begin at place `i` and later with all parts of a text `t`, and keeps the
first longest block. -/
def longestFrom (best : Block) (i : Nat) (t : Text) : Text → Block
  | [] => best
  | a :: s => longestFrom (longestAt best i 0 (a :: s) t) (i + 1) t s

/-- The longest block that two texts have in common; of several, the first in the first text, and
then the first in the second. -/
def longestBlock (s t : Text) : Block := longestFrom ⟨0, 0, 0⟩ 0 t s

/-- The number of characters that two texts share in common blocks. -/
def shared (s t : Text) : Nat :=
  match longestBlock s t with
  | ⟨i, j, size⟩ =>
    if _h : size = 0 ∨ s.length ≤ i then 0
    else shared (s.take i) (t.take j) + size + shared (s.drop (i + size)) (t.drop (j + size))
termination_by s.length
decreasing_by
  · simp only [List.length_take]
    omega
  · simp only [List.length_drop]
    omega

/-- Whether a name is close to another: at least three fifths of their characters are shared. -/
def isClose (meant given : Text) : Bool :=
  decide (3 * (meant.length + given.length) ≤ 10 * shared meant given)

/-- Whether `a` is before `b` in alphabetical order, which is that of the code points. -/
def isBefore (a b : Text) : Bool := a.lex b fun x y => decide (x.toNat < y.toNat)

/-- Whether `a` comes before `b` among the names that `given` may stand for: the one that shares
the greater part comes first, and of two equals the one later in the alphabet. -/
def closer (given a b : Text) : Bool :=
  let x := shared a given * (b.length + given.length)
  let y := shared b given * (a.length + given.length)
  decide (y < x ∨ (x = y ∧ isBefore a b = false))

/-- At most three of some names that a mistyped one is close to, in alphabetical order. -/
def closeNames (names : List Text) (given : Text) : List Text :=
  let close := (names.filter fun n => isClose n given).mergeSort (closer given)
  (close.take 3).mergeSort fun a b => !isBefore b a

end OctalScan.Text
