import OctalScan.Text.Basic

/-!
# Blanks

The characters that count as white space when a text is trimmed, and the narrower set that may
stand around a numeral.
-/

namespace OctalScan.Text

/-- White space: the ASCII controls from tab to carriage return and from file to unit separator,
the space, and the other spaces and line ends of Unicode. -/
def isBlank (c : Char) : Bool :=
  let n := c.toNat
  (0x09 ≤ n && n ≤ 0x0D) || (0x1C ≤ n && n ≤ 0x20) || n == 0x85 || n == 0xA0 || n == 0x1680 ||
    (0x2000 ≤ n && n ≤ 0x200A) || n == 0x2028 || n == 0x2029 || n == 0x202F || n == 0x205F ||
    n == 0x3000

/-- White space that may stand around a numeral: a blank, but none of the four separators
from U+001C to U+001F. -/
def isMargin (c : Char) : Bool := isBlank c && !(0x1C ≤ c.toNat && c.toNat ≤ 0x1F)

/-- A text without the longest run at its end of characters that satisfy `p`. -/
def trimEndBy (p : Char → Bool) (t : Text) : Text := (t.reverse.dropWhile p).reverse

/-- A text without the longest runs at both ends of characters that satisfy `p`. -/
def trimBy (p : Char → Bool) (t : Text) : Text := trimEndBy p (t.dropWhile p)

/-- A text without blanks at its end. -/
def trimEnd (t : Text) : Text := trimEndBy isBlank t

def trim (t : Text) : Text := trimBy isBlank t

/-- Only blanks are cut off. -/
theorem exists_trimEndBy_append (p : Char → Bool) (t : Text) :
    ∃ cut, t = trimEndBy p t ++ cut ∧ ∀ c ∈ cut, p c = true := by
  refine ⟨(t.reverse.takeWhile p).reverse, ?_, ?_⟩
  · rw [trimEndBy, ← List.reverse_append, List.takeWhile_append_dropWhile, List.reverse_reverse]
  · intro c hc
    exact List.all_eq_true.1 List.all_takeWhile c (List.mem_reverse.1 hc)

end OctalScan.Text
