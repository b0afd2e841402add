import OctalScan.Text.Basic

/-!
# Cursors

A cursor is a place in a text: how many characters lie before it, and the line and column that are
counted for it. Over the blanks and comments between two tokens the cursor moves character by
character.
-/

namespace OctalScan

/-- A place in a text. Line and column are what a reader counts, and may be any integers for a
cursor that was made by hand. -/
structure Cursor where
  offset : Nat
  line : Int
  column : Int
  deriving DecidableEq, Repr

namespace Cursor

def start : Cursor := ⟨0, 1, 0⟩

/-- The cursor `n` characters further on the same line. -/
def right (c : Cursor) (n : Nat) : Cursor := ⟨c.offset + n, c.line, c.column + n⟩

/-- The cursor after a newline that ends the line. -/
def nextLine (c : Cursor) : Cursor := ⟨c.offset + 1, c.line + 1, 0⟩

def step (c : Cursor) (x : Char) : Cursor := if x = '\n' then c.nextLine else c.right 1

/-- The cursor after a gap. -/
def advance (c : Cursor) (gap : Text) : Cursor := gap.foldl step c

/-- Moves from a cursor past the gap at the start of a text, the longest run of spaces, tabs and
comments, and yields the cursor after it and the text that is left. A comment runs from a semicolon
to the end of the line, newline included. `inComment` says whether the text starts inside one. -/
def skipGap (inComment : Bool) (c : Cursor) : Text → Cursor × Text
  | [] => (c, [])
  | x :: t =>
    if inComment then skipGap (x != '\n') (c.step x) t
    else if x = ' ' || x = '\t' then skipGap false (c.step x) t
    else if x = ';' then skipGap true (c.step x) t
    else (c, x :: t)

/-- The gap is cut off the front of the text, and the cursor moves over just that. -/
theorem exists_gap_append (inComment : Bool) (c : Cursor) (t : Text) :
    ∃ gap, t = gap ++ (skipGap inComment c t).2 ∧
      (skipGap inComment c t).1 = c.advance gap := by
  induction t generalizing inComment c with
  | nil => exact ⟨[], rfl, rfl⟩
  | cons x t ih =>
    unfold skipGap
    split
    · obtain ⟨gap, h₁, h₂⟩ := ih (x != '\n') (c.step x)
      exact ⟨x :: gap, congrArg (x :: ·) h₁, h₂⟩
    · split
      · obtain ⟨gap, h₁, h₂⟩ := ih false (c.step x)
        exact ⟨x :: gap, congrArg (x :: ·) h₁, h₂⟩
      · split
        · obtain ⟨gap, h₁, h₂⟩ := ih true (c.step x)
          exact ⟨x :: gap, congrArg (x :: ·) h₁, h₂⟩
        · exact ⟨[], rfl, rfl⟩

theorem length_skipGap_le (inComment : Bool) (c : Cursor) (t : Text) :
    (skipGap inComment c t).2.length ≤ t.length := by
  obtain ⟨gap, h, -⟩ := exists_gap_append inComment c t
  calc (skipGap inComment c t).2.length
      ≤ (gap ++ (skipGap inComment c t).2).length := by simp
    _ = t.length := by rw [← h]

end Cursor

end OctalScan
