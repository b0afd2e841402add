import OctalScan.Proofs.Draining
import OctalScan.Proofs.Front

/-!
# Sources that go on

A token that ends before the end of a source is settled: whatever is written behind the source, the
token stays as it is and where it is (`Lexer.finished_prefix`). A lexeme is decided by its own
characters and the next one, so it only needs one character of the source behind it. The cut may be
anywhere, inside a word, a string, a comment or a gap. Only the last token of a source can reach up
to its end, and so be changed by what follows.
-/

namespace OctalScan

namespace Lexer

/-- The steps over a source whose tokens end before the end of the source. A token ends where the
cursor behind it is. -/
def finished (source file : Text) : List Step :=
  (ofSource source file).steps.filter fun st => decide (st.cursor.offset < source.length)

end Lexer

namespace Decomposes

variable {a last : Text} {ps : List Piece}

theorem eq_nil_of_text_eq_nil (h : Decomposes [] ps last) : ps = [] := by
  cases ps with
  | nil => rfl
  | cons p ps => exact absurd rfl h.begins.ne_nil_of_cons

/-- From any cursor, the steps that end before the end of a text are the first steps over every
text that goes on from it. At most one step is not among them. -/
theorem finished_steps (h : Decomposes a ps last) (file : Text) (c : Cursor) (b : Text) :
    ((Piece.steps file c ps).filter fun st => decide (st.cursor.offset < c.offset + a.length)) <+:
        (Step.all file c (a ++ b ++ [' '])).1 ∧
      (Piece.steps file c ps).length ≤ ((Piece.steps file c ps).filter fun st =>
        decide (st.cursor.offset < c.offset + a.length)).length + 1 := by
  induction h generalizing c with
  | finish _ => exact ⟨List.nil_prefix, Nat.zero_le _⟩
  | @piece g rest last l ps hg hl h ih =>
    have hend : (Piece.after c ⟨g, l⟩).offset + rest.length =
        c.offset + (g ++ (l.span ++ rest)).length := by
      rw [hl.offset_after, List.length_append, List.length_append]
      omega
    by_cases hne : rest = []
    · -- the lexeme reaches the end of the text, so it is the last and not finished
      subst hne
      obtain rfl := h.eq_nil_of_text_eq_nil
      have hlast : ¬(Piece.after c ⟨g, l⟩).offset < c.offset + (g ++ (l.span ++ [])).length := by
        rw [← hend]
        exact Nat.lt_irrefl _
      rw [Piece.steps, Piece.steps, List.filter_cons_of_neg (by simpa [Piece.step] using hlast)]
      exact ⟨List.nil_prefix, Nat.le_refl 1⟩
    · have hlt : (Piece.after c ⟨g, l⟩).offset < c.offset + (g ++ (l.span ++ rest)).length := by
        have hpos := List.length_pos_iff.2 hne
        omega
      have hlong : Longest Gap g (l.span ++ (rest ++ b)) := by
        rw [← List.append_assoc]
        exact hg.gap_append (by simp [hl.span_ne_nil]) b
      have hcut : g ++ (l.span ++ rest) ++ b = g ++ (l.span ++ (rest ++ b)) := by
        rw [List.append_assoc, List.append_assoc]
      obtain ⟨hfront, hcount⟩ := ih (Piece.after c ⟨g, l⟩)
      rw [hend] at hfront hcount
      rw [hcut, Step.all_eq, Reading.first_of_piece hlong (hl.append hne b), Piece.steps,
        List.filter_cons_of_pos (by simpa [Piece.step] using hlt)]
      exact ⟨List.cons_prefix_cons.2 ⟨rfl, hfront⟩, Nat.succ_le_succ hcount⟩

end Decomposes

namespace Lexer

/-- However a source goes on, the tokens that end before its end, with the cursors behind them, are
the first ones that are read; and they are all tokens of the source but the last, or all of them. -/
theorem finished_prefix (a b file : Text) :
    finished a file <+: (ofSource (a ++ b) file).steps ∧
      (finished a file).map Step.token <+: (ofSource (a ++ b) file).drain.1 ∧
      (ofSource a file).drain.1.length ≤ (finished a file).length + 1 := by
  obtain ⟨ps, last, h⟩ := Decomposes.exists_of_text a
  obtain ⟨hfront, hcount⟩ := h.finished_steps file .start b
  have hfinished : finished a file = (Piece.steps file .start ps).filter fun st =>
      decide (st.cursor.offset < Cursor.start.offset + a.length) := by
    rw [finished, steps_ofSource h]
    simp [Cursor.start]
  rw [hfinished, drain_fst, drain_fst, List.length_map, steps_ofSource h]
  exact ⟨hfront, hfront.map Step.token, hcount⟩

end Lexer

end OctalScan
