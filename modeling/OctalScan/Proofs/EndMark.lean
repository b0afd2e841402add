import OctalScan.Proofs.Joining

/-!
# Buffers without an end mark

The blank at the end of a buffer is needed by string literals that are never closed, and by nothing
else: a symbol, a literal or a comment may as well be ended by the end of the buffer. If a source
closes its strings, a buffer that is the source alone is read as the one with the blank, except that
the lexer ends one character earlier (`Lexer.drain_ofBuffer`).
-/

namespace OctalScan

/-- A lexeme that is closed needs no blank behind the text. -/
theorem Lexeme.Leads.read_of_closed {l : Lexeme} {rest : Text} (h : l.Leads rest)
    (hclosed : l.isUnclosed = false) {x : Char} {t : Text} (ht : l.span ++ rest = x :: t) :
    read x t = (l, rest) := by
  have hopen : ∀ body, l = ⟨.error, .text ('"' :: body), '"' :: body⟩ → ([] : Text) = [' '] := by
    rintro body rfl
    cases hclosed
  rw [← List.append_nil rest] at ht ⊢
  exact h.read_append (by simp) hopen ht

/-- The steps over a text in which all strings are closed are the steps over its pieces, and the
cursor ends behind the last gap. -/
theorem Decomposes.all_of_closed {s last : Text} {ps : List Piece} (h : Decomposes s ps last)
    (hclosed : ∀ p ∈ ps, p.lexeme.isUnclosed = false) (file : Text) (c : Cursor) :
    Step.all file c s = (Piece.steps file c ps, (Piece.finish c ps).advance last) := by
  induction h generalizing c with
  | finish hg =>
    rw [Step.all_eq, Reading.first_of_longest hg]
    rfl
  | @piece g rest last l ps hg hl _ ih =>
    obtain ⟨hl', hps⟩ := List.forall_mem_cons.1 hclosed
    have hread : ∀ x t, l.span ++ rest = x :: t → Lexeme.read x t = (l, rest) :=
      fun x t => hl.read_of_closed hl'
    rw [Step.all_eq, Reading.first_of_read hg hl.span_ne_nil hread]
    simp only [ih hps]
    rfl

namespace Lexer

variable {source file : Text}

/-- If no string of a source is left open, the buffer that has no blank at its end has the same
tokens as the one that has it. The cursor at the end is on the same line, with offset and column one
less. -/
theorem drain_ofBuffer (hclosed : ∀ t ∈ (ofSource source file).drain.1, t.isUnclosed = false) :
    (ofBuffer source file).drain.1 = (ofSource source file).drain.1 ∧
      (ofBuffer source file).drain.2.cursor.offset + 1 =
        (ofSource source file).drain.2.cursor.offset ∧
      (ofBuffer source file).drain.2.cursor.line = (ofSource source file).drain.2.cursor.line ∧
      (ofBuffer source file).drain.2.cursor.column + 1 =
        (ofSource source file).drain.2.cursor.column := by
  obtain ⟨ps, last, h⟩ := Decomposes.exists_of_text source
  have hall := h.all_of_closed (isUnclosed_of_mem h hclosed) file .start
  have htokens : (ofBuffer source file).drain.1 = (Piece.steps file .start ps).map Step.token :=
    congrArg (fun a => a.1.map Step.token) hall
  have hcursor : (ofBuffer source file).drain.2.cursor = (Piece.finish .start ps).advance last :=
    congrArg Prod.snd hall
  -- the blank moves the cursor to the right
  have hblank : (ofSource source file).drain.2.cursor =
      ((Piece.finish .start ps).advance last).right 1 := by
    rw [drain_ofSource h, cursor_moveTo, Cursor.advance_append]
    rfl
  rw [htokens, hcursor, hblank, drain_ofSource h]
  exact ⟨rfl, rfl, rfl, rfl⟩

/-- The last token is a literal that nothing ends, behind a comment and a string over two lines. -/
theorem drain_ofBuffer_literal :
    let source : Text := ['x', ';', '"', '\n', '"', '\n', '"', '7']
    (∀ t ∈ (ofSource source []).drain.1, t.isUnclosed = false) ∧
      (ofBuffer source []).drain.1 = (ofSource source []).drain.1 ∧
      (ofBuffer source []).drain.2.cursor.offset + 1 =
        (ofSource source []).drain.2.cursor.offset := by
  intro source
  have hsteps : (ofSource source []).steps = [_, _, _] :=
    (steps_of_next_some rfl).1.trans (congrArg (_ :: ·) ((steps_of_next_some rfl).1.trans
      (congrArg (_ :: ·) ((steps_of_next_some rfl).1.trans
        (congrArg (_ :: ·) (steps_of_next_none rfl).1)))))
  have hclosed : ∀ t ∈ (ofSource source []).drain.1, t.isUnclosed = false := by
    rw [drain_fst, hsteps]
    decide
  obtain ⟨htokens, hoffset, -⟩ := drain_ofBuffer hclosed
  exact ⟨hclosed, htokens, hoffset⟩

end Lexer

end OctalScan
