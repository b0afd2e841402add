import OctalScan.Proofs.Front
import OctalScan.Proofs.Translation

/-!
# Joining sources

A source that consists of whole lines and closes its strings can be read by itself: what is joined
to it is read as a source of its own, from the next line on (`Lexer.drain_append`). No piece of the
first source changes, since its last lexeme, if it is the newline at the end, needs no end mark; and
its last gap, if it is the newline of a comment instead, only makes the first gap of the second
source longer. Either way the seam is at the start of a line.
-/

namespace OctalScan

/-! ### Whole lines -/

namespace Text

/-- A text consists of whole lines if it is empty or ends in a newline. -/
def WholeLines (t : Text) : Prop := ∀ x ∈ t.getLast?, x = '\n'

variable {a b t : Text}

theorem WholeLines.of_append (h : WholeLines (a ++ b)) : WholeLines b := by
  intro x hx
  refine h x ?_
  rw [List.getLast?_append, Option.mem_def.1 hx]
  rfl

theorem WholeLines.eq_append_newline (h : WholeLines t) (hne : t ≠ []) : ∃ u, t = u ++ ['\n'] := by
  obtain ⟨u, x, rfl⟩ := List.eq_nil_or_concat t |>.resolve_left hne
  rw [List.concat_eq_append] at h ⊢
  rw [h x (by simp)]
  exact ⟨u, rfl⟩

theorem WholeLines.newline_mem (h : WholeLines t) (hne : t ≠ []) : '\n' ∈ t := by
  obtain ⟨u, rfl⟩ := h.eq_append_newline hne
  simp

end Text

/-- A gap of whole lines has no open comment, so anything may follow it. -/
theorem Gap.of_wholeLines {g rest : Text} (h : Gap g rest) (hlines : g.WholeLines)
    (rest' : Text) : Gap g rest' := by
  induction h with
  | nil _ => exact .nil rest'
  | @blank x g _ hx _ ih => exact .blank hx (ih (Text.WholeLines.of_append (a := [x]) hlines))
  | @comment body g _ hb _ ih =>
    refine .comment hb (ih (Text.WholeLines.of_append (a := ';' :: (body ++ ['\n'])) ?_))
    simpa using hlines
  | @openComment body hb =>
    obtain hmem | hmem := List.mem_cons.1 (hlines.newline_mem (List.cons_ne_nil _ _))
    · cases hmem
    · exact absurd hmem hb

/-- Of the lexemes that are complete only a newline ends a line. -/
theorem Lexeme.Leads.of_wholeLines {l : Lexeme} {rest : Text} (h : l.Leads rest)
    (hlines : l.span.WholeLines) (ho : l.isUnclosed = false) :
    l.kind = .newline ∧ ∀ rest', l.Leads rest' := by
  have hmem := hlines.newline_mem h.span_ne_nil
  cases h with
  | @delimiter x k _ hx =>
    obtain rfl := List.mem_singleton.1 hmem
    exact ⟨(Option.some.inj (mem_delimiters_iff.1 hx)).symm, fun rest' => .delimiter rest' hx⟩
  | symbol _ h => exact absurd (h.1 _ hmem) (by decide)
  | literal h =>
    rw [span_ofDigits] at hmem
    exact absurd (h.1 _ hmem) (by decide)
  | @string body _ _ =>
    exact absurd (Text.WholeLines.of_append (a := '"' :: body) hlines '"' rfl) (by decide)
  | openString _ => cases ho
  | @invalid x _ hd _ _ _ =>
    obtain rfl := List.mem_singleton.1 hmem
    exact absurd (by simp [delimiters]) (hd .newline)

/-! ### Gaps at the seam -/

/-- A gap can be skipped before anything is read. -/
theorem Reading.first_append_gap {g t : Text} (hg : Gap g t) (file : Text) (c : Cursor) :
    first file c (g ++ t) = first file (c.advance g) t := by
  rw [first, first, Cursor.skipGap_append hg]

theorem Step.all_append_gap {g t : Text} (hg : Gap g t) (file : Text) (c : Cursor) :
    all file c (g ++ t) = all file (c.advance g) t := by
  rw [all_eq, all_eq file (c.advance g), Reading.first_append_gap hg]

namespace Decomposes

variable {a last : Text} {ps : List Piece}

theorem gap_last (h : Decomposes a ps last) : Gap last [] := by
  induction h with
  | finish hg => exact hg.1
  | piece _ _ _ ih => exact ih

/-- When nothing follows the last lexeme of a source of whole lines, it is a newline. -/
theorem getLast?_of_wholeLines (h : Decomposes a ps last) (hlines : a.WholeLines)
    (hclosed : ∀ p ∈ ps, p.lexeme.isUnclosed = false) (hlast : last = []) :
    ∀ p ∈ ps.getLast?, p.lexeme.kind = .newline ∧ ∀ rest, p.lexeme.Leads rest := by
  intro p hp
  obtain ⟨before, rfl⟩ := List.getLast?_eq_some_iff.1 hp
  obtain ⟨rest, hl⟩ := h.leads p (by simp)
  have hspan : a = before.flatMap Piece.text ++ p.gap ++ p.lexeme.span := by
    rw [h.text_eq, hlast]
    simp [Piece.text]
  exact hl.of_wholeLines (Text.WholeLines.of_append (hspan ▸ hlines)) (hclosed p (by simp))

/-- The end of a source of whole lines is the start of a line. -/
theorem column_finish (h : Decomposes a ps last) (hlines : a.WholeLines)
    (hclosed : ∀ p ∈ ps, p.lexeme.isUnclosed = false) :
    ((Piece.finish .start ps).advance last).column = 0 := by
  have hgap := Text.WholeLines.of_append (h.text_eq ▸ hlines)
  by_cases hlast : last = []
  · have hnewline := h.getLast?_of_wholeLines hlines hclosed hlast
    rw [hlast, Cursor.advance_nil]
    rcases List.eq_nil_or_concat ps with rfl | ⟨before, p, rfl⟩
    · rfl
    · rw [List.concat_eq_append] at hnewline ⊢
      have hk := (hnewline p (by simp)).1
      rw [Piece.finish, List.foldl_append]
      simp only [List.foldl_cons, List.foldl_nil, Piece.after, Cursor.past, hk, if_true]
      rfl
  · obtain ⟨u, rfl⟩ := hgap.eq_append_newline hlast
    rw [Cursor.advance_append]
    rfl

/-- The steps over a source of whole lines, and then the steps from its end over what is joined to
it. -/
theorem all_append (h : Decomposes a ps last) (hlines : a.WholeLines)
    (hclosed : ∀ p ∈ ps, p.lexeme.isUnclosed = false) (file b : Text) :
    (Step.all file .start (a ++ b ++ [' '])).1 = Piece.steps file .start ps ++
      (Step.all file ((Piece.finish .start ps).advance last) (b ++ [' '])).1 := by
  have hgap : Gap last (b ++ [' ']) :=
    h.gap_last.of_wholeLines (Text.WholeLines.of_append (h.text_eq ▸ hlines)) _
  have hfront := h.begins.append b fun hlast p hp =>
    (h.getLast?_of_wholeLines hlines hclosed hlast p hp).2 b
  rw [hfront.all_eq, List.append_assoc, Step.all_append_gap hgap]

/-- Behind a source of whole lines, and before the blank that ends it, the cursor is at the start of
the line on which a drain ends. -/
theorem seam_eq (h : Decomposes a ps last) (hlines : a.WholeLines)
    (hclosed : ∀ p ∈ ps, p.lexeme.isUnclosed = false) (file : Text) :
    (Piece.finish .start ps).advance last =
      ⟨a.length, (Lexer.ofSource a file).drain.2.cursor.line, 0⟩ := by
  have hoffset : ((Piece.finish .start ps).advance last).offset = a.length := by
    have hlen := congrArg List.length h.text_eq
    rw [Cursor.offset_advance, Piece.offset_finish h.leads, hlen, List.length_append]
    simp only [Cursor.start]
    omega
  have hline : (Lexer.ofSource a file).drain.2.cursor.line =
      ((Piece.finish .start ps).advance last).line := by
    rw [Lexer.drain_ofSource h, Lexer.cursor_moveTo, Cursor.advance_append]
    rfl
  rw [← hoffset, hline, ← h.column_finish hlines hclosed]

end Decomposes

/-- A text that begins at the start of a line keeps its columns. -/
theorem Token.translate_of_column_eq_zero (base : Cursor) (h : base.column = 0) (t : Token) :
    t.translate base =
      { t with offset := t.offset + base.offset, line := t.line + (base.line - 1) } := by
  have hline : base.line + (t.line - 1) = t.line + (base.line - 1) := by omega
  simp only [translate, h, hline, Int.zero_add, ite_self, Nat.add_comm]

namespace Lexer

variable {a file : Text}

theorem isUnclosed_of_mem {ps : List Piece} {last : Text} (h : Decomposes a ps last)
    (hclosed : ∀ t ∈ (ofSource a file).drain.1, t.isUnclosed = false) :
    ∀ p ∈ ps, p.lexeme.isUnclosed = false := by
  intro p hp
  obtain ⟨before, later, rfl⟩ := List.append_of_mem hp
  exact hclosed _ (mem_drain (stepOver h).mem)

/-- If a source consists of whole lines and no string in it is left open, the tokens of a longer
source are its own tokens and then those of the rest by itself, moved down to the line where the
drain of the first source ends. -/
theorem drain_append (hlines : a.WholeLines)
    (hclosed : ∀ t ∈ (ofSource a file).drain.1, t.isUnclosed = false) (b : Text) :
    (ofSource (a ++ b) file).drain.1 =
      (ofSource a file).drain.1 ++ (ofSource b file).drain.1.map fun t =>
        { t with
          offset := t.offset + a.length
          line := t.line + ((ofSource a file).drain.2.cursor.line - 1) } := by
  obtain ⟨ps, last, h⟩ := Decomposes.exists_of_text a
  have hps := isUnclosed_of_mem h hclosed
  have hall := h.all_append hlines hps file b
  rw [h.seam_eq hlines hps file] at hall
  -- what is joined is read from the seam as it is read by itself
  let seam : Cursor := ⟨a.length, (ofSource a file).drain.2.cursor.line, 0⟩
  have hb := Step.all_translate file seam (c := .start) (Int.le_refl _) (b ++ [' '])
  rw [Cursor.translate_start] at hb
  calc (ofSource (a ++ b) file).drain.1
      = (Step.all file .start (a ++ b ++ [' '])).1.map Step.token := rfl
    _ = (Piece.steps file .start ps).map Step.token ++
          ((Step.all file .start (b ++ [' '])).1.map (Step.translate seam)).map Step.token := by
        rw [hall, List.map_append, hb]
    _ = (ofSource a file).drain.1 ++ (ofSource b file).drain.1.map (Token.translate seam) := by
        rw [drain_ofSource h, Step.map_token_translate]
        rfl
    _ = _ := by rw [funext (Token.translate_of_column_eq_zero seam rfl)]

/-- The first line ends inside a comment that has a quote, and the second has a string over two
lines and a fault behind it. -/
theorem drain_append_comment :
    let a : Text := ['x', ';', '"', '\n']
    let b : Text := ['"', '\n', '"', '8', '\n']
    a.WholeLines ∧ (∀ t ∈ (ofSource a []).drain.1, t.isUnclosed = false) ∧
      (ofSource (a ++ b) []).drain.1 =
        (ofSource a []).drain.1 ++ (ofSource b []).drain.1.map fun t =>
          { t with
            offset := t.offset + 4
            line := t.line + ((ofSource a []).drain.2.cursor.line - 1) } := by
  intro a b
  have hlines : a.WholeLines := by
    intro x hx
    cases hx
    rfl
  have hsteps : (ofSource a []).steps = [_] :=
    (steps_of_next_some rfl).1.trans (congrArg (_ :: ·) (steps_of_next_none rfl).1)
  have hclosed : ∀ t ∈ (ofSource a []).drain.1, t.isUnclosed = false := by
    rw [drain_fst, hsteps]
    decide
  exact ⟨hlines, hclosed, drain_append hlines hclosed b⟩

end Lexer

end OctalScan
