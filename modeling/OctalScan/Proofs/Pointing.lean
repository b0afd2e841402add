import OctalScan.Failure
import OctalScan.Proofs.Lines
import OctalScan.Proofs.Position

/-!
# Where diagnostics point

A diagnostic counts lines in two ways: its line number comes from the lexer, for which newlines in
string literals do not count, and its source line is found by cutting the source at every newline.
Where the two agree, it shows the line of the fault with the caret under it (`Diagnostic.PointsAt`).
They agree exactly if no newline stands in a string literal before the fault
(`Diagnostic.pointsAt_iff`), and otherwise the line that is shown is as many lines too high as there
are such newlines.
-/

namespace OctalScan

/-! ### Newlines in string literals -/

namespace Lexer

/-- The number of newlines before an offset that are inside string literals. -/
def hidden (l : Lexer) (o : Nat) : Nat :=
  ((List.range o).filter fun i => l.buffer[i]? = some '\n' ∧ l.InString i).length

theorem hidden_eq_zero_iff {l : Lexer} {o : Nat} :
    l.hidden o = 0 ↔ ∀ i, i < o → l.buffer[i]? = some '\n' → ¬ l.InString i := by
  rw [hidden, List.length_eq_zero_iff, List.filter_eq_nil_iff]
  simp

/-- A newline counts or is hidden. -/
theorem length_counts_add_hidden (l : Lexer) (o : Nat) :
    ((List.range o).filter l.counts).length + l.hidden o =
      ((List.range o).filter fun i => l.buffer[i]? = some '\n').length := by
  have hsplit := List.length_eq_countP_add_countP (fun i => decide (l.InString i))
    (l := (List.range o).filter fun i => l.buffer[i]? = some '\n')
  rw [List.countP_filter, List.countP_filter, List.countP_eq_length_filter,
    List.countP_eq_length_filter, Nat.add_comm] at hsplit
  have hhidden : l.hidden o = ((List.range o).filter fun i =>
      decide (l.InString i) && decide (l.buffer[i]? = some '\n')).length := by
    simp only [hidden, Bool.decide_and, Bool.and_comm]
  have hcounts : (List.range o).filter l.counts = (List.range o).filter fun i =>
      decide (¬decide (l.InString i) = true) && decide (l.buffer[i]? = some '\n') := by
    apply List.filter_congr
    intro i _
    simp only [counts, Bool.decide_and, decide_eq_true_eq, Bool.and_comm]
  rw [hhidden, hcounts, hsplit]

variable {source file : Text} {o : Nat}

theorem buffer_of_lt {i : Nat} (h : i < source.length) :
    (ofSource source file).buffer[i]? = source[i]? := List.getElem?_append_left h

theorem place_buffer (file : Text) (ho : o ≤ source.length) :
    Cursor.place (fun i => (ofSource source file).buffer[i]? = some '\n') o =
      ⟨o, 1 + ((source.take o).count '\n' : Nat), (source.lineStart o).length⟩ := by
  rw [← Cursor.place_newlines source ho]
  refine Cursor.place_congr fun i hi => ?_
  rw [buffer_of_lt (Nat.lt_of_lt_of_le hi ho)]

/-- Each hidden newline makes the line number one less than the number of the line in the source. -/
theorem line_placeAt (file : Text) (ho : o ≤ source.length) : ∃ n : Nat,
    ((ofSource source file).placeAt o).line = 1 + (n : Int) ∧
      n + (ofSource source file).hidden o = (source.take o).count '\n' := by
  have hplace := congrArg Cursor.line (place_buffer file ho)
  refine ⟨((List.range o).filter (ofSource source file).counts).length, rfl, ?_⟩
  rw [length_counts_add_hidden]
  simp only [Cursor.place] at hplace
  omega

theorem line_of_mem_drain {t : Token} (ht : t ∈ (ofSource source file).drain.1)
    (ho : t.offset ≤ source.length) : ∃ n : Nat, t.line = 1 + (n : Int) ∧
      n + (ofSource source file).hidden t.offset = (source.take t.offset).count '\n' := by
  obtain ⟨n, hline, hn⟩ := line_placeAt file ho
  obtain ⟨st, hst, rfl⟩ := exists_of_mem_drain ht
  rw [← (placeAt_of_mem_steps hst).1] at hline
  exact ⟨n, hline, hn⟩

theorem hidden_ofSource_eq_zero_iff (ho : o ≤ source.length) : (ofSource source file).hidden o = 0 ↔
    ∀ i, i < o → source[i]? = some '\n' → ¬(ofSource source file).InString i := by
  rw [hidden_eq_zero_iff]
  apply forall_congr'
  intro i
  apply imp_congr_right
  intro hi
  rw [buffer_of_lt (Nat.lt_of_lt_of_le hi ho)]

theorem placeAt_of_hidden_eq_zero (ho : o ≤ source.length)
    (h : (ofSource source file).hidden o = 0) :
    (ofSource source file).placeAt o =
      ⟨o, 1 + ((source.take o).count '\n' : Nat), (source.lineStart o).length⟩ := by
  rw [← place_buffer file ho, placeAt]
  refine Cursor.place_congr fun i hi => ?_
  have hout := hidden_eq_zero_iff.1 h i hi
  rw [counts, decide_eq_decide]
  exact and_iff_left_of_imp hout

/-- A token that is no newline begins inside a line. -/
theorem exists_char {t : Token} (ht : t ∈ (ofSource source file).drain.1)
    (hk : t.kind ≠ .newline) :
    t.offset < source.length ∧ ∃ x, source[t.offset]? = some x ∧ x ≠ '\n' := by
  obtain ⟨st, hst, rfl⟩ := exists_of_mem_drain ht
  obtain ⟨lx, hover⟩ := exists_stepOver_of_mem hst
  obtain ⟨rest, hl⟩ := hover.leads
  have hinside : st.token.offset < source.length :=
    Nat.lt_of_lt_of_le hover.offset_lt (offset_le_of_mem_steps source file hst)
  have hhead := hover.head
  have hget := List.getElem?_eq_getElem hinside
  rw [buffer_of_lt hinside, hget] at hhead
  exact ⟨hinside, _, hget, hl.ne_newline_of_head (hover.kind ▸ hk) hhead.symm⟩

theorem sourceLines_ofSource (source file : Text) :
    (ofSource source file).sourceLines = (Text.lines source).toArray := by
  rw [sourceLines, ofSource, ofBuffer, List.dropLast_concat]

end Lexer

theorem lineAt_toArray (ls : List Text) (n : Nat) :
    lineAt ls.toArray (1 + (n : Int)) = ls[n]?.getD [] := by
  have hn : (1 + (n : Int) - 1).toNat = n := by omega
  rw [lineAt, if_pos (by omega), hn, Array.getD_eq_getD_getElem?, List.getElem?_toArray]

/-! ### Diagnostics of error tokens -/

namespace Diagnostic

/-- A diagnostic points at the character where a token of a source begins: its line is the line
that holds the character and has its number, the column is the place of the character in that line,
and in print the caret is right under the character. -/
structure PointsAt (d : Diagnostic) (source : Text) (t : Token) : Prop where
  inside : t.offset < source.length
  line : t.line = 1 + ((source.take t.offset).count '\n' : Nat)
  column : t.column = (source.lineStart t.offset).length
  sourceLine : d.sourceLine = some (source.lineAround t.offset)
  character : (source.lineAround t.offset)[t.column.toNat]? = source[t.offset]?
  caret : d.render = Text.joinLines (d.headline :: (margin ++ source.lineAround t.offset) ::
    (List.replicate (margin.length + t.column.toNat) ' ' ++ ['^']) :: d.hintLine)

variable {lines : Array Text} {t : Token} {source file : Text}

/-- An error token has a diagnostic, unless its caret stands too far to the right to be printed. -/
theorem ofErrorToken_eq_ok (hk : t.kind = .error) (hcolumn : t.column + 4 ≤ Excess.memorySize) :
    ofErrorToken lines t = .ok (ofToken lines t) := by
  have hexcess : (ofToken lines t).excess? = none := by
    simp only [ofToken, excess?, Token.location]
    split
    · exact Excess.ofLength?_eq_none_iff.2 (by omega)
    · rfl
  have herror : t.isError = true := decide_eq_true hk
  rw [ofErrorToken, if_pos herror, checked, hexcess]

/-- The line that a diagnostic shows is the one with the number that its token carries. -/
theorem sourceLine_ofToken {n : Nat} (hline : t.line = 1 + (n : Int))
    (hn : n ≤ (source.take t.offset).count '\n') :
    (ofToken (Lexer.ofSource source file).sourceLines t).sourceLine = (Text.lines source)[n]? := by
  have hlast := (List.getElem?_eq_some_iff.1 (Text.getElem?_lines_count source t.offset)).1
  have hget := List.getElem?_eq_getElem (Nat.lt_of_le_of_lt hn hlast)
  rw [ofToken, hline, Lexer.sourceLines_ofSource, lineAt_toArray, hget]
  rfl

theorem render_ofToken (hcolumn : 0 ≤ t.column) :
    (ofToken lines t).render = Text.joinLines ((ofToken lines t).headline ::
      (margin ++ lineAt lines t.line) ::
      (List.replicate (margin.length + t.column.toNat) ' ' ++ ['^']) ::
      (ofToken lines t).hintLine) := by
  have hexcerpt : (ofToken lines t).excerpt = [margin ++ lineAt lines t.line,
      List.replicate (margin.length + t.column.toNat) ' ' ++ ['^']] := by
    have hwidth : (3 + (t.column + 1)).toNat = margin.length + t.column.toNat := by
      simp only [margin, List.length_cons, List.length_nil]
      omega
    simp only [ofToken, excerpt, Token.location, caret, hwidth]
    rw [if_pos (by omega)]
  rw [render, hexcerpt]
  rfl

theorem pointsAt_of_hidden_eq_zero (ht : t ∈ (Lexer.ofSource source file).drain.1)
    (hk : t.kind = .error) (h : (Lexer.ofSource source file).hidden t.offset = 0) :
    (ofToken (Lexer.ofSource source file).sourceLines t).PointsAt source t := by
  obtain ⟨hinside, x, hx, hne⟩ := Lexer.exists_char ht (by simp [hk])
  obtain ⟨st, hst, rfl⟩ := Lexer.exists_of_mem_drain ht
  have hplace := (Lexer.placeAt_of_mem_steps hst).1
  rw [Lexer.placeAt_of_hidden_eq_zero (Nat.le_of_lt hinside) h] at hplace
  have hline := congrArg Cursor.line hplace
  have hcolumn := congrArg Cursor.column hplace
  simp only [Token.place] at hline hcolumn
  have hshown : lineAt (Lexer.ofSource source file).sourceLines st.token.line =
      source.lineAround st.token.offset := by
    rw [hline, Lexer.sourceLines_ofSource, lineAt_toArray, Text.getElem?_lines_count]
    rfl
  have hpos : 0 ≤ st.token.column := hcolumn ▸ Int.natCast_nonneg _
  refine ⟨hinside, hline, hcolumn, congrArg some hshown, ?_, hshown ▸ render_ofToken hpos⟩
  rw [hcolumn, Int.toNat_natCast, Text.getElem?_lineAround hx hne, hx]

/-- The diagnostic of an error token points at the fault exactly if no newline before the fault is
inside a string literal. Every such newline makes the line number one less than the number of the
line that holds the fault, and the line that is shown is the one with that lesser number. -/
theorem pointsAt_iff (ht : t ∈ (Lexer.ofSource source file).drain.1) (hk : t.kind = .error) :
    (t.column + 4 ≤ Excess.memorySize →
      ofErrorToken (Lexer.ofSource source file).sourceLines t =
        .ok (ofToken (Lexer.ofSource source file).sourceLines t)) ∧
    t.line + (Lexer.ofSource source file).hidden t.offset =
      1 + ((source.take t.offset).count '\n' : Nat) ∧
    (ofToken (Lexer.ofSource source file).sourceLines t).sourceLine =
      (Text.lines source)[(source.take t.offset).count '\n' -
        (Lexer.ofSource source file).hidden t.offset]? ∧
    ((ofToken (Lexer.ofSource source file).sourceLines t).PointsAt source t ↔
      ∀ i, i < t.offset → source[i]? = some '\n' → ¬(Lexer.ofSource source file).InString i) := by
  obtain ⟨hinside, -⟩ := Lexer.exists_char ht (by simp [hk])
  have ho := Nat.le_of_lt hinside
  obtain ⟨n, hline, hn⟩ := Lexer.line_of_mem_drain ht ho
  refine ⟨ofErrorToken_eq_ok hk, by omega, ?_, ?_⟩
  · rw [← hn, Nat.add_sub_cancel]
    exact sourceLine_ofToken hline (by omega)
  rw [← Lexer.hidden_ofSource_eq_zero_iff ho]
  constructor
  · intro h
    have := h.line
    omega
  · exact pointsAt_of_hidden_eq_zero ht hk

/-- The newline of a comment counts, so the fault behind it is pointed at. -/
theorem pointsAt_after_comment :
    let l := Lexer.ofSource ['"', 'a', '"', ';', '\n', '#'] Lexer.defaultFile
    ∃ t ∈ l.drain.1, t.kind = .error ∧
      (ofToken l.sourceLines t).PointsAt ['"', 'a', '"', ';', '\n', '#'] t := by
  intro l
  have hsteps : l.steps = [_, _] :=
    (Lexer.steps_of_next_some rfl).1.trans (congrArg (_ :: ·)
      ((Lexer.steps_of_next_some rfl).1.trans (congrArg (_ :: ·) (Lexer.steps_of_next_none rfl).1)))
  have hout : ∀ i, i < 5 → ['"', 'a', '"', ';', '\n', '#'][i]? = some '\n' → ¬ l.InString i := by
    simp only [Lexer.InString, hsteps]
    decide
  have ht : l.drain.1[1]? = _ := l.getElem?_drain 1
  exact ⟨_, List.mem_of_getElem? ht, rfl, (pointsAt_iff (List.mem_of_getElem? ht) rfl).2.2.2.2 hout⟩

/-- Behind a string literal with a newline, the line that is shown is not the line of the fault. -/
theorem not_pointsAt_after_string :
    let l := Lexer.ofSource ['"', '\n', '"', '\n', '#'] Lexer.defaultFile
    ∃ t ∈ l.drain.1, t.kind = .error ∧ ∃ d, ofErrorToken l.sourceLines t = .ok d ∧
      Text.lineAround ['"', '\n', '"', '\n', '#'] t.offset = ['#'] ∧ d.sourceLine = some ['"'] := by
  intro l
  have ht : l.drain.1[2]? = _ := l.getElem?_drain 2
  refine ⟨_, List.mem_of_getElem? ht, rfl, _, ofErrorToken_eq_ok rfl ?_, ?_, ?_⟩
  · decide
  · decide
  · rfl

end Diagnostic

end OctalScan
