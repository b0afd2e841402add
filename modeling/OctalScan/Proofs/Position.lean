import OctalScan.Proofs.Draining
import OctalScan.Proofs.Place

/-!
# Positions

Line and column of every token, and of the lexer between two tokens, follow from the offset alone:
the newlines before it count unless they are inside a string literal (`Lexer.position_law`).

The pieces of a source give every character its lexeme (`Piece.row`), and the lexer always is where
a reader of the characters before its offset would be. A newline that counts for the lexer is one
that ends a line for this reader (`Lexer.counts_eq`), because a character belongs to a string
literal exactly if it lies between the offsets of such a token and of the cursor behind it.
-/

namespace OctalScan

/-- The place that a token carries. -/
def Token.place (t : Token) : Cursor := ⟨t.offset, t.line, t.column⟩

namespace Lexer

/-- An offset is inside a string literal, closed or not: a token that begins with a quote stands
there. -/
def InString (l : Lexer) (i : Nat) : Prop :=
  ∃ s ∈ l.steps, l.buffer[s.token.offset]? = some '"' ∧ s.token.offset ≤ i ∧ i < s.cursor.offset

instance (l : Lexer) (i : Nat) : Decidable (l.InString i) :=
  inferInstanceAs (Decidable (∃ s ∈ l.steps, _ ∧ _))

/-- Whether a newline that counts stands at an offset. -/
def counts (l : Lexer) (i : Nat) : Bool := l.buffer[i]? = some '\n' ∧ ¬ l.InString i

/-- The place that an offset has by the newlines that count. -/
def placeAt (l : Lexer) (o : Nat) : Cursor := Cursor.place l.counts o

end Lexer

/-! ### The row of a source -/

namespace Piece

variable {ps before later : List Piece} {p : Piece} {last : Text} {x : Char}

/-- The characters of a source and of the blank at its end, with the lexemes that they belong to. -/
def row (ps : List Piece) (last : Text) : List (Char × Option Lexeme) :=
  ps.flatMap marked ++ (last ++ [' ']).map (·, none)

theorem map_fst_flatMap_marked (ps : List Piece) :
    (ps.flatMap marked).map Prod.fst = ps.flatMap text := by
  rw [List.map_flatMap]
  exact congrArg (ps.flatMap ·) (funext fun p => by simp [marked, text, Function.comp_def])

theorem row_cons (p : Piece) (ps : List Piece) (last : Text) :
    row (p :: ps) last =
      p.gap.map (·, none) ++ (p.lexeme.span.map (·, some p.lexeme) ++ row ps last) := by
  simp [row, marked]

theorem row_lexeme {j : Nat} (hx : p.lexeme.span[j]? = some x) :
    (row (before ++ p :: later) last)[lexemeStart before p + j]? = some (x, some p.lexeme) := by
  have hrow : row (before ++ p :: later) last = before.flatMap marked ++ row (p :: later) last := by
    simp [row]
  have hlen : (before.flatMap marked).length = (before.flatMap text).length := by
    rw [← map_fst_flatMap_marked, List.length_map]
  rw [hrow, lexemeStart, Nat.add_assoc, ← hlen, List.getElem?_append_right (Nat.le_add_right _ _),
    Nat.add_sub_cancel_left, row_cons, List.getElem?_append_right (by simp), List.length_map,
    Nat.add_sub_cancel_left]
  have hget : (p.lexeme.span.map (·, some p.lexeme))[j]? = some (x, some p.lexeme) := by
    rw [List.getElem?_map, hx, Option.map_some]
  rw [List.getElem?_append_left (List.getElem?_eq_some_iff.1 hget).1, hget]

/-- A character that is marked with a lexeme belongs to a piece with that lexeme. -/
theorem exists_of_row {i : Nat} {l : Lexeme} (h : (row ps last)[i]? = some (x, some l)) :
    ∃ before p later j, ps = before ++ p :: later ∧ p.lexeme = l ∧ l.span[j]? = some x ∧
      i = lexemeStart before p + j := by
  induction ps generalizing i with
  | nil =>
    rw [row, List.flatMap_nil, List.nil_append, List.getElem?_map] at h
    obtain ⟨y, -, hy⟩ := Option.map_eq_some_iff.1 h
    cases hy
  | cons p ps ih =>
    rw [row_cons] at h
    rcases Nat.lt_or_ge i p.gap.length with hgap | hgap
    · rw [List.getElem?_append_left (by simpa using hgap), List.getElem?_map] at h
      obtain ⟨y, -, hy⟩ := Option.map_eq_some_iff.1 h
      cases hy
    obtain ⟨j, rfl⟩ := Nat.exists_eq_add_of_le hgap
    rw [List.getElem?_append_right (by simp), List.length_map, Nat.add_sub_cancel_left] at h
    rcases Nat.lt_or_ge j p.lexeme.span.length with hspan | hspan
    · rw [List.getElem?_append_left (by simpa using hspan), List.getElem?_map] at h
      obtain ⟨y, hget, hy⟩ := Option.map_eq_some_iff.1 h
      cases hy
      exact ⟨[], p, ps, j, rfl, rfl, hget, by simp [lexemeStart]⟩
    · obtain ⟨k, rfl⟩ := Nat.exists_eq_add_of_le hspan
      rw [List.getElem?_append_right (by simp), List.length_map, Nat.add_sub_cancel_left] at h
      obtain ⟨before, q, later, j, rfl, hl, hx, rfl⟩ := ih h
      refine ⟨p :: before, q, later, j, rfl, hl, hx, ?_⟩
      simp only [lexemeStart, List.flatMap_cons, List.length_append, text]
      omega

theorem mem_span_of_row {i : Nat} {l : Lexeme} (h : (row ps last)[i]? = some (x, some l)) :
    x ∈ l.span := by
  obtain ⟨_, _, _, _, _, _, hx, _⟩ := exists_of_row h
  exact List.mem_of_getElem? hx

theorem read_marked {rest : Text} (h : p.lexeme.Leads rest) (c : Cursor) :
    c.read p.marked = p.after c := by
  rw [marked, Cursor.read_append, Cursor.read_gap, Cursor.read_lexeme h]
  rfl

theorem read_flatMap_marked (h : ∀ p ∈ ps, ∃ rest, p.lexeme.Leads rest) (c : Cursor) :
    c.read (ps.flatMap marked) = finish c ps := by
  induction ps generalizing c with
  | nil => rfl
  | cons p ps ih =>
    obtain ⟨⟨rest, hp⟩, hps⟩ := List.forall_mem_cons.1 h
    rw [List.flatMap_cons, Cursor.read_append, read_marked hp, ih hps]
    rfl

end Piece

/-- After the first characters of a row the reader is where the newlines among them put him. -/
theorem Cursor.eq_place_of_read {pre m : List (Char × Option Lexeme)} {c : Cursor} (h : pre <+: m)
    (hc : start.read pre = c) : c = place (fun i => m[i]?.any endsLine) c.offset := by
  have htake := read_take m h.length_le
  rw [← List.prefix_iff_eq_take.1 h, hc] at htake
  rw [htake]
  rfl

namespace Lexer

variable {source last file : Text} {ps : List Piece}

/-- A token and the cursor behind it come from a lexeme that begins at the token. -/
structure StepOver (l : Lexer) (st : Step) (lx : Lexeme) : Prop where
  mem : st ∈ l.steps
  leads : ∃ rest, lx.Leads rest
  kind : st.token.kind = lx.kind
  head : l.buffer[st.token.offset]? = lx.span.head?
  finish : st.cursor.offset = st.token.offset + lx.span.length

theorem buffer_eq (h : Decomposes source ps last) (i : Nat) :
    (ofSource source file).buffer[i]? = (Piece.row ps last)[i]?.map Prod.fst := by
  have hrow : (Piece.row ps last).map Prod.fst = source ++ [' '] := by
    rw [Piece.row, List.map_append, Piece.map_fst_flatMap_marked, h.text_eq]
    simp [Function.comp_def]
  rw [← List.getElem?_map, hrow]
  rfl

theorem stepOver {before later : List Piece} {p : Piece}
    (h : Decomposes source (before ++ p :: later) last) :
    (ofSource source file).StepOver (p.step file (Piece.finish .start before)) p.lexeme := by
  obtain ⟨rest, hp⟩ := h.leads p (by simp)
  obtain ⟨x, t, ht⟩ := List.exists_cons_of_ne_nil hp.span_ne_nil
  have hrow : (Piece.row (before ++ p :: later) last)[Piece.lexemeStart before p + 0]? =
      some (x, some p.lexeme) := Piece.row_lexeme (by rw [ht]; rfl)
  rw [Nat.add_zero] at hrow
  refine ⟨?_, ⟨rest, hp⟩, rfl, ?_, ?_⟩
  · rw [steps_ofSource h]
    exact Piece.mem_steps_iff.2 ⟨before, p, later, rfl, rfl⟩
  · rw [h.offset_token, buffer_eq h, hrow, ht]
    rfl
  · rw [h.offset_cursor, h.offset_token]

theorem StepOver.offset_lt {l : Lexer} {st : Step} {lx : Lexeme} (h : l.StepOver st lx) :
    st.token.offset < st.cursor.offset := by
  obtain ⟨rest, hl⟩ := h.leads
  rw [h.finish]
  exact Nat.lt_add_of_pos_right (List.length_pos_iff.2 hl.span_ne_nil)

theorem exists_stepOver_of_mem {st : Step} (hst : st ∈ (ofSource source file).steps) :
    ∃ lx, (ofSource source file).StepOver st lx := by
  obtain ⟨ps, last, h⟩ := Decomposes.exists_of_text source
  rw [steps_ofSource h] at hst
  obtain ⟨before, p, later, rfl, rfl⟩ := Piece.mem_steps_iff.1 hst
  exact ⟨p.lexeme, stepOver h⟩

/-- Whatever lies between a token and the cursor behind it belongs to its lexeme. -/
theorem exists_stepOver (h : Decomposes source ps last) {st : Step} {i : Nat}
    (hst : st ∈ (ofSource source file).steps) (hlow : st.token.offset ≤ i)
    (hhigh : i < st.cursor.offset) :
    ∃ x lx, (Piece.row ps last)[i]? = some (x, some lx) ∧
      (ofSource source file).StepOver st lx := by
  rw [steps_ofSource h] at hst
  obtain ⟨before, p, later, rfl, rfl⟩ := Piece.mem_steps_iff.1 hst
  rw [h.offset_token] at hlow
  rw [h.offset_cursor] at hhigh
  obtain ⟨j, rfl⟩ := Nat.exists_eq_add_of_le hlow
  have hj : j < p.lexeme.span.length := Nat.lt_of_add_lt_add_left hhigh
  exact ⟨_, _, Piece.row_lexeme (List.getElem?_eq_getElem hj), stepOver h⟩

theorem exists_step (h : Decomposes source ps last) {i : Nat} {x : Char} {lx : Lexeme}
    (hrow : (Piece.row ps last)[i]? = some (x, some lx)) :
    ∃ st, (ofSource source file).StepOver st lx ∧ st.token.offset ≤ i ∧ i < st.cursor.offset := by
  obtain ⟨before, p, later, j, rfl, rfl, hx, rfl⟩ := Piece.exists_of_row hrow
  have hj := (List.getElem?_eq_some_iff.1 hx).1
  refine ⟨_, stepOver h, ?_, ?_⟩
  · rw [h.offset_token]
    exact Nat.le_add_right _ _
  · rw [h.offset_cursor]
    exact Nat.add_lt_add_left hj _

theorem inString_iff (h : Decomposes source ps last) {i : Nat} :
    (ofSource source file).InString i ↔
      ∃ x lx, (Piece.row ps last)[i]? = some (x, some lx) ∧ lx.isString = true := by
  constructor
  · rintro ⟨st, hst, hquote, hlow, hhigh⟩
    obtain ⟨x, lx, hrow, hover⟩ := exists_stepOver h hst hlow hhigh
    rw [hover.head] at hquote
    exact ⟨x, lx, hrow, decide_eq_true hquote⟩
  · rintro ⟨x, lx, hrow, hs⟩
    obtain ⟨st, hover, hlow, hhigh⟩ := exists_step h hrow
    refine ⟨st, hover.mem, ?_, hlow, hhigh⟩
    rw [hover.head]
    exact of_decide_eq_true hs

/-- The newlines that count for a lexer are those that end a line for the reader of its source. -/
theorem counts_eq (h : Decomposes source ps last) (i : Nat) :
    (ofSource source file).counts i = (Piece.row ps last)[i]?.any endsLine := by
  rw [counts, buffer_eq h]
  match hrow : (Piece.row ps last)[i]? with
  | none => simp
  | some (x, none) => simp [inString_iff h, hrow, endsLine]
  | some (x, some lx) => simp [inString_iff h, hrow, endsLine]

theorem placeAt_eq (h : Decomposes source ps last) (o : Nat) :
    (ofSource source file).placeAt o =
      Cursor.place (fun i => (Piece.row ps last)[i]?.any endsLine) o := by
  rw [placeAt, funext (counts_eq h)]

/-! ### The position law -/

theorem placeAt_of_mem_steps {st : Step} (hst : st ∈ (ofSource source file).steps) :
    st.token.place = (ofSource source file).placeAt st.token.offset ∧
      st.cursor = (ofSource source file).placeAt st.cursor.offset := by
  obtain ⟨ps, last, h⟩ := Decomposes.exists_of_text source
  rw [steps_ofSource h] at hst
  obtain ⟨before, p, later, rfl, rfl⟩ := Piece.mem_steps_iff.1 hst
  obtain ⟨rest, hp⟩ := h.leads p (by simp)
  have hbefore := fun q hq => h.leads q (List.mem_append_left _ hq)
  -- what a reader has read in front of the token, and behind it
  have hgap : Cursor.start.read (before.flatMap Piece.marked ++ p.gap.map (·, none)) =
      (Piece.finish .start before).advance p.gap := by
    rw [Cursor.read_append, Cursor.read_gap, Piece.read_flatMap_marked hbefore]
  have hpiece : Cursor.start.read (before.flatMap Piece.marked ++ p.marked) =
      p.after (Piece.finish .start before) := by
    rw [Cursor.read_append, Piece.read_marked hp, Piece.read_flatMap_marked hbefore]
  rw [placeAt_eq h, placeAt_eq h]
  constructor
  · exact Cursor.eq_place_of_read (by simp [Piece.row, Piece.marked]) hgap
  · exact Cursor.eq_place_of_read (by simp [Piece.row]) hpiece

theorem placeAt_stop (source file : Text) (i : Nat) :
    (ofSource source file).stop i =
      (ofSource source file).placeAt ((ofSource source file).stop i).offset := by
  rcases Nat.lt_or_ge (ofSource source file).drain.1.length i with hi | hi
  · obtain ⟨ps, last, h⟩ := Decomposes.exists_of_text source
    have hrow : Cursor.start.read (Piece.row ps last) =
        (Piece.finish .start ps).advance (last ++ [' ']) := by
      rw [Piece.row, Cursor.read_append, Cursor.read_gap, Piece.read_flatMap_marked h.leads]
    rw [stop_of_length_lt hi, drain_ofSource h, placeAt_eq h]
    exact Cursor.eq_place_of_read (List.prefix_refl _) hrow
  · rcases stop_eq_or_mem _ hi with hstop | ⟨st, hst, hstop⟩
    · rw [hstop]
      rfl
    · rw [hstop]
      exact (placeAt_of_mem_steps hst).2

/-- A newline that counts and belongs to a token is this token. -/
theorem token_of_newline {st : Step} {i : Nat} (hst : st ∈ (ofSource source file).steps)
    (hlow : st.token.offset ≤ i) (hhigh : i < st.cursor.offset)
    (hnewline : (ofSource source file).buffer[i]? = some '\n')
    (hout : ¬(ofSource source file).InString i) : st.token.kind = .newline ∧ st.token.offset = i := by
  obtain ⟨ps, last, h⟩ := Decomposes.exists_of_text source
  obtain ⟨x, lx, hrow, hover⟩ := exists_stepOver h hst hlow hhigh
  obtain ⟨rest, hl⟩ := hover.leads
  have hx : '\n' ∈ lx.span := by
    rw [buffer_eq h, hrow] at hnewline
    cases hnewline
    exact Piece.mem_span_of_row hrow
  have hs : lx.isString = false := by
    rw [← Bool.not_eq_true]
    intro hs
    exact hout ((inString_iff h).2 ⟨x, lx, hrow, hs⟩)
  have hk : lx.kind = .newline := by
    apply Decidable.byContradiction
    intro hk
    exact hl.newline_notMem_span hk hs hx
  have hfinish := hover.finish
  rw [hl.span_of_newline hk, List.length_singleton] at hfinish
  constructor
  · exact hover.kind.trans hk
  · omega

/-- No newline token is inside a string literal. -/
theorem not_inString_of_newline {st : Step} (hst : st ∈ (ofSource source file).steps)
    (hk : st.token.kind = .newline) : ¬(ofSource source file).InString st.token.offset := by
  intro hin
  obtain ⟨ps, last, h⟩ := Decomposes.exists_of_text source
  obtain ⟨_, hover⟩ := exists_stepOver_of_mem hst
  obtain ⟨x, lx, hrow, hover⟩ := exists_stepOver h hst (Nat.le_refl _) hover.offset_lt
  obtain ⟨x', lx', hrow', hs⟩ := (inString_iff h).1 hin
  obtain ⟨rest, hl⟩ := hover.leads
  -- one character belongs to one lexeme only
  rw [hrow] at hrow'
  cases hrow'
  rw [Lexeme.isString, hl.span_of_newline (hover.kind ▸ hk)] at hs
  exact absurd hs (by decide)

/-- A newline counts if it is a token by itself, or between two tokens, where only comments have
newlines. -/
theorem counts_iff (source file : Text) (i : Nat) :
    (ofSource source file).counts i = true ↔ (ofSource source file).buffer[i]? = some '\n' ∧
      ((∃ t ∈ (ofSource source file).drain.1, t.kind = .newline ∧ t.offset = i) ∨
        ∀ st ∈ (ofSource source file).steps, ¬(st.token.offset ≤ i ∧ i < st.cursor.offset)) := by
  rw [counts, decide_eq_true_eq]
  apply and_congr_right
  intro hnewline
  constructor
  · intro hout
    by_cases hin : ∃ st ∈ (ofSource source file).steps, st.token.offset ≤ i ∧ i < st.cursor.offset
    · obtain ⟨st, hst, hlow, hhigh⟩ := hin
      exact Or.inl ⟨st.token, mem_drain hst, token_of_newline hst hlow hhigh hnewline hout⟩
    · exact Or.inr fun st hst hspan => hin ⟨st, hst, hspan⟩
  · rintro (⟨t, ht, hk, rfl⟩ | hbetween)
    · obtain ⟨st, hst, rfl⟩ := exists_of_mem_drain ht
      exact not_inString_of_newline hst hk
    · rintro ⟨st, hst, -, hlow, hhigh⟩
      exact hbetween st hst ⟨hlow, hhigh⟩

theorem pairwise_precedes (source file : Text) :
    (ofSource source file).drain.1.Pairwise fun t u => t.place.Precedes u.place := by
  obtain ⟨ps, last, h⟩ := Decomposes.exists_of_text source
  have hoffsets : (ofSource source file).drain.1.Pairwise fun t u => t.offset < u.offset := by
    rw [← List.pairwise_map, drain_fst, steps_ofSource h, List.map_map]
    exact h.map_offset_steps file .start ▸ h.pairwise_starts 0
  refine hoffsets.imp_of_mem fun ht hu hlt => ?_
  obtain ⟨s, hs, rfl⟩ := exists_of_mem_drain ht
  obtain ⟨s', hs', rfl⟩ := exists_of_mem_drain hu
  rw [(placeAt_of_mem_steps hs).1, (placeAt_of_mem_steps hs').1]
  exact Cursor.place_precedes _ hlt

/-- Every token is at the place that its offset has by the newlines that count before it, and so is
the lexer after any number of calls for the next token. The places grow from token to token. Of all
newlines those inside string literals do not count: those that are tokens and those of comments do.
In the end the lexer is behind the blank that ends its buffer. -/
theorem position_law (source file : Text) :
    (∀ t ∈ (ofSource source file).drain.1, t.place = (ofSource source file).placeAt t.offset) ∧
    (∀ i, ((ofSource source file).after i).cursor =
      (ofSource source file).placeAt ((ofSource source file).after i).cursor.offset) ∧
    (ofSource source file).drain.1.Pairwise (fun t u => t.place.Precedes u.place) ∧
    (∀ i, (ofSource source file).counts i = true ↔ (ofSource source file).buffer[i]? = some '\n' ∧
      ((∃ t ∈ (ofSource source file).drain.1, t.kind = .newline ∧ t.offset = i) ∨
        ∀ st ∈ (ofSource source file).steps, ¬(st.token.offset ≤ i ∧ i < st.cursor.offset))) ∧
    (∀ i, (ofSource source file).drain.1.length < i →
      ((ofSource source file).after i).cursor.offset = source.length + 1) := by
  refine ⟨fun t ht => ?_, fun i => ?_, pairwise_precedes source file, counts_iff source file,
    fun i hi => ?_⟩
  · obtain ⟨st, hst, rfl⟩ := exists_of_mem_drain ht
    exact (placeAt_of_mem_steps hst).1
  · rw [after_eq]
    exact placeAt_stop source file i
  · rw [after_eq, stop_of_length_lt hi]
    exact offset_drain_ofSource source file

end Lexer

end OctalScan
