import OctalScan.Proofs.Position

/-!
# Translation

A text that begins at a cursor is read as the same text would be by itself.
`Cursor.translate base` takes a place in a text that stands by itself to where it is when the text
begins at `base`. Offsets and lines go on from `base`. Columns do so on the first line only: behind
the first newline that counts they are what they were.

Every move of a lexer commutes with this translation, provided that lines are counted from one. So
the tokens that are read depend on nothing but the text behind the cursor (`Lexer.drain_moveTo`).
-/

namespace OctalScan

/-! ### Cursors -/

namespace Cursor

/-- Where a place of a text is when the text begins at `base`. -/
def translate (base c : Cursor) : Cursor where
  offset := base.offset + c.offset
  line := base.line + (c.line - 1)
  column := if c.line = 1 then base.column + c.column else c.column

variable (base : Cursor) {c : Cursor}

@[simp] theorem translate_start : base.translate start = base := by simp [translate, start]

theorem translate_right (c : Cursor) (n : Nat) :
    base.translate (c.right n) = (base.translate c).right n := by
  have hoffset : base.offset + (c.offset + n) = base.offset + c.offset + n :=
    (Nat.add_assoc _ _ _).symm
  by_cases hfirst : c.line = 1
  · simp [translate, right, hfirst, hoffset, Int.add_assoc]
  · simp [translate, right, hfirst, hoffset]

/-- Behind a newline that counts the columns begin anew, wherever the text begins. -/
theorem translate_nextLine (hc : 1 ≤ c.line) :
    base.translate c.nextLine = (base.translate c).nextLine := by
  have hline : base.line + (c.line + 1 - 1) = base.line + (c.line - 1) + 1 := by omega
  have hnext : ¬c.line + 1 = 1 := by omega
  simp only [translate, nextLine, hnext, if_false, hline, Nat.add_assoc]

theorem line_le_step (c : Cursor) (x : Char) : c.line ≤ (c.step x).line := by
  rw [step]
  split
  · exact Int.le_add_one (Int.le_refl _)
  · exact Int.le_refl _

theorem translate_step (hc : 1 ≤ c.line) (x : Char) :
    base.translate (c.step x) = (base.translate c).step x := by
  rw [step, step]
  split
  · exact translate_nextLine base hc
  · exact translate_right base c 1

theorem line_le_advance (c : Cursor) (g : Text) : c.line ≤ (c.advance g).line := by
  induction g generalizing c with
  | nil => exact Int.le_refl _
  | cons x g ih => exact Int.le_trans (line_le_step c x) (ih (c.step x))

theorem translate_advance (hc : 1 ≤ c.line) (g : Text) :
    base.translate (c.advance g) = (base.translate c).advance g := by
  induction g generalizing c with
  | nil => rfl
  | cons x g ih =>
    rw [advance_cons, advance_cons, ih (Int.le_trans hc (line_le_step c x)),
      translate_step base hc]

theorem line_le_past (c : Cursor) (l : Lexeme) : c.line ≤ (c.past l).line := by
  rw [past]
  split
  · exact Int.le_add_one (Int.le_refl _)
  · exact Int.le_refl _

theorem translate_past (hc : 1 ≤ c.line) (l : Lexeme) :
    base.translate (c.past l) = (base.translate c).past l := by
  rw [past, past]
  split
  · exact translate_nextLine base hc
  · exact translate_right base c _

end Cursor

/-! ### Tokens and readings -/

namespace Token

/-- A token of a text when the text begins at `base`. -/
def translate (base : Cursor) (t : Token) : Token :=
  { t with
    offset := base.offset + t.offset
    line := base.line + (t.line - 1)
    column := if t.line = 1 then base.column + t.column else t.column }

/-- What a token says, wherever it stands. -/
def content (t : Token) : Kind × Payload := (t.kind, t.payload)

theorem map_content_translate (base : Cursor) (ts : List Token) :
    (ts.map (translate base)).map content = ts.map content := by
  rw [List.map_map]
  rfl

end Token

/-- A reading of a text when the text begins at `base`. -/
def Reading.translate (base : Cursor) (r : Reading) : Reading :=
  ⟨r.token.translate base, base.translate r.cursor, r.rest⟩

/-- A step over a text when the text begins at `base`. -/
def Step.translate (base : Cursor) (s : Step) : Step :=
  ⟨s.token.translate base, base.translate s.cursor⟩

theorem Step.map_token_translate (base : Cursor) (ss : List Step) :
    (ss.map (translate base)).map token = (ss.map token).map (Token.translate base) := by
  rw [List.map_map, List.map_map]
  rfl

/-- Reading moves the cursor over the gap and then over the lexeme, so it commutes with translation
because these moves do. -/
theorem Reading.first_translate (file : Text) (base : Cursor) {c : Cursor} (hc : 1 ≤ c.line)
    (t : Text) :
    first file (base.translate c) t =
      match first file c t with
      | .error c' => .error (base.translate c')
      | .ok r => .ok (r.translate base) := by
  obtain ⟨g, rest, rfl, hg⟩ := exists_longest_gap t
  have hline := Int.le_trans hc (Cursor.line_le_advance c g)
  simp only [first, Cursor.skipGap_of_longest hg, ← Cursor.translate_advance base hc]
  cases rest with
  | nil => rfl
  | cons x t => simp only [← Cursor.translate_past base hline]; rfl

theorem Reading.line_le_cursor {file : Text} {c : Cursor} {t : Text} {r : Reading}
    (h : first file c t = .ok r) : c.line ≤ r.cursor.line := by
  obtain ⟨g, rest, rfl, hg⟩ := exists_longest_gap t
  simp only [first, Cursor.skipGap_of_longest hg] at h
  cases rest with
  | nil => cases h
  | cons x t =>
    cases h
    exact Int.le_trans (Cursor.line_le_advance c g) (Cursor.line_le_past _ _)

/-- The steps over a text that begins somewhere else are the steps over the text, translated. -/
theorem Step.all_translate (file : Text) (base : Cursor) {c : Cursor} (hc : 1 ≤ c.line)
    (t : Text) :
    all file (base.translate c) t =
      ((all file c t).1.map (translate base), base.translate (all file c t).2) := by
  rw [all_eq, all_eq file c, Reading.first_translate file base hc]
  match h : Reading.first file c t with
  | .error c' => rfl
  | .ok r =>
    have hr := Int.le_trans hc (Reading.line_le_cursor h)
    have hrest := all_translate file base hr r.rest
    simp only [Reading.translate, hrest]
    rfl
termination_by t.length
decreasing_by exact Reading.length_rest_lt h

/-! ### Lexers -/

namespace Lexer

variable {source file : Text}

theorem drain_of_remaining_eq {l l' : Lexer} (hfile : l.file = l'.file)
    (hrem : l.remaining = l'.remaining) (hcursor : l'.cursor = .start) :
    l.drain.1 = l'.drain.1.map (Token.translate l.cursor) := by
  have hall := Step.all_translate l'.file l.cursor (c := .start) (Int.le_refl _) l'.remaining
  rw [Cursor.translate_start] at hall
  rw [drain_fst, drain_fst, steps, steps, hfile, hrem, hcursor, hall, Step.map_token_translate]

theorem one_le_line {t : Token} (ht : t ∈ (ofSource source file).drain.1) : 1 ≤ t.line := by
  obtain ⟨st, hst, rfl⟩ := exists_of_mem_drain ht
  have hline := congrArg Cursor.line (placeAt_of_mem_steps hst).1
  simp only [Token.place, placeAt, Cursor.place] at hline
  omega

/-- Wherever a lexer is moved to, it reads on as if the text from there on were a source of its
own: the tokens are those of that source, translated to the cursor. -/
theorem map_translate_drain (source file : Text) (c : Cursor) :
    ((ofSource source file).moveTo c).drain.1 =
      (ofSource (source.drop c.offset) file).drain.1.map (Token.translate c) := by
  rcases Nat.lt_or_ge source.length c.offset with ho | ho
  · -- behind the source there is nothing to read, as in an empty source
    have hdrop : source.drop c.offset = [] := List.drop_eq_nil_of_le (Nat.le_of_lt ho)
    have hrem : ((ofSource source file).moveTo c).remaining = [] :=
      List.drop_eq_nil_of_le (by
        simp only [moveTo, ofSource, ofBuffer, List.length_append]
        exact ho)
    have hnext : ((ofSource source file).moveTo c).next = (none, (ofSource source file).moveTo c) :=
      next_of_error (by rw [hrem]; rfl)
    have hempty : (ofSource [] file).next = (none, _) := rfl
    rw [hdrop, drain_fst, drain_fst, (steps_of_next_none hnext).1, (steps_of_next_none hempty).1]
    rfl
  · refine drain_of_remaining_eq (l := (ofSource source file).moveTo c) rfl ?_ rfl
    exact List.drop_append_of_le_length ho

/-- A lexer that was moved to any cursor reads the tokens that the text from there on has by itself,
with the same kinds and payloads. Their offsets and lines go on from those of the cursor; columns do
so for the tokens of the first line, and the others keep theirs. Neither the line and the column of
the cursor nor the text before it make a difference to what is read. -/
theorem drain_moveTo (source file : Text) (c : Cursor) :
    ((ofSource source file).moveTo c).drain.1 =
        (ofSource (source.drop c.offset) file).drain.1.map (Token.translate c) ∧
      (∀ t ∈ (ofSource (source.drop c.offset) file).drain.1, 1 ≤ t.line) ∧
      ∀ (source' : Text) (c' : Cursor), source'.drop c'.offset = source.drop c.offset →
        ((ofSource source' file).moveTo c').drain.1.map Token.content =
          ((ofSource source file).moveTo c).drain.1.map Token.content := by
  refine ⟨map_translate_drain source file c, fun t ht => one_le_line ht, fun source' c' hdrop => ?_⟩
  rw [map_translate_drain, map_translate_drain, hdrop, Token.map_content_translate,
    Token.map_content_translate]

end Lexer

end OctalScan
