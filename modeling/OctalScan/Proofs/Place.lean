import OctalScan.Proofs.Decomposition

/-!
# Places by counted newlines

The place of an offset depends only on which newlines before it count (`Cursor.place`). A reader who
goes through a text character by character, and knows of each character which lexeme it belongs to,
always is at such a place (`Cursor.read_take`): the newlines that count are those outside string
literals. The moves of a lexer, over a whole gap or a whole lexeme at once, are moves of this reader
(`Cursor.read_gap`, `Cursor.read_lexeme`).
-/

namespace OctalScan

namespace Cursor

/-- The place of an offset when the newlines at certain offsets count: the line is one more than the
number of these newlines before it, and the column is its distance from the character behind the
last of them. -/
def place (newline : Nat → Bool) (o : Nat) : Cursor :=
  let before := (List.range o).filter newline
  ⟨o, 1 + (before.length : Int), (o : Int) - ((before.getLast?.map (· + 1)).getD 0 : Nat)⟩

/-- The order of places in a text, by line and then by column. -/
def Precedes (c c' : Cursor) : Prop := c.line < c'.line ∨ c.line = c'.line ∧ c.column < c'.column

variable {newline : Nat → Bool} {o : Nat}

/-- A newline that counts ends the line. -/
theorem place_succ_of_newline (h : newline o = true) :
    place newline (o + 1) = (place newline o).nextLine := by
  have hbefore : (List.range (o + 1)).filter newline = (List.range o).filter newline ++ [o] := by
    rw [List.range_succ, List.filter_append, List.filter_cons_of_pos h, List.filter_nil]
  have hlast : (((List.range o).filter newline ++ [o]).getLast?.map (· + 1)).getD 0 = o + 1 := by
    rw [List.getLast?_concat]
    rfl
  simp only [place, nextLine, hbefore, hlast, List.length_append, List.length_singleton,
    Cursor.mk.injEq, true_and]
  omega

theorem place_succ_of_not_newline (h : newline o = false) :
    place newline (o + 1) = (place newline o).right 1 := by
  have hbefore : (List.range (o + 1)).filter newline = (List.range o).filter newline := by
    rw [List.range_succ, List.filter_append, List.filter_cons_of_neg (by simp [h]), List.filter_nil,
      List.append_nil]
  simp only [place, right, hbefore, Cursor.mk.injEq, true_and]
  omega

/-- Only the newlines before an offset matter to its place. -/
theorem place_congr {f g : Nat → Bool} (h : ∀ i, i < o → f i = g i) : place f o = place g o := by
  have hfilter : (List.range o).filter f = (List.range o).filter g :=
    List.filter_congr fun i hi => h i (List.mem_range.1 hi)
  rw [place, place, hfilter]

theorem place_precedes_succ (newline : Nat → Bool) (o : Nat) :
    (place newline o).Precedes (place newline (o + 1)) := by
  cases h : newline o with
  | true =>
    rw [place_succ_of_newline h]
    exact Or.inl (Int.lt_succ _)
  | false =>
    rw [place_succ_of_not_newline h]
    exact Or.inr ⟨rfl, Int.lt_succ _⟩

theorem Precedes.trans {a b c : Cursor} (h : a.Precedes b) (h' : b.Precedes c) : a.Precedes c := by
  rw [Precedes] at h h' ⊢
  omega

theorem place_precedes (newline : Nat → Bool) {o o' : Nat} (h : o < o') :
    (place newline o).Precedes (place newline o') := by
  induction o' with
  | zero => exact absurd h (Nat.not_lt_zero o)
  | succ o' ih =>
    rcases Nat.lt_succ_iff_lt_or_eq.1 h with hlt | rfl
    · exact (ih hlt).trans (place_precedes_succ newline o')
    · exact place_precedes_succ newline o

end Cursor

/-! ### String literals -/

/-- Whether a lexeme is a string literal, closed or not: it begins with a quote. -/
def Lexeme.isString (l : Lexeme) : Bool := l.span.head? = some '"'

namespace Lexeme.Leads

variable {l : Lexeme} {rest : Text}

/-- The newlines of a source stand in gaps, in string literals, and as lexemes by themselves. -/
theorem newline_notMem_span (h : l.Leads rest) (hk : l.kind ≠ .newline) (hs : l.isString = false) :
    '\n' ∉ l.span := by
  cases h with
  | @delimiter x k _ hx =>
    rw [List.mem_singleton]
    rintro rfl
    have := mem_delimiters_iff.1 hx
    cases this
    exact hk rfl
  | symbol _ h =>
    intro hn
    exact absurd (h.1 _ hn) (by decide)
  | literal h =>
    rw [span_ofDigits]
    intro hn
    exact absurd (h.1 _ hn) (by decide)
  | string _ _ => simp [isString] at hs
  | openString _ => simp [isString] at hs
  | @invalid x _ hd _ _ _ =>
    rw [List.mem_singleton]
    rintro rfl
    exact hd .newline (by simp [delimiters])

/-- Only a newline lexeme begins with a newline. -/
theorem ne_newline_of_head {x : Char} (h : l.Leads rest) (hk : l.kind ≠ .newline)
    (hx : l.span.head? = some x) : x ≠ '\n' := by
  rintro rfl
  cases hs : l.isString with
  | true => simp [isString, hx] at hs
  | false => exact h.newline_notMem_span hk hs (List.mem_of_head? hx)

end Lexeme.Leads

/-! ### A reader of marked characters -/

/-- A character, with the lexeme that it belongs to unless it is in a gap, ends a line if it is a
newline outside string literals. -/
def endsLine (x : Char × Option Lexeme) : Bool := x.1 = '\n' && !x.2.any Lexeme.isString

/-- The characters of a piece with the lexemes that they belong to. -/
def Piece.marked (p : Piece) : List (Char × Option Lexeme) :=
  p.gap.map (·, none) ++ p.lexeme.span.map (·, some p.lexeme)

namespace Cursor

/-- The cursor of a reader who goes through marked characters one by one. -/
def read (c : Cursor) (m : List (Char × Option Lexeme)) : Cursor :=
  m.foldl (fun c x => if endsLine x then c.nextLine else c.right 1) c

theorem read_append (c : Cursor) (m m' : List (Char × Option Lexeme)) :
    c.read (m ++ m') = (c.read m).read m' := List.foldl_append

theorem read_cons (c : Cursor) (x : Char × Option Lexeme) (m : List (Char × Option Lexeme)) :
    c.read (x :: m) = (if endsLine x then c.nextLine else c.right 1).read m := rfl

/-- The reader is where the newlines that end lines put him. -/
theorem read_take (m : List (Char × Option Lexeme)) {k : Nat} (hk : k ≤ m.length) :
    start.read (m.take k) = place (fun i => m[i]?.any endsLine) k := by
  induction k with
  | zero => rfl
  | succ k ih =>
    have hget : m[k]? = some m[k] := List.getElem?_eq_getElem hk
    rw [List.take_succ_eq_append_getElem hk, read_append, ih (Nat.le_of_succ_le hk), read_cons]
    cases h : endsLine m[k] with
    | true =>
      rw [place_succ_of_newline (by rw [hget]; exact h)]
      rfl
    | false =>
      rw [place_succ_of_not_newline (by rw [hget]; exact h)]
      rfl

/-- Where no line ends the reader moves to the right. -/
theorem read_right {m : List (Char × Option Lexeme)} (h : ∀ x ∈ m, endsLine x = false)
    (c : Cursor) : c.read m = c.right m.length := by
  induction m generalizing c with
  | nil => simp [read, right]
  | cons x m ih =>
    obtain ⟨hx, hm⟩ := List.forall_mem_cons.1 h
    rw [read_cons, hx, if_neg Bool.false_ne_true, ih hm]
    simp only [right, List.length_cons, Cursor.mk.injEq, true_and]
    omega

theorem read_gap (c : Cursor) (g : Text) : c.read (g.map (·, none)) = c.advance g := by
  induction g generalizing c with
  | nil => rfl
  | cons x g ih =>
    rw [advance_cons, ← ih, step, List.map_cons, read_cons]
    by_cases hx : x = '\n'
    · simp [endsLine, hx]
    · simp [endsLine, hx]

theorem read_lexeme {l : Lexeme} {rest : Text} (h : l.Leads rest) (c : Cursor) :
    c.read (l.span.map (·, some l)) = c.past l := by
  rw [past]
  split
  · next hk =>
    have hspan := h.span_of_newline hk
    have hs : l.isString = false := by simp [Lexeme.isString, hspan]
    rw [hspan]
    simp [read, endsLine, hs]
  · next hk =>
    rw [← List.length_map (f := fun x : Char => (x, some l))]
    refine read_right (fun y hy => ?_) c
    obtain ⟨x, hx, rfl⟩ := List.mem_map.1 hy
    cases hs : l.isString with
    | true => simp [endsLine, hs]
    | false =>
      have hn : x ≠ '\n' := fun he => h.newline_notMem_span hk hs (he ▸ hx)
      simp [endsLine, hn]

end Cursor

end OctalScan
