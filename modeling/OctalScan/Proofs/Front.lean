import OctalScan.Proofs.Decomposition

/-!
# Fronts of sources

What follows a lexeme matters to it by its first character alone, except that nothing may follow a
string literal that is never closed (`Lexeme.Leads.of_head`). So the pieces at the front of a text
do not depend on how the text ends. `Begins s ps t` says that the text `s` begins with the pieces
`ps` and that `t` is left of it. More text behind `t` changes nothing in the pieces, provided that
`t` is not empty or the last piece is complete as it is (`Begins.append`), and a lexer reads them
first (`Begins.all_eq`).
-/

namespace OctalScan

/-! ### Literals that are never closed -/

/-- Whether a lexeme is a string literal that is never closed: an error whose message begins with a
quote, as the message is the literal itself. -/
def Lexeme.isUnclosed (l : Lexeme) : Bool :=
  l.kind = .error && l.payload.message.head? = some '"'

/-- Whether a token is a string literal that is never closed. -/
def Token.isUnclosed (t : Token) : Bool := t.isError && t.payload.message.head? = some '"'

theorem Lexeme.isUnclosed_ofDigits (digits : Text) : (ofDigits digits).isUnclosed = false := by
  rw [ofDigits]
  split
  · rfl
  · split <;> rfl

theorem Run.longest_of_head {p : Char → Bool} {w rest rest' : Text}
    (h : Longest (Run p) w rest) (hp : ∀ x, p x = true → isSymbolChar x = true)
    (hhead : ∀ x ∈ rest'.head?, isSymbolChar x = true → x ∈ rest.head?) :
    Longest (Run p) w rest' := by
  obtain ⟨hrun, hstop⟩ := longest_iff.1 h
  refine longest_iff.2 ⟨hrun, fun x hx => ?_⟩
  rw [← Bool.not_eq_true]
  intro hpx
  have := hstop x (hhead x hx (hp x hpx))
  exact Bool.false_ne_true (this.symm.trans hpx)

namespace Lexeme.Leads

variable {l : Lexeme} {rest rest' : Text}

/-- A literal that is never closed takes all the text. -/
theorem eq_nil_of_unclosed (h : l.Leads rest) (ho : l.isUnclosed = true) : rest = [] := by
  cases h with
  | openString _ => rfl
  | literal _ =>
    rw [isUnclosed_ofDigits] at ho
    cases ho
  | delimiter _ _ => simp [isUnclosed, Payload.message] at ho
  | symbol _ _ => simp [isUnclosed] at ho
  | string _ _ => simp [isUnclosed] at ho
  | invalid _ _ _ _ _ => simp [isUnclosed, Payload.message] at ho

/-- Only the next character can make a lexeme longer, and only if it is one of those that symbols
and literals consist of. -/
theorem of_head (h : l.Leads rest) (ho : l.isUnclosed = true → rest' = [])
    (hhead : ∀ x ∈ rest'.head?, isSymbolChar x = true → x ∈ rest.head?) : l.Leads rest' := by
  cases h with
  | delimiter _ hx => exact .delimiter rest' hx
  | symbol hx h => exact .symbol hx (Run.longest_of_head h (fun _ hy => hy) hhead)
  | literal h =>
    exact .literal
      (Run.longest_of_head h (fun _ hy => (isSymbolStart_of_isOctalDigit hy).2) hhead)
  | string _ hb => exact .string rest' hb
  | openString hb =>
    rw [ho rfl]
    exact .openString hb
  | invalid _ hd hs hi hq => exact .invalid rest' hd hs hi hq

/-- A lexeme that does not reach the end of a text is the same in a longer text. -/
theorem append (h : l.Leads rest) (hne : rest ≠ []) (b : Text) : l.Leads (rest ++ b) := by
  refine h.of_head (fun ho => absurd (h.eq_nil_of_unclosed ho) hne) fun x hx _ => ?_
  obtain ⟨y, t, rfl⟩ := List.exists_cons_of_ne_nil hne
  exact hx

end Lexeme.Leads

/-! ### Pieces at the front -/

/-- `Begins s ps t` says that the text `s` begins with the pieces `ps` and that `t` is left. -/
inductive Begins : Text → List Piece → Text → Prop
  | nil (t : Text) : Begins t [] t
  | piece {g rest t : Text} {l : Lexeme} {ps : List Piece} (hg : Longest Gap g (l.span ++ rest))
      (hl : l.Leads rest) (h : Begins rest ps t) : Begins (g ++ (l.span ++ rest)) (⟨g, l⟩ :: ps) t

theorem Decomposes.begins {s last : Text} {ps : List Piece} (h : Decomposes s ps last) :
    Begins s ps last := by
  induction h with
  | finish _ => exact .nil _
  | piece hg hl _ ih => exact .piece hg hl ih

namespace Begins

variable {s t : Text} {ps : List Piece}

theorem ne_nil_of_cons {p : Piece} (h : Begins s (p :: ps) t) : s ≠ [] := by
  cases h with
  | piece _ hl _ => simp [hl.span_ne_nil]

/-- More text at the end changes no piece at the front. Only if nothing was left can it matter, and
then to the last piece alone. -/
theorem append (h : Begins s ps t) (b : Text)
    (hlast : t = [] → ∀ p ∈ ps.getLast?, p.lexeme.Leads b) : Begins (s ++ b) ps (t ++ b) := by
  induction h with
  | nil t => exact .nil (t ++ b)
  | @piece g rest t l ps hg hl h ih =>
    have hl' : l.Leads (rest ++ b) := by
      by_cases hne : rest = []
      · -- nothing is behind the lexeme, so it is the last
        cases ps with
        | nil =>
          cases h
          rw [hne]
          exact hlast hne _ rfl
        | cons q qs => exact absurd hne h.ne_nil_of_cons
      · exact hl.append hne b
    have hg' := hg.gap_append (by simp [hl.span_ne_nil]) b
    have hih := ih fun ht p hp => hlast ht p (by
      rw [List.getLast?_cons, Option.mem_def.1 hp]
      rfl)
    rw [List.append_assoc] at hg'
    rw [List.append_assoc, List.append_assoc]
    exact .piece hg' hl' hih

/-- The steps over a text that is ended by a blank are the steps over the pieces at its front, and
then those over what is left. -/
theorem all_eq (h : Begins s ps t) (file : Text) (c : Cursor) :
    Step.all file c (s ++ [' ']) =
      (Piece.steps file c ps ++ (Step.all file (Piece.finish c ps) (t ++ [' '])).1,
        (Step.all file (Piece.finish c ps) (t ++ [' '])).2) := by
  induction h generalizing c with
  | nil _ => rfl
  | piece hg hl _ ih =>
    rw [Step.all_eq, Reading.first_of_piece hg hl]
    simp only [ih]
    rfl

end Begins

end OctalScan
