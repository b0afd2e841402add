import OctalScan.Lexer
import OctalScan.Proofs.Lexeme

/-!
# The decomposition of a source

A source is a row of lexemes with gaps around them. `Decomposes` cuts it from left to right, always
taking the longest gap and then the lexeme that its first character decides. There is exactly one
such decomposition, and the tokens that a lexer yields are those of its lexemes, in order and each
at its place (`Lexer.maximal_munch`).

The lexer works on the source and one more blank. The blank ends whatever the source ends in, so it
changes no piece and only makes the last gap longer (`Decomposes.all_eq`).
-/

namespace OctalScan

/-- A lexeme and the gap in front of it. -/
structure Piece where
  gap : Text
  lexeme : Lexeme
  deriving DecidableEq, Repr

namespace Piece

/-- The text that a piece takes. -/
def text (p : Piece) : Text := p.gap ++ p.lexeme.span

def after (c : Cursor) (p : Piece) : Cursor := (c.advance p.gap).past p.lexeme

/-- The token of a piece that stands at a cursor, and the cursor behind it. -/
def step (file : Text) (c : Cursor) (p : Piece) : Step :=
  ⟨p.lexeme.toToken file (c.advance p.gap), p.after c⟩

/-- The steps over pieces that follow one another from a cursor on. -/
def steps (file : Text) (c : Cursor) : List Piece → List Step
  | [] => []
  | p :: ps => p.step file c :: steps file (p.after c) ps

def finish (c : Cursor) (ps : List Piece) : Cursor := ps.foldl after c

/-- The offsets at which the lexemes of pieces begin, the first piece standing at an offset. -/
def starts (o : Nat) : List Piece → List Nat
  | [] => []
  | p :: ps => (o + p.gap.length) :: starts (o + p.text.length) ps

end Piece

/-- `Decomposes s ps last` says that `s` is the pieces `ps` and the gap `last` behind them, each gap
being as long as possible and each lexeme the one that the text after its gap begins with. -/
inductive Decomposes : Text → List Piece → Text → Prop
  | finish {g : Text} (hg : Longest Gap g []) : Decomposes g [] g
  | piece {g rest last : Text} {l : Lexeme} {ps : List Piece} (hg : Longest Gap g (l.span ++ rest))
      (hl : l.Leads rest) (h : Decomposes rest ps last) :
      Decomposes (g ++ (l.span ++ rest)) (⟨g, l⟩ :: ps) last

namespace Decomposes

theorem exists_of_text (s : Text) : ∃ ps last, Decomposes s ps last := by
  obtain ⟨g, t, happ, hg⟩ := exists_longest_gap s
  match t with
  | [] =>
    rw [happ, List.append_nil]
    exact ⟨[], g, .finish hg⟩
  | x :: t =>
    obtain ⟨l, rest, hl, hcut⟩ := Lexeme.exists_leads x t
    -- no lexeme is empty, so less text is left
    have hlt : rest.length < s.length := by
      have hpos := List.length_pos_iff.2 hl.span_ne_nil
      rw [happ, hcut]
      simp only [List.length_append]
      omega
    obtain ⟨ps, last, h⟩ := exists_of_text rest
    rw [hcut] at happ hg
    rw [happ]
    exact ⟨⟨g, l⟩ :: ps, last, .piece hg hl h⟩
termination_by s.length

variable {s last : Text} {ps : List Piece}

theorem text_eq (h : Decomposes s ps last) : s = ps.flatMap Piece.text ++ last := by
  induction h with
  | finish _ => rfl
  | piece _ _ _ ih =>
    rw [List.flatMap_cons, List.append_assoc, ← ih]
    simp only [Piece.text, List.append_assoc]

/-- No source has two decompositions. -/
theorem unique {ps' : List Piece} {last' : Text} (h : Decomposes s ps last)
    (h' : Decomposes s ps' last') : ps' = ps ∧ last' = last := by
  induction h generalizing ps' last' with
  | finish hg =>
    cases h' with
    | finish _ => exact ⟨rfl, rfl⟩
    | piece hg' hl _ =>
      obtain ⟨-, hnil⟩ := hg.unique hg' (List.append_nil _)
      have := List.append_eq_nil_iff.1 hnil.symm
      exact absurd this.1 hl.span_ne_nil
  | @piece g rest last l ps hg hl _ ih =>
    -- the text is an index of `h'` and must be a variable to tell its cases apart
    generalize hs : g ++ (l.span ++ rest) = s at h'
    cases h' with
    | finish hg' =>
      obtain ⟨-, hnil⟩ := hg.unique hg' (by rw [List.append_nil, hs])
      exact absurd (List.append_eq_nil_iff.1 hnil).1 hl.span_ne_nil
    | piece hg' hl' h' =>
      obtain ⟨rfl, hcut⟩ := hg.unique hg' hs
      obtain ⟨rfl, rfl⟩ := hl.unique hl' hcut
      obtain ⟨rfl, rfl⟩ := ih h'
      exact ⟨rfl, rfl⟩

end Decomposes

/-! ### The blank at the end -/

namespace Gap

theorem of_ne_nil {g rest : Text} (h : Gap g rest) (hne : rest ≠ []) (rest' : Text) :
    Gap g rest' := by
  induction h with
  | nil _ => exact .nil rest'
  | blank hx _ ih => exact .blank hx (ih hne)
  | comment hb _ ih => exact .comment hb (ih hne)
  | openComment _ => exact absurd rfl hne

/-- A gap that ends a text goes on over one more blank. -/
theorem append_blank {g rest : Text} (h : Gap g rest) (hr : rest = []) :
    Gap (g ++ [' ']) [] := by
  induction h with
  | nil _ => exact .blank (.inl rfl) (.nil _)
  | blank hx _ ih => exact .blank hx (ih hr)
  | @comment body g _ hb _ ih =>
    rw [List.cons_append, List.append_assoc, List.cons_append]
    exact .comment hb (ih hr)
  | openComment hb => exact .openComment (by simpa using hb)

end Gap

theorem Longest.gap_append {g rest : Text} (h : Longest Gap g rest) (hne : rest ≠ []) (b : Text) :
    Longest Gap g (rest ++ b) := by
  obtain ⟨hg, hstop⟩ := longest_gap_iff.1 h
  refine longest_gap_iff.2 ⟨hg.of_ne_nil hne _, ?_⟩
  obtain ⟨x, t, rfl⟩ := List.exists_cons_of_ne_nil hne
  exact hstop

/-! ### Reading -/

namespace Reading

/-- Where only a gap is left there is no token. -/
theorem first_of_longest {g : Text} (hg : Longest Gap g []) (file : Text) (c : Cursor) :
    first file c g = .error (c.advance g) := by
  have hskip := Cursor.skipGap_of_longest hg c
  rw [List.append_nil] at hskip
  rw [first, hskip]

theorem first_of_gap {g : Text} (hg : Longest Gap g []) (file : Text) (c : Cursor) :
    first file c (g ++ [' ']) = .error (c.advance (g ++ [' '])) :=
  first_of_longest ((hg.1.append_blank rfl).longest (by simp)) file c

/-- Behind a gap the token of a lexeme is read, and the cursor moves behind it. -/
theorem first_of_read {g rest : Text} {l : Lexeme} (hg : Longest Gap g (l.span ++ rest))
    (hne : l.span ≠ [])
    (hread : ∀ x t, l.span ++ rest = x :: t → Lexeme.read x t = (l, rest)) (file : Text)
    (c : Cursor) :
    first file c (g ++ (l.span ++ rest)) =
      .ok ⟨((⟨g, l⟩ : Piece).step file c).token, Piece.after c ⟨g, l⟩, rest⟩ := by
  obtain ⟨x, t, ht⟩ := List.exists_cons_of_ne_nil (List.append_ne_nil_of_left_ne_nil hne rest)
  have hskip := Cursor.skipGap_of_longest hg c
  rw [ht] at hskip
  rw [ht, first, hskip]
  simp only [hread x t ht]
  rfl

/-- Where a piece is left, its token is read. -/
theorem first_of_piece {g rest : Text} {l : Lexeme} (hg : Longest Gap g (l.span ++ rest))
    (hl : l.Leads rest) (file : Text) (c : Cursor) :
    first file c (g ++ (l.span ++ rest) ++ [' ']) =
      .ok ⟨((⟨g, l⟩ : Piece).step file c).token, Piece.after c ⟨g, l⟩, rest ++ [' ']⟩ := by
  have hlong := hg.gap_append (by simp [hl.span_ne_nil]) [' ']
  rw [List.append_assoc] at hlong
  rw [List.append_assoc, List.append_assoc]
  exact first_of_read hlong hl.span_ne_nil (fun x t => hl.read_eq) file c

end Reading

/-- The steps over a source, from any cursor, are the steps over its pieces, and the cursor ends
behind the last gap and the blank. -/
theorem Decomposes.all_eq {s last : Text} {ps : List Piece} (h : Decomposes s ps last)
    (file : Text) (c : Cursor) :
    Step.all file c (s ++ [' ']) =
      (Piece.steps file c ps, (Piece.finish c ps).advance (last ++ [' '])) := by
  induction h generalizing c with
  | finish hg =>
    rw [Step.all_eq, Reading.first_of_gap hg]
    rfl
  | piece hg hl _ ih =>
    rw [Step.all_eq, Reading.first_of_piece hg hl]
    simp only [ih]
    rfl

/-! ### Offsets -/

theorem Lexeme.kind_ofDigits_ne_newline (digits : Text) : (ofDigits digits).kind ≠ .newline := by
  rw [ofDigits]
  split
  · simp
  · split <;> simp

theorem Lexeme.kind_readString_ne_newline (t : Text) : (readString t).1.kind ≠ .newline := by
  unfold readString
  simp only
  split <;> simp

/-- Only a newline by itself is read as a newline lexeme. -/
theorem Lexeme.span_read_of_newline {x : Char} {t : Text} (h : (read x t).1.kind = .newline) :
    (read x t).1.span = ['\n'] := by
  rw [read] at h ⊢
  cases hk : Kind.ofDelimiter? x with
  | some k =>
    simp only [hk] at h ⊢
    subst h
    unfold Kind.ofDelimiter? at hk
    split at hk <;> cases hk
    rfl
  | none =>
    simp only [hk] at h
    by_cases hs : isSymbolStart x = true
    · simp [hs] at h
    by_cases ho : isOctalDigit x = true
    · simp only [hs, ho, if_true] at h
      exact absurd h (kind_ofDigits_ne_newline _)
    by_cases hq : x = '"'
    · simp only [if_neg hs, if_neg ho, if_pos hq] at h
      exact absurd h (kind_readString_ne_newline t)
    · simp [hs, ho, hq, ofInvalid] at h

theorem Lexeme.Leads.span_of_newline {l : Lexeme} {rest : Text} (h : l.Leads rest)
    (hk : l.kind = .newline) : l.span = ['\n'] := by
  obtain ⟨x, t, ht⟩ := List.exists_cons_of_ne_nil h.span_ne_nil
  have hread := h.read_eq (x := x) (t := t ++ (rest ++ [' '])) (by rw [ht, List.cons_append])
  have hspan := Lexeme.span_read_of_newline (x := x) (t := t ++ (rest ++ [' ']))
  rw [hread] at hspan
  exact hspan hk

/-- Whatever its kind, a lexeme moves the cursor by its length. -/
theorem Cursor.offset_past {l : Lexeme} (h : l.kind = .newline → l.span = ['\n']) (c : Cursor) :
    (c.past l).offset = c.offset + l.span.length := by
  rw [past]
  split
  · next hk =>
    rw [h hk]
    rfl
  · rfl

theorem Lexeme.Leads.offset_after {l : Lexeme} {rest : Text} (h : l.Leads rest) (c : Cursor)
    (g : Text) : (Piece.after c ⟨g, l⟩).offset = c.offset + g.length + l.span.length := by
  rw [Piece.after, Cursor.offset_past h.span_of_newline, Cursor.offset_advance]

namespace Decomposes

variable {s last : Text} {ps : List Piece}

/-- A piece begins behind the pieces before it, and what is left behind it is cut into the pieces
after it. -/
theorem split {before later : List Piece} {p : Piece}
    (h : Decomposes s (before ++ p :: later) last) :
    ∃ rest, s = before.flatMap Piece.text ++ (p.gap ++ (p.lexeme.span ++ rest)) ∧
      Longest Gap p.gap (p.lexeme.span ++ rest) ∧ p.lexeme.Leads rest ∧
      Decomposes rest later last := by
  induction before generalizing s with
  | nil =>
    cases h with
    | piece hg hl h => exact ⟨_, rfl, hg, hl, h⟩
  | cons q before ih =>
    cases h with
    | piece hg hl h =>
      obtain ⟨rest, rfl, hp⟩ := ih h
      refine ⟨rest, ?_, hp⟩
      simp only [List.flatMap_cons, Piece.text, List.append_assoc]

theorem leads (h : Decomposes s ps last) : ∀ p ∈ ps, ∃ rest, p.lexeme.Leads rest := by
  intro p hp
  obtain ⟨before, later, rfl⟩ := List.append_of_mem hp
  obtain ⟨rest, -, -, hl, -⟩ := h.split
  exact ⟨rest, hl⟩

theorem map_offset_steps (h : Decomposes s ps last) (file : Text) (c : Cursor) :
    (Piece.steps file c ps).map (·.token.offset) = Piece.starts c.offset ps := by
  induction h generalizing c with
  | finish _ => rfl
  | @piece g _ _ l _ _ hl _ ih =>
    rw [Piece.steps, List.map_cons, ih, hl.offset_after, Piece.starts, Piece.text,
      List.length_append, Nat.add_assoc]
    exact congrArg (· :: _) (Cursor.offset_advance c g)

theorem le_of_mem_starts {o o' : Nat} (h : o' ∈ Piece.starts o ps) : o ≤ o' := by
  induction ps generalizing o with
  | nil => exact absurd h List.not_mem_nil
  | cons p ps ih =>
    rcases List.mem_cons.1 h with rfl | h
    · exact Nat.le_add_right _ _
    · exact Nat.le_trans (Nat.le_add_right _ _) (ih h)

/-- No two lexemes begin at the same place, because none is empty. -/
theorem pairwise_starts (h : Decomposes s ps last) (o : Nat) :
    (Piece.starts o ps).Pairwise (· < ·) := by
  induction h generalizing o with
  | finish _ => exact .nil
  | @piece g _ _ l _ _ hl _ ih =>
    refine .cons (fun o' ho' => ?_) (ih _)
    have hle := le_of_mem_starts ho'
    have hpos := List.length_pos_iff.2 hl.span_ne_nil
    rw [Piece.text, List.length_append] at hle
    simp only at hle ⊢
    omega

end Decomposes

namespace Piece

variable {file : Text} {c : Cursor} {ps : List Piece}

/-- The offset at which the lexeme of a piece begins, behind other pieces. -/
def lexemeStart (before : List Piece) (p : Piece) : Nat :=
  (before.flatMap text).length + p.gap.length

theorem offset_finish (h : ∀ p ∈ ps, ∃ rest, p.lexeme.Leads rest) (c : Cursor) :
    (finish c ps).offset = c.offset + (ps.flatMap text).length := by
  induction ps generalizing c with
  | nil => rfl
  | cons p ps ih =>
    obtain ⟨⟨rest, hp⟩, hps⟩ := List.forall_mem_cons.1 h
    have hih := ih hps (p.after c)
    rw [hp.offset_after] at hih
    rw [List.flatMap_cons, List.length_append, text, List.length_append]
    simp only [finish, List.foldl_cons] at hih ⊢
    omega

theorem steps_append (file : Text) (c : Cursor) (ps qs : List Piece) :
    steps file c (ps ++ qs) = steps file c ps ++ steps file (finish c ps) qs := by
  induction ps generalizing c with
  | nil => rfl
  | cons p ps ih => exact congrArg (p.step file c :: ·) (ih (p.after c))

/-- A token has the kind and the payload of its lexeme, wherever it stands. -/
theorem map_kind_payload_steps (file : Text) (c : Cursor) (ps : List Piece) :
    (steps file c ps).map (fun s => (s.token.kind, s.token.payload)) =
      ps.map fun p => (p.lexeme.kind, p.lexeme.payload) := by
  induction ps generalizing c with
  | nil => rfl
  | cons p ps ih => exact congrArg ((p.lexeme.kind, p.lexeme.payload) :: ·) (ih (p.after c))

/-- Every step is made over one of the pieces, from behind the pieces before it. -/
theorem mem_steps_iff {st : Step} : st ∈ steps file c ps ↔
    ∃ before p later, ps = before ++ p :: later ∧ st = p.step file (finish c before) := by
  induction ps generalizing c with
  | nil => simp [steps]
  | cons q ps ih =>
    rw [steps, List.mem_cons, ih]
    constructor
    · rintro (rfl | ⟨before, p, later, rfl, rfl⟩)
      · exact ⟨[], q, ps, rfl, rfl⟩
      · exact ⟨q :: before, p, later, rfl, rfl⟩
    · rintro ⟨before, p, later, happ, rfl⟩
      rcases List.cons_eq_append_iff.1 happ with ⟨rfl, hcons⟩ | ⟨before, rfl, rfl⟩
      · cases hcons
        exact Or.inl rfl
      · exact Or.inr ⟨before, p, later, rfl, rfl⟩

end Piece

namespace Decomposes

variable {s last : Text} {before later : List Piece} {p : Piece}

theorem offset_token (h : Decomposes s (before ++ p :: later) last) (file : Text) :
    (p.step file (Piece.finish .start before)).token.offset = Piece.lexemeStart before p := by
  have hbefore := fun q hq => h.leads q (List.mem_append_left _ hq)
  have htoken := Cursor.offset_advance (Piece.finish .start before) p.gap
  rw [Piece.offset_finish hbefore] at htoken
  exact htoken.trans (congrArg (· + _) (Nat.zero_add _))

theorem offset_cursor (h : Decomposes s (before ++ p :: later) last) (file : Text) :
    (p.step file (Piece.finish .start before)).cursor.offset =
      Piece.lexemeStart before p + p.lexeme.span.length := by
  obtain ⟨rest, hp⟩ := h.leads p (by simp)
  rw [← h.offset_token file]
  exact Cursor.offset_past hp.span_of_newline _

end Decomposes

/-! ### Lexers -/

namespace Lexer

variable {source last : Text} {ps : List Piece}

theorem steps_ofSource (h : Decomposes source ps last) (file : Text) :
    (ofSource source file).steps = Piece.steps file .start ps :=
  congrArg Prod.fst (h.all_eq file .start)

theorem drain_ofSource (h : Decomposes source ps last) (file : Text) :
    (ofSource source file).drain =
      ((Piece.steps file .start ps).map Step.token,
        (ofSource source file).moveTo ((Piece.finish .start ps).advance (last ++ [' ']))) := by
  have hall : Step.all file .start (ofSource source file).remaining = _ := h.all_eq file .start
  have hdrain : (ofSource source file).drain =
      ((Step.all file .start (ofSource source file).remaining).1.map Step.token,
        (ofSource source file).moveTo (Step.all file .start (ofSource source file).remaining).2) :=
    rfl
  rw [hdrain, hall]

/-- Every source is cut in exactly one way into longest gaps and the lexemes behind them, and
draining a lexer yields the tokens of these lexemes, one for each and in their order. Each token
has the kind and the payload of its lexeme and begins where this stands in the source. -/
theorem maximal_munch (source file : Text) :
    ∃ ps last, Decomposes source ps last ∧
      (∀ ps' last', Decomposes source ps' last' → ps' = ps ∧ last' = last) ∧
      source = ps.flatMap Piece.text ++ last ∧
      (ofSource source file).drain.1 = (Piece.steps file .start ps).map Step.token ∧
      (ofSource source file).drain.1.map (fun t => (t.kind, t.payload)) =
        ps.map (fun p => (p.lexeme.kind, p.lexeme.payload)) ∧
      (ofSource source file).drain.1.map Token.offset = Piece.starts 0 ps := by
  obtain ⟨ps, last, h⟩ := Decomposes.exists_of_text source
  have hdrain := congrArg Prod.fst (drain_ofSource h file)
  refine ⟨ps, last, h, fun ps' last' h' => h.unique h', h.text_eq, hdrain, ?_, ?_⟩
  · rw [hdrain, List.map_map]
    exact Piece.map_kind_payload_steps file .start ps
  · rw [hdrain, List.map_map]
    exact h.map_offset_steps file .start

end Lexer

end OctalScan
