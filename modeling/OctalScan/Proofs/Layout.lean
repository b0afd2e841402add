import OctalScan.Proofs.Front
import OctalScan.Proofs.Translation

/-!
# Layout

The tokens of a source depend on its words alone: spaces, tabs and comments may be put between them
in any way, as long as there are some (`Lexer.drain_laidOut`). Every lexeme leads whatever gap is
put behind it, because no symbol and no literal goes on with the first character of a gap
(`Decomposes.exists_laidOut`). Only a string that is never closed must stay at the end, as it would
swallow the gap.
-/

namespace OctalScan

/-! ### Gaps to put between words -/

/-- A gap in which every comment is closed by a newline: spaces, tabs and complete comments. -/
inductive ClosedGap : Text → Prop
  | nil : ClosedGap []
  | blank {x : Char} {g : Text} (hx : x = ' ' ∨ x = '\t') (h : ClosedGap g) : ClosedGap (x :: g)
  | comment {body g : Text} (hb : '\n' ∉ body) (h : ClosedGap g) :
      ClosedGap (';' :: (body ++ '\n' :: g))

namespace ClosedGap

variable {g : Text}

/-- Such a gap may stand in front of any text. -/
theorem gap (h : ClosedGap g) (rest : Text) : Gap g rest := by
  induction h with
  | nil => exact .nil rest
  | blank hx _ ih => exact .blank hx ih
  | comment hb _ ih => exact .comment hb ih

theorem startsGap_of_mem_head? (h : ClosedGap g) : ∀ x ∈ g.head?, startsGap x = true := by
  intro x hx
  cases h with
  | nil => cases hx
  | blank hy _ =>
    cases hx
    simpa [startsGap] using Or.inl hy
  | comment _ _ =>
    cases hx
    rfl

end ClosedGap

theorem not_isSymbolChar_of_startsGap {x : Char} (h : startsGap x = true) :
    isSymbolChar x = false := by
  simp only [startsGap, Bool.or_eq_true, decide_eq_true_eq] at h
  rcases h with (rfl | rfl) | rfl <;> decide

namespace Text

/-- Words with gaps around them: `first` in front of all words, and one of `gaps` behind each. -/
def laidOut (first : Text) (words gaps : List Text) : Text :=
  first ++ (List.zipWith (· ++ ·) words gaps).flatten

@[simp] theorem laidOut_nil (first : Text) (gaps : List Text) : laidOut first [] gaps = first := by
  simp [laidOut]

theorem laidOut_cons (first w g : Text) (words gaps : List Text) :
    laidOut first (w :: words) (g :: gaps) = first ++ (w ++ laidOut g words gaps) := by
  simp [laidOut]

/-- One space between every two of a number of words. -/
def singleSpaces : Nat → List Text
  | 0 => []
  | n + 1 => List.replicate n [' '] ++ [[]]

theorem laidOut_singleSpaces (words : List Text) :
    laidOut [] words (singleSpaces words.length) = List.intercalate [' '] words := by
  induction words with
  | nil => rfl
  | cons w words ih =>
    cases words with
    | nil => simp [singleSpaces, laidOut, List.intercalate]
    | cons v words =>
      have hgaps : singleSpaces (w :: v :: words).length =
          [' '] :: singleSpaces (v :: words).length := rfl
      have hfirst : laidOut [' '] (v :: words) (singleSpaces (v :: words).length) =
          ' ' :: laidOut [] (v :: words) (singleSpaces (v :: words).length) := rfl
      rw [hgaps, laidOut_cons, hfirst, ih]
      simp [List.intercalate]

theorem length_singleSpaces (n : Nat) : (singleSpaces n).length = n := by
  cases n with
  | zero => rfl
  | succ n => simp [singleSpaces]

theorem closedGap_of_mem_singleSpaces {n : Nat} {g : Text} (hg : g ∈ singleSpaces n) :
    ClosedGap g := by
  cases n with
  | zero => cases hg
  | succ n =>
    rcases List.mem_append.1 hg with hg | hg
    · rw [List.eq_of_mem_replicate hg]
      exact .blank (.inl rfl) .nil
    · rw [List.mem_singleton.1 hg]
      exact .nil

theorem ne_nil_of_mem_dropLast_singleSpaces {n : Nat} {g : Text}
    (hg : g ∈ (singleSpaces n).dropLast) : g ≠ [] := by
  cases n with
  | zero => cases hg
  | succ n =>
    rw [singleSpaces, List.dropLast_concat] at hg
    rw [List.eq_of_mem_replicate hg]
    exact List.cons_ne_nil _ _

theorem getLast?_singleSpaces {n : Nat} (hn : n ≠ 0) : (singleSpaces n).getLast? = some [] := by
  obtain ⟨n, rfl⟩ := Nat.exists_eq_succ_of_ne_zero hn
  exact List.getLast?_concat

end Text

/-! ### Words of a source -/

def Lexeme.content (l : Lexeme) : Kind × Payload := (l.kind, l.payload)

namespace Lexer

/-- The part of the buffer that a token takes, from where it begins to the cursor behind it. -/
def spanOf (l : Lexer) (s : Step) : Text :=
  (l.buffer.drop s.token.offset).take (s.cursor.offset - s.token.offset)

/-- The words of a source: what its tokens take of it. -/
def spans (l : Lexer) : List Text := l.steps.map l.spanOf

variable {source last file : Text} {ps : List Piece}

theorem content_drain (h : Decomposes source ps last) (file : Text) :
    (ofSource source file).drain.1.map Token.content = (ps.map Piece.lexeme).map Lexeme.content := by
  rw [drain_ofSource h, List.map_map, List.map_map]
  exact Piece.map_kind_payload_steps file .start ps

/-- A token takes the span of its lexeme. -/
theorem spanOf_step {before later : List Piece} {p : Piece}
    (h : Decomposes source (before ++ p :: later) last) (file : Text) :
    (ofSource source file).spanOf (p.step file (Piece.finish .start before)) = p.lexeme.span := by
  have hbuffer : (ofSource source file).buffer = before.flatMap Piece.text ++ p.gap ++
      (p.lexeme.span ++ (later.flatMap Piece.text ++ last ++ [' '])) := by
    have htext : (ofSource source file).buffer = source ++ [' '] := rfl
    rw [htext, h.text_eq]
    simp [Piece.text]
  have hstart : Piece.lexemeStart before p = (before.flatMap Piece.text ++ p.gap).length := by
    rw [Piece.lexemeStart, List.length_append]
  rw [spanOf, h.offset_cursor, h.offset_token, Nat.add_sub_cancel_left, hbuffer, hstart,
    List.drop_left, List.take_left]

theorem spans_ofSource (h : Decomposes source ps last) (file : Text) :
    (ofSource source file).spans = (ps.map Piece.lexeme).map Lexeme.span := by
  -- the induction is on the pieces that are left, as the cursor depends on those before them
  have hsteps (before later : List Piece) (happ : ps = before ++ later) :
      (Piece.steps file (Piece.finish .start before) later).map (ofSource source file).spanOf =
        (later.map Piece.lexeme).map Lexeme.span := by
    induction later generalizing before with
    | nil => rfl
    | cons p later ih =>
      have hfinish : p.after (Piece.finish .start before) = Piece.finish .start (before ++ [p]) := by
        simp [Piece.finish]
      have hih := ih (before ++ [p]) (by simp [happ])
      rw [Piece.steps, List.map_cons, hfinish, hih, spanOf_step (happ ▸ h)]
      rfl
  rw [spans, steps_ofSource h]
  exact hsteps [] ps rfl

end Lexer

/-! ### Other gaps -/

/-- `Fits ts first gaps` says that the words of the tokens `ts` may be laid out with the gaps `first`
and `gaps`: all gaps are complete, those between two words are not empty, and nothing comes behind a
string that is never closed. -/
structure Fits (ts : List Token) (first : Text) (gaps : List Text) : Prop where
  closed_first : ClosedGap first
  closed : ∀ g ∈ gaps, ClosedGap g
  length : gaps.length = ts.length
  apart : ∀ g ∈ gaps.dropLast, g ≠ []
  last : ∀ t ∈ ts.getLast?, t.isUnclosed = true → gaps.getLast? = some []

namespace Fits

variable {t : Token} {ts : List Token} {first g : Text} {gaps : List Text}

/-- The gap behind the first word is the one in front of the others. -/
theorem tail (h : Fits (t :: ts) first (g :: gaps)) : Fits ts g gaps where
  closed_first := h.closed g List.mem_cons_self
  closed g' hg := h.closed g' (List.mem_cons_of_mem _ hg)
  length := Nat.succ.inj h.length
  apart g' hg := by
    refine h.apart g' ?_
    rw [List.dropLast_cons_of_ne_nil (by rintro rfl; cases hg)]
    exact List.mem_cons_of_mem _ hg
  last t' ht ho := by
    have hts : (t :: ts).getLast? = some t' := by
      rw [List.getLast?_cons, Option.mem_def.1 ht]
      rfl
    have hgaps := h.last t' hts ho
    cases gaps with
    | nil =>
      rw [List.length_eq_zero_iff.1 (Nat.succ.inj h.length).symm] at ht
      cases ht
    | cons g' gaps => exact hgaps

/-- Only behind the last word a gap may be empty. -/
theorem eq_nil_of_gap_eq_nil (h : Fits (t :: ts) first ([] :: gaps)) : ts = [] := by
  cases gaps with
  | nil => exact List.length_eq_zero_iff.1 (Nat.succ.inj h.length).symm
  | cons g gaps => exact absurd rfl (h.apart [] (by simp))

/-- What is laid out behind a word begins with a gap, if there is anything. -/
theorem startsGap_of_laidOut (h : Fits (t :: ts) first (g :: gaps)) {words : List Text}
    (hwords : words.length = ts.length) :
    ∀ x ∈ (Text.laidOut g words gaps).head?, startsGap x = true := by
  intro x hx
  cases g with
  | nil =>
    rw [h.eq_nil_of_gap_eq_nil] at hwords
    rw [List.length_eq_zero_iff.1 hwords] at hx
    cases hx
  | cons y g => exact h.tail.closed_first.startsGap_of_mem_head? x hx

/-- Behind a string that is never closed nothing is laid out, if it is the last. -/
theorem laidOut_eq_nil (h : Fits [t] first (g :: gaps)) (ho : t.isUnclosed = true) :
    Text.laidOut g [] gaps = [] := by
  have hgaps := List.length_eq_zero_iff.1 (Nat.succ.inj h.length)
  have hlast := h.last t rfl ho
  rw [hgaps] at hlast
  rw [Text.laidOut_nil]
  exact Option.some.inj hlast

/-- Single spaces fit all tokens. -/
theorem singleSpaces (ts : List Token) : Fits ts [] (Text.singleSpaces ts.length) where
  closed_first := .nil
  closed _ hg := Text.closedGap_of_mem_singleSpaces hg
  length := Text.length_singleSpaces _
  apart _ hg := Text.ne_nil_of_mem_dropLast_singleSpaces hg
  last t ht _ := Text.getLast?_singleSpaces (by
    rw [Ne, List.length_eq_zero_iff]
    rintro rfl
    cases ht)

end Fits

theorem Token.isUnclosed_of_content {t : Token} {l : Lexeme} (h : t.content = l.content) :
    t.isUnclosed = l.isUnclosed := by
  obtain ⟨hkind, hpayload⟩ := Prod.mk.inj h
  rw [isUnclosed, Lexeme.isUnclosed, isError, hkind, hpayload]

/-- Laid out with other gaps, a source has the same lexemes. -/
theorem Decomposes.exists_laidOut {s last : Text} {ps : List Piece} (h : Decomposes s ps last)
    {ts : List Token} (hts : ts.map Token.content = (ps.map Piece.lexeme).map Lexeme.content)
    {first : Text} {gaps : List Text} (hfits : Fits ts first gaps) :
    ∃ ps' last', Decomposes (Text.laidOut first ((ps.map Piece.lexeme).map Lexeme.span) gaps)
      ps' last' ∧ ps'.map Piece.lexeme = ps.map Piece.lexeme := by
  induction h generalizing ts first gaps with
  | finish _ =>
    refine ⟨[], first, ?_, rfl⟩
    rw [List.map_nil, List.map_nil, Text.laidOut_nil]
    exact .finish ((hfits.closed_first.gap []).longest (by simp))
  | @piece _ rest last l ps hg hl h ih =>
    obtain ⟨t, ts, rfl, hcontent, hts⟩ := List.map_eq_cons_iff.1 hts
    obtain ⟨g, gaps, rfl⟩ := List.exists_cons_of_length_eq_add_one hfits.length
    obtain ⟨ps', last', h', hps'⟩ := ih hts hfits.tail
    have hlength : ((ps.map Piece.lexeme).map Lexeme.span).length = ts.length := by
      have := congrArg List.length hts
      simp only [List.length_map] at this ⊢
      exact this.symm
    have hl' : l.Leads (Text.laidOut g ((ps.map Piece.lexeme).map Lexeme.span) gaps) := by
      refine hl.of_head (fun ho => ?_) fun x hx hsymbol => ?_
      · -- the literal takes all the text, so it is the last lexeme
        cases ps with
        | nil =>
          obtain rfl := List.map_eq_nil_iff.1 hts
          exact hfits.laidOut_eq_nil ((Token.isUnclosed_of_content hcontent).trans ho)
        | cons q qs => exact absurd (hl.eq_nil_of_unclosed ho) h.begins.ne_nil_of_cons
      · have hgap := not_isSymbolChar_of_startsGap (hfits.startsGap_of_laidOut hlength x hx)
        exact absurd (hgap.symm.trans hsymbol) Bool.false_ne_true
    have hstop : ∀ x ∈ (l.span ++
        Text.laidOut g ((ps.map Piece.lexeme).map Lexeme.span) gaps).head?, startsGap x = false := by
      obtain ⟨y, w, hw⟩ := List.exists_cons_of_ne_nil hl.span_ne_nil
      have hstop := (longest_gap_iff.1 hg).2
      rw [hw] at hstop ⊢
      exact hstop
    refine ⟨⟨first, l⟩ :: ps', last', ?_, congrArg (l :: ·) hps'⟩
    rw [List.map_cons, List.map_cons, Text.laidOut_cons]
    exact .piece ((hfits.closed_first.gap _).longest hstop) hl' h'

/-! ### Lexers -/

namespace Lexer

variable {source file first : Text} {gaps : List Text}

/-- The words of a source with single spaces between them. -/
def normalForm (l : Lexer) : Text := List.intercalate [' '] l.spans

theorem content_laidOut (h : Fits (ofSource source file).drain.1 first gaps) :
    (ofSource (Text.laidOut first (ofSource source file).spans gaps) file).drain.1.map
        Token.content = (ofSource source file).drain.1.map Token.content ∧
      (ofSource (Text.laidOut first (ofSource source file).spans gaps) file).spans =
        (ofSource source file).spans := by
  obtain ⟨ps, last, hps⟩ := Decomposes.exists_of_text source
  obtain ⟨ps', last', hps', hlexemes⟩ := hps.exists_laidOut (content_drain hps file) h
  rw [spans_ofSource hps, content_drain hps, content_drain hps', spans_ofSource hps', hlexemes]
  exact ⟨rfl, rfl⟩

theorem normalForm_eq (l : Lexer) :
    l.normalForm = Text.laidOut [] l.spans (Text.singleSpaces l.drain.1.length) := by
  have hlength : l.drain.1.length = l.spans.length := by
    rw [drain_fst, spans, List.length_map, List.length_map]
  rw [hlength, Text.laidOut_singleSpaces, normalForm]

/-- The words of a source may be laid out with any gaps that fit, and the tokens stay the same but
for their places. In particular single spaces between the words lose nothing: a source and its
normal form have the same tokens, and all layouts of a source have the same words and so the same
normal form. -/
theorem drain_laidOut (source file : Text) :
    (∀ first gaps, Fits (ofSource source file).drain.1 first gaps →
      (ofSource (Text.laidOut first (ofSource source file).spans gaps) file).drain.1.map
          Token.content = (ofSource source file).drain.1.map Token.content ∧
        (ofSource (Text.laidOut first (ofSource source file).spans gaps) file).spans =
          (ofSource source file).spans) ∧
    (ofSource (ofSource source file).normalForm file).drain.1.map Token.content =
      (ofSource source file).drain.1.map Token.content ∧
    (ofSource (ofSource source file).normalForm file).spans = (ofSource source file).spans := by
  refine ⟨fun first gaps h => content_laidOut h, ?_⟩
  rw [normalForm_eq]
  exact content_laidOut (.singleSpaces _)

/-- A comment with a quote may be put between a literal and a bad character, and the string that is
never closed stays at the end. -/
theorem drain_laidOut_comment :
    let l := ofSource ['7', '#', '"'] []
    let gaps : List Text := [[';', '"', '\n'], [' '], []]
    Fits l.drain.1 ['\t'] gaps ∧
      Text.laidOut ['\t'] l.spans gaps = ['\t', '7', ';', '"', '\n', '#', ' ', '"'] ∧
      (ofSource (Text.laidOut ['\t'] l.spans gaps) []).drain.1.map Token.content =
        l.drain.1.map Token.content := by
  intro l gaps
  have hsteps : l.steps = [_, _, _] :=
    (steps_of_next_some rfl).1.trans (congrArg (_ :: ·) ((steps_of_next_some rfl).1.trans
      (congrArg (_ :: ·) ((steps_of_next_some rfl).1.trans
        (congrArg (_ :: ·) (steps_of_next_none rfl).1)))))
  have hfits : Fits l.drain.1 ['\t'] gaps := {
    closed_first := .blank (.inr rfl) .nil
    closed := by
      simp only [gaps, List.forall_mem_cons]
      exact ⟨.comment (by decide : '\n' ∉ ['"']) .nil, .blank (.inl rfl) .nil, .nil, by simp⟩
    length := by
      rw [drain_fst, hsteps]
      rfl
    apart := by decide
    last := fun _ _ _ => rfl }
  refine ⟨hfits, ?_, ((drain_laidOut _ _).1 _ _ hfits).1⟩
  rw [spans, hsteps]
  decide

end Lexer

end OctalScan
