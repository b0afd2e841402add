import OctalScan.Proofs.Document
import OctalScan.Proofs.Literal
import OctalScan.Proofs.Rows

/-!
# Columns of a row

A row of a text listing is read from the left. Position and kind are words without blanks, so each
ends at the first blank, however wide its column is, and what is left of the row is the payload
(`Token.listed_eq_tail`). The only payload that can end in a blank is a string literal that is never
closed, so of the others nothing is lost at the end of a row, and a row determines its token but for
the offset and the file (`Token.listed_determines`).
-/

namespace OctalScan

/-! ### Ends of texts -/

namespace Text

theorem getLast?_append_of_ne_nil (a : Text) {b : Text} (hb : b ≠ []) :
    (a ++ b).getLast? = b.getLast? := by
  rw [List.getLast?_append, List.getLast?_eq_some_getLast hb, Option.some_or]

theorem isBlank_of_isPlain {c : Char} (h : isPlain c = true) (hc : c ≠ ' ') :
    isBlank c = false := by
  have hspace : c.toNat ≠ 0x20 := by
    intro h
    apply hc
    rw [← Char.ofNat_toNat c, h]
  simp only [isPlain, Bool.and_eq_true, decide_eq_true_eq] at h
  simp only [isBlank, Bool.or_eq_false_iff, Bool.and_eq_false_iff, decide_eq_false_iff_not,
    beq_eq_false_iff_ne]
  omega

theorem isBlank_of_isSymbolChar {c : Char} (h : isSymbolChar c = true) : isBlank c = false := by
  refine isBlank_of_isPlain (isPlain_of_isSymbolChar h) ?_
  rintro rfl
  exact absurd h (by decide)

theorem ne_space_of_mem_ofInt {n : Int} {c : Char} (hc : c ∈ ofInt n) : c ≠ ' ' := by
  rintro rfl
  cases n with
  | ofNat n => exact absurd (isDigit_of_mem_ofNat hc) (by decide)
  | negSucc n =>
    rcases List.mem_cons.1 hc with hc | hc
    · exact absurd hc (by decide)
    · exact absurd (isDigit_of_mem_ofNat hc) (by decide)

end Text

namespace Kind

theorem isSymbolChar_of_mem_name (k : Kind) : ∀ c ∈ k.name, isSymbolChar c = true := by
  have hall : k.name.all isSymbolChar = true := by cases k <;> rfl
  exact List.all_eq_true.1 hall

theorem name_ne_nil (k : Kind) : k.name ≠ [] := by cases k <;> decide

end Kind

theorem Word.isDigit_of_mem_octal (w : Word) {c : Char} (hc : c ∈ w.octal) : c.isDigit = true := by
  rw [octal, List.leftpad] at hc
  rcases List.mem_append.1 hc with hc | hc
  · rw [List.eq_of_mem_replicate hc]
    rfl
  · exact Nat.isDigit_of_mem_toDigits (by decide) (by decide) hc

namespace Token

variable {t t' : Token}

/-! ### The row from the left -/

/-- What stands in a row behind the kind: nothing without a payload. -/
def tail (t : Token) : Text :=
  if t.payloadText = [] then []
  else List.replicate (20 - t.kind.name.length) ' ' ++ ' ' :: t.payloadText

/-- No payload ends in a blank, unless it is a string literal that is never closed. -/
theorem isBlank_of_mem_getLast? (h : t.kind.Carries t.payload) (hopen : t.isUnclosed = false) :
    ∀ c ∈ t.payloadText.getLast?, Text.isBlank c = false := by
  intro c hc
  obtain ⟨kind, payload, offset, line, column, file⟩ := t
  cases h with
  | delimiter _ => cases hc
  | @symbol w hw =>
    have hmem : c ∈ w := List.mem_of_getLast? hc
    exact Text.isBlank_of_isSymbolChar (hw c hmem)
  | @nineBit w _ | @twelveBit w _ =>
    have hdigit := w.isDigit_of_mem_octal (List.mem_of_getLast? hc)
    exact Text.isBlank_of_isSymbolChar (by simp [isSymbolChar, Char.isAlphanum, hdigit])
  | @oversized digits _ =>
    have hlast : ('\'' :: digits ++ "' ".toList ++ Lexeme.oversized).getLast? = some 'r' :=
      Text.getLast?_append_of_ne_nil _ (by decide)
    cases hlast.symm.trans hc
    rfl
  | string body =>
    have hlast : (Text.escaped body).getLast? = some '"' := List.getLast?_concat
    cases hlast.symm.trans hc
    rfl
  | openString body => simp [isUnclosed, isError, Payload.message] at hopen
  | @invalid x _ =>
    have hlast : ("Invalid token '".toList ++ [x, '\'']).getLast? = some '\'' :=
      Text.getLast?_append_of_ne_nil _ (List.cons_ne_nil x _)
    cases hlast.symm.trans hc
    rfl

/-- Behind the position and the kind, which do not end in blanks, a row ends with the payload. -/
theorem listed_eq_tail (h : t.kind.Carries t.payload) (hopen : t.isUnclosed = false) :
    t.listed = widen 8 t.position ++ ' ' :: (t.kind.name ++ t.tail) := by
  have hrow : t.listed = Text.trimEnd ((widen 8 t.position ++ ' ' :: t.kind.name) ++
      (List.replicate (20 - t.kind.name.length) ' ' ++ [' '] ++ t.payloadText)) := by
    simp [listed, widen, List.rightpad]
  rw [hrow, Text.trimEnd, tail]
  by_cases hp : t.payloadText = []
  · have hblanks : ∀ c ∈ List.replicate (20 - t.kind.name.length) ' ' ++ [' '],
        Text.isBlank c = true := by
      intro c hc
      rw [← List.replicate_succ'] at hc
      rw [List.eq_of_mem_replicate hc]
      rfl
    have hname : ∀ c ∈ (widen 8 t.position ++ ' ' :: t.kind.name).getLast?,
        Text.isBlank c = false := by
      intro c hc
      rw [List.append_cons, Text.getLast?_append_of_ne_nil _ t.kind.name_ne_nil] at hc
      exact Text.isBlank_of_isSymbolChar
        (t.kind.isSymbolChar_of_mem_name c (List.mem_of_getLast? hc))
    rw [hp, List.append_nil, Text.trimEndBy_append_of_all hblanks, Text.trimEndBy_eq_self hname,
      if_pos rfl, List.append_nil]
  · have hlast : ∀ c ∈ ((widen 8 t.position ++ ' ' :: t.kind.name) ++
        (List.replicate (20 - t.kind.name.length) ' ' ++ [' '] ++ t.payloadText)).getLast?,
        Text.isBlank c = false := by
      intro c hc
      rw [← List.append_assoc, Text.getLast?_append_of_ne_nil _ hp] at hc
      exact isBlank_of_mem_getLast? h hopen c hc
    rw [Text.trimEndBy_eq_self hlast, if_neg hp]
    simp

/-! ### Words of a row -/

/-- A text in which a word ends. -/
def WordStops (x : Text) : Prop := ∀ c ∈ x.head?, (c != ' ') = false

theorem wordStops_blanks (n : Nat) (x : Text) : WordStops (List.replicate n ' ' ++ ' ' :: x) := by
  intro c hc
  cases n <;> cases hc <;> rfl

theorem wordStops_tail (t : Token) : WordStops t.tail := by
  rw [tail]
  split
  · rintro _ ⟨⟩
  · exact wordStops_blanks _ _

/-- A position holds no blank, so it ends where its column is filled up. -/
theorem position_append_inj {x y : Text}
    (h : widen 8 t.position ++ ' ' :: x = widen 8 t'.position ++ ' ' :: y) :
    t.position = t'.position ∧ x = y := by
  have hword (u : Token) (z : Text) : Run (· != ' ') u.position z := by
    intro c hc
    rw [position] at hc
    rcases List.mem_append.1 hc with hc | hc
    · exact bne_iff_ne.2 (Text.ne_space_of_mem_ofInt hc)
    · rcases List.mem_cons.1 hc with rfl | hc
      · rfl
      · exact bne_iff_ne.2 (Text.ne_space_of_mem_ofInt hc)
  rw [widen, widen, List.rightpad, List.rightpad, List.append_assoc, List.append_assoc] at h
  obtain ⟨hposition, hrest⟩ := (hword t _).append_inj (wordStops_blanks _ x) (hword t' _)
    (wordStops_blanks _ y) h
  rw [hposition] at hrest
  exact ⟨hposition, (List.cons.inj (List.append_cancel_left hrest)).2⟩

/-- The name of a kind is one word. -/
theorem name_append_inj {k k' : Kind} {x y : Text} (hx : WordStops x) (hy : WordStops y)
    (h : k.name ++ x = k'.name ++ y) : k = k' ∧ x = y := by
  have hword (k : Kind) (z : Text) : Run (· != ' ') k.name z := by
    intro c hc
    refine bne_iff_ne.2 ?_
    rintro rfl
    exact absurd (k.isSymbolChar_of_mem_name _ hc) (by decide)
  obtain ⟨hname, hrest⟩ := (hword k x).append_inj hx (hword k' y) hy h
  exact ⟨Kind.name_injective hname, hrest⟩

theorem payloadText_eq_of_tail_eq (hkind : t.kind = t'.kind) (h : t.tail = t'.tail) :
    t.payloadText = t'.payloadText := by
  rw [tail, tail, hkind] at h
  split at h
  · next hp =>
    split at h
    · next hp' => rw [hp, hp']
    · exact absurd h.symm (List.append_ne_nil_of_right_ne_nil _ (List.cons_ne_nil _ _))
  · split at h
    · exact absurd h (List.append_ne_nil_of_right_ne_nil _ (List.cons_ne_nil _ _))
    · exact (List.cons.inj (List.append_cancel_left h)).2

/-- Line and column are separated by a colon, which is part of neither. -/
theorem line_column_of_position (h : t.position = t'.position) :
    t.line = t'.line ∧ t.column = t'.column := by
  obtain ⟨hline, hcolumn⟩ := Text.ofInt_append_inj (.cons rfl _) (.cons rfl _) h
  have hend : Text.Stops [] := by rintro _ ⟨⟩
  have hcolumn' := (List.cons.inj hcolumn).2
  rw [← List.append_nil (Text.ofInt t.column), ← List.append_nil (Text.ofInt t'.column)] at hcolumn'
  exact ⟨hline, (Text.ofInt_append_inj hend hend hcolumn').1⟩

/-- Tokens of one kind have payloads of one form, and each form is shown in its own way. -/
theorem payload_eq_of_payloadText_eq (h : t.kind.Carries t.payload)
    (h' : t'.kind.Carries t'.payload) (hkind : t.kind = t'.kind)
    (htext : t.payloadText = t'.payloadText) : t.payload = t'.payload := by
  have hform : t.payload.form = t'.payload.form := by rw [h.form_eq, h'.form_eq, hkind]
  unfold payloadText at htext
  match hp : t.payload, hp' : t'.payload with
  | .empty, .empty => rfl
  | .text s, .text s' =>
    rw [hp, hp', hkind] at htext
    by_cases hstring : t'.kind = .string
    · rw [hstring] at htext
      have hescaped : Text.escaped s ++ [] = Text.escaped s' ++ [] := congrArg (· ++ []) htext
      rw [(Text.escaped_append_inj hescaped).1]
    · have htext' : s = s' := by
        simpa using htext
      rw [htext']
  | .word w, .word w' =>
    rw [hp, hp'] at htext hform
    have hvalue : w.value = w'.value := by
      rw [← w.octalValue_octal, ← w'.octalValue_octal]
      exact congrArg octalValue htext
    exact congrArg _ (Word.ext (Payload.Form.word.inj hform) hvalue)
  | .empty, .text _ | .empty, .word _ | .text _, .empty | .text _, .word _ | .word _, .empty
  | .word _, .text _ =>
    rw [hp, hp'] at hform
    cases hform

/-! ### Rows -/

/-- If two tokens, whatever lexers have read them, have the same row, they agree in kind, payload,
line and column, unless one of them is a string literal that is never closed. -/
theorem listed_determines (h : ∃ l : Lexer, l.peek = some t) (h' : ∃ l : Lexer, l.peek = some t')
    (hopen : t.isUnclosed = false) (hopen' : t'.isUnclosed = false) (hrow : t.listed = t'.listed) :
    t.kind = t'.kind ∧ t.payload = t'.payload ∧ t.line = t'.line ∧ t.column = t'.column := by
  obtain ⟨l, hl⟩ := h
  obtain ⟨l', hl'⟩ := h'
  have hcarries := Lexer.carries_of_peek hl
  have hcarries' := Lexer.carries_of_peek hl'
  rw [listed_eq_tail hcarries hopen, listed_eq_tail hcarries' hopen'] at hrow
  obtain ⟨hposition, hrest⟩ := position_append_inj hrow
  obtain ⟨hkind, htail⟩ := name_append_inj t.wordStops_tail t'.wordStops_tail hrest
  have htext := payloadText_eq_of_tail_eq hkind htail
  exact ⟨hkind, payload_eq_of_payloadText_eq hcarries hcarries' hkind htext,
    line_column_of_position hposition⟩

/-- The same blank string behind two different comments, in two files. -/
theorem listed_determines_behind_comments :
    let t : Token := ⟨.string, .text [' '], 2, 2, 0, ['a']⟩
    let t' : Token := ⟨.string, .text [' '], 3, 2, 0, ['b']⟩
    (∃ l : Lexer, l.peek = some t) ∧ (∃ l : Lexer, l.peek = some t') ∧
      t.isUnclosed = false ∧ t'.isUnclosed = false ∧ t.listed = t'.listed ∧
      t.kind = t'.kind ∧ t.payload = t'.payload ∧ t.line = t'.line ∧ t.column = t'.column := by
  intro t t'
  have h : ∃ l : Lexer, l.peek = some t := ⟨.ofSource [';', '\n', '"', ' ', '"'] ['a'], rfl⟩
  have h' : ∃ l : Lexer, l.peek = some t' := ⟨.ofSource [';', ';', '\n', '"', ' ', '"'] ['b'], rfl⟩
  exact ⟨h, h', rfl, rfl, rfl, listed_determines h h' rfl rfl rfl⟩

end Token

end OctalScan
