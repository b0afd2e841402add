import OctalScan.Proofs.Continuation
import OctalScan.Proofs.Literal
import OctalScan.Proofs.Pointing

/-!
# Kinds of faults

A diagnostic finds out what is wrong from the message of the error token, which may hold any text of
the source. It is never misled: the kind of the fault is decided by the character at which the token
begins (`Fault.Begins`), and the diagnostic says just what that kind says
(`Diagnostic.describes_fault`). There are only three forms of error lexemes (`Lexeme.Faulty`), and
their messages can be told apart by the first character and the last ones
(`Lexeme.Faulty.ofMessage_eq`).
-/

namespace OctalScan

/-- `Begins x f` says that an error token which begins with the character `x` is a fault of the kind
`f`. -/
inductive Fault.Begins : Char → Fault → Prop
  | quote : Begins '"' .unclosedString
  | digit {x : Char} (hx : isOctalDigit x = true) : Begins x .oversizedLiteral
  | other {x : Char} (hq : x ≠ '"') (ho : isOctalDigit x = false) (hs : isSymbolStart x = false)
      (hg : startsGap x = false) (hd : ∀ k, (x, k) ∉ delimiters) : Begins x .other

/-- No character begins faults of two kinds. -/
theorem Fault.Begins.unique {x : Char} {f f' : Fault} (h : Begins x f) (h' : Begins x f') :
    f' = f := by
  cases h with
  | quote =>
    cases h' with
    | quote => rfl
    | digit hx => cases hx
    | other hq => exact absurd rfl hq
  | digit hx =>
    cases h' with
    | quote => cases hx
    | digit _ => rfl
    | other _ ho => exact absurd (ho.symm.trans hx) Bool.false_ne_true
  | other hq ho =>
    cases h' with
    | quote => exact absurd rfl hq
    | digit hx => exact absurd (ho.symm.trans hx) Bool.false_ne_true
    | other _ _ _ _ _ => rfl

/-! ### Messages -/

namespace Fault

variable {message : Text}

theorem ofMessage_of_suffix (hq : message.head? ≠ some '"') (hs : Lexeme.oversized <:+ message) :
    ofMessage message = .oversizedLiteral := by
  rw [ofMessage, if_neg hq, if_pos (List.isSuffixOf_iff_suffix.2 hs)]

theorem ofMessage_of_not_suffix (hq : message.head? ≠ some '"')
    (hs : ¬Lexeme.oversized <:+ message) : ofMessage message = .other := by
  rw [ofMessage, if_neg hq, if_neg (mt List.isSuffixOf_iff_suffix.1 hs)]

end Fault

namespace Lexeme

/-! ### Error lexemes -/

/-- `Faulty l rest f` says that the lexeme `l` in front of `rest` is an error, and which fault it
is. -/
inductive Faulty : Lexeme → Text → Fault → Prop
  | unclosedString {body : Text} (hb : '"' ∉ body) :
      Faulty ⟨.error, .text ('"' :: body), '"' :: body⟩ [] .unclosedString
  | oversizedLiteral {x : Char} {w rest : Text} (h : Longest (Run isOctalDigit) (x :: w) rest)
      (hlow : 0o7777 < octalValue (x :: w)) :
      Faulty ⟨.error, .text ('\'' :: (x :: w) ++ "' is an invalid 12 bit integer".toList), x :: w⟩
        rest .oversizedLiteral
  | other {x : Char} (rest : Text) (hd : ∀ k, (x, k) ∉ delimiters) (hs : isSymbolStart x = false)
      (ho : isOctalDigit x = false) (hq : x ≠ '"') :
      Faulty ⟨.error, .text ("Invalid token '".toList ++ [x, '\'']), [x]⟩ rest .other

/-- There are no other error lexemes. -/
theorem Leads.exists_faulty {l : Lexeme} {rest : Text} (h : l.Leads rest) (hk : l.kind = .error) :
    ∃ f, l.Faulty rest f := by
  cases h with
  | @delimiter x k _ hx =>
    subst hk
    simp [delimiters] at hx
  | symbol _ _ => cases hk
  | @literal x w _ h =>
    generalize hl : ofDigits (x :: w) = l at hk
    cases hl ▸ Literal.ofDigits (x :: w) with
    | nineBit _ _ => cases hk
    | twelveBit _ _ _ => cases hk
    | oversized hlow => exact ⟨_, .oversizedLiteral h hlow⟩
  | string _ _ => cases hk
  | openString hb => exact ⟨_, .unclosedString hb⟩
  | invalid rest hd hs ho hq => exact ⟨_, .other rest hd hs ho hq⟩

namespace Faulty

variable {l : Lexeme} {rest : Text} {f : Fault}

/-- The message tells which fault it is about, whatever part of the source it holds. -/
theorem ofMessage_eq (h : l.Faulty rest f) : Fault.ofMessage l.payload.message = f := by
  cases h with
  | unclosedString _ => rfl
  | @oversizedLiteral x w _ _ _ =>
    apply Fault.ofMessage_of_suffix
    · intro hquote
      cases hquote
    · exact ⟨_, message_oversized (x :: w)⟩
  | @other x _ _ _ _ _ =>
    apply Fault.ofMessage_of_not_suffix
    · intro hquote
      cases hquote
    · -- the words end in a letter and the message in a quote
      rintro ⟨u, hu⟩
      have hlast := congrArg List.getLast? hu
      rw [Payload.message, List.getLast?_append, List.getLast?_append] at hlast
      cases hlast

/-- The fault is the one that the first character of the lexeme begins. -/
theorem begins (h : l.Faulty rest f) (hstop : ∀ x ∈ l.span.head?, startsGap x = false) :
    ∃ x, l.span.head? = some x ∧ f.Begins x := by
  cases h with
  | unclosedString _ => exact ⟨_, rfl, .quote⟩
  | oversizedLiteral h _ => exact ⟨_, rfl, .digit (h.1 _ List.mem_cons_self)⟩
  | other _ hd hs ho hq => exact ⟨_, rfl, .other hq ho hs (hstop _ rfl) hd⟩

end Faulty

end Lexeme

/-! ### Tokens and their diagnostics -/

/-- `Describes d source o f` says that the diagnostic `d` is about a fault of the kind `f` at the
offset `o`, and that there is such a fault: a string literal that is never closed is shown to the
end, of a literal all digits are shown, and otherwise the one character is. -/
def Diagnostic.Describes (d : Diagnostic) (source : Text) (o : Nat) : Fault → Prop
  | .unclosedString => '"' ∉ source.drop (o + 1) ∧
      d.message = "unterminated string literal ".toList ++ source.drop o ∧
      d.hint = some "close the string with '\"' before the end of input".toList
  | .oversizedLiteral => 0o7777 < octalValue ((source.drop o).takeWhile isOctalDigit) ∧
      d.message = '\'' :: (source.drop o).takeWhile isOctalDigit ++
        "' is an invalid 12 bit integer".toList ∧
      d.hint = some "octal literals must not exceed 7777".toList
  | .other => ∃ x, source[o]? = some x ∧ d.message = "Invalid token '".toList ++ [x, '\''] ∧
      d.hint = none

namespace Lexer

variable {source file : Text} {t : Token}

/-- Every token comes from the lexeme that begins at its offset. There is no text behind the lexeme
only if the token is the last. -/
theorem exists_lexeme_of_mem_drain (ht : t ∈ (ofSource source file).drain.1) :
    ∃ (l : Lexeme) (rest : Text) (c : Cursor), l.Leads rest ∧ t = l.toToken file c ∧
      source.drop t.offset = l.span ++ rest ∧ (∀ x ∈ l.span.head?, startsGap x = false) ∧
      (rest = [] → (ofSource source file).drain.1.getLast? = some t) := by
  obtain ⟨ps, last, hps⟩ := Decomposes.exists_of_text source
  obtain ⟨st, hst, rfl⟩ := exists_of_mem_drain ht
  rw [steps_ofSource hps] at hst
  obtain ⟨before, p, later, rfl, rfl⟩ := Piece.mem_steps_iff.1 hst
  obtain ⟨rest, hsource, hg, hl, hlater⟩ := hps.split
  refine ⟨p.lexeme, rest, _, hl, rfl, ?_, fun x hx => ?_, ?_⟩
  · rw [hps.offset_token file, Piece.lexemeStart, hsource, ← List.drop_drop, List.drop_left,
      List.drop_left]
  · apply (longest_gap_iff.1 hg).2
    rw [List.head?_append, Option.mem_def.1 hx]
    rfl
  · rintro rfl
    obtain rfl := hlater.eq_nil_of_text_eq_nil
    rw [drain_ofSource hps, Piece.steps_append, List.map_append]
    exact List.getLast?_concat

end Lexer

namespace Diagnostic

variable {source file : Text} {t : Token} {lines : Array Text}

theorem describes_of_faulty {l : Lexeme} {rest : Text} {f : Fault} (h : l.Faulty rest f)
    (hdrop : source.drop t.offset = l.span ++ rest) (hpayload : t.payload = l.payload) :
    (ofToken lines t).Describes source t.offset f := by
  have hmessage : (ofToken lines t).message = f.explain l.payload.message := by
    simp only [ofToken, hpayload, h.ofMessage_eq]
  have hhint : (ofToken lines t).hint = f.hint := by
    simp only [ofToken, hpayload, h.ofMessage_eq]
  cases h with
  | @unclosedString body hb =>
    rw [List.append_nil] at hdrop
    have hrest : source.drop (t.offset + 1) = body := by
      rw [← List.drop_drop, hdrop]
      rfl
    refine ⟨?_, ?_, hhint⟩
    · rwa [hrest]
    · rw [hdrop]
      exact hmessage
  | @oversizedLiteral x w rest h hlow =>
    obtain ⟨hrun, hstop⟩ := Run.longest_iff.1 h
    have hdigits : (source.drop t.offset).takeWhile isOctalDigit = x :: w := by
      rw [hdrop]
      exact hrun.takeWhile_append hstop
    rw [Describes, hdigits]
    exact ⟨hlow, hmessage, hhint⟩
  | @other x rest _ _ _ _ =>
    have hget : source[t.offset]? = some x := by
      rw [← List.head?_drop, hdrop]
      rfl
    exact ⟨x, hget, hmessage, hhint⟩

/-- The character at which an error token begins decides the kind of its fault, and the diagnostic
of the token describes a fault of just that kind, whatever else the source holds. A string literal
that is never closed is the last token. -/
theorem describes_fault (ht : t ∈ (Lexer.ofSource source file).drain.1) (hk : t.kind = .error) :
    (t.column + 4 ≤ Excess.memorySize →
      ofErrorToken (Lexer.ofSource source file).sourceLines t =
        .ok (ofToken (Lexer.ofSource source file).sourceLines t)) ∧
    ∃ x f, source[t.offset]? = some x ∧ f.Begins x ∧ (∀ f', f'.Begins x → f' = f) ∧
      (ofToken (Lexer.ofSource source file).sourceLines t).Describes source t.offset f ∧
      (f = .unclosedString → (Lexer.ofSource source file).drain.1.getLast? = some t) := by
  obtain ⟨l, rest, c, hl, htoken, hdrop, hstop, hlast⟩ := Lexer.exists_lexeme_of_mem_drain ht
  have hkind : l.kind = .error := (congrArg Token.kind htoken).symm.trans hk
  obtain ⟨f, hf⟩ := hl.exists_faulty hkind
  obtain ⟨x, hx, hbegins⟩ := hf.begins hstop
  have hget : source[t.offset]? = some x := by
    rw [← List.head?_drop, hdrop, List.head?_append, hx]
    rfl
  refine ⟨ofErrorToken_eq_ok hk, x, f, hget, hbegins, fun f' => hbegins.unique,
    describes_of_faulty hf hdrop (congrArg Token.payload htoken), ?_⟩
  rintro rfl
  cases hf
  exact hlast rfl

/-- The words at the end of a string literal do not make it an oversized literal. -/
theorem describes_fault_of_words :
    let source : Text := "\"1' is an invalid 12 bit integer".toList
    let l := Lexer.ofSource source []
    ∃ t ∈ l.drain.1, t.kind = .error ∧
      (ofToken l.sourceLines t).Describes source t.offset .unclosedString := by
  intro source l
  have ht : l.drain.1[0]? = _ := l.getElem?_drain 0
  have hmem := List.mem_of_getElem? ht
  obtain ⟨-, x, f, hx, -, hunique, hdescribes, -⟩ := describes_fault hmem rfl
  cases hx
  obtain rfl := hunique _ .quote
  exact ⟨_, hmem, rfl, hdescribes⟩

end Diagnostic

end OctalScan
