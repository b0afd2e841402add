import OctalScan.Proofs.Draining

/-!
# What tokens carry

The kind of a token says what it carries. `Kind.Carries` lists the pairs of kind and payload that a
lexer makes, and says of each payload which characters it consists of. Whatever text a lexer stands
in front of, its next token is one of them (`Lexer.carries_of_peek`). Only the text of a string
literal, closed or not, may hold any character.
-/

namespace OctalScan

/-- `Carries k p` says that tokens of kind `k` may carry the payload `p`. -/
inductive Kind.Carries : Kind → Payload → Prop
  | delimiter {x : Char} {k : Kind} (hx : (x, k) ∈ delimiters) : Carries k .empty
  | symbol {w : Text} (hw : ∀ x ∈ w, isSymbolChar x = true) : Carries .symbol (.text w)
  | nineBit {w : Word} (hw : w.width = .nine) : Carries .nineBit (.word w)
  | twelveBit {w : Word} (hw : w.width = .twelve) : Carries .twelveBit (.word w)
  | oversized {digits : Text} (hd : ∀ x ∈ digits, isOctalDigit x = true) :
      Carries .error (.text ('\'' :: digits ++ "' ".toList ++ Lexeme.oversized))
  | string (body : Text) : Carries .string (.text body)
  | openString (body : Text) : Carries .error (.text ('"' :: body))
  | invalid {x : Char} (hx : ∀ k, (x, k) ∉ delimiters) :
      Carries .error (.text ("Invalid token '".toList ++ [x, '\'']))

/-- The forms of a payload. -/
inductive Payload.Form where
  | empty
  | text
  | word (width : Width)
  deriving DecidableEq, Repr

def Payload.form : Payload → Form
  | empty => .empty
  | text _ => .text
  | word w => .word w.width

/-- The form of the payloads of a kind. -/
def Kind.payloadForm : Kind → Payload.Form
  | symbol | string | error => .text
  | nineBit => .word .nine
  | twelveBit => .word .twelve
  | _ => .empty

theorem Kind.Carries.form_eq {k : Kind} {p : Payload} (h : k.Carries p) :
    p.form = k.payloadForm := by
  cases h with
  | @delimiter x _ hx =>
    rw [mem_delimiters_iff] at hx
    unfold ofDelimiter? at hx
    split at hx <;> cases hx <;> rfl
  | nineBit hw => exact congrArg Payload.Form.word hw
  | twelveBit hw => exact congrArg Payload.Form.word hw
  | symbol _ | oversized _ | string _ | openString _ | invalid _ => rfl

namespace Lexeme

/-! ### Lexemes -/

theorem carries_ofDigits {digits : Text} (hd : ∀ x ∈ digits, isOctalDigit x = true) :
    (ofDigits digits).kind.Carries (ofDigits digits).payload := by
  rw [ofDigits]
  split
  · next w hw => exact .nineBit (Word.ofInt?_eq_some_iff.1 hw).1
  · split
    · next w hw => exact .twelveBit (Word.ofInt?_eq_some_iff.1 hw).1
    · exact .oversized hd

theorem carries_readString (t : Text) :
    (readString t).1.kind.Carries (readString t).1.payload := by
  rw [readString]
  split
  · exact .string _
  · exact .openString _

theorem all_cons_takeWhile {p : Char → Bool} {x : Char} (hx : p x = true) (t : Text) :
    ∀ y ∈ x :: t.takeWhile p, p y = true :=
  List.forall_mem_cons.2 ⟨hx, List.all_eq_true.1 List.all_takeWhile⟩

/-- Whatever is read carries what its kind says. -/
theorem carries_read (x : Char) (t : Text) : (read x t).1.kind.Carries (read x t).1.payload := by
  rw [read]
  split
  · next k hk => exact .delimiter (mem_delimiters_iff.2 hk)
  · next hk =>
    split
    · next hs => exact .symbol (all_cons_takeWhile (isSymbolChar_of_isSymbolStart hs) t)
    · split
      · next ho => exact carries_ofDigits (all_cons_takeWhile ho t)
      · split
        · exact carries_readString t
        · refine .invalid fun k hx => ?_
          rw [mem_delimiters_iff, hk] at hx
          cases hx

end Lexeme

/-! ### Tokens -/

namespace Lexer

variable {l : Lexer} {t : Token}

/-- The next token of a lexer, whatever its buffer is and wherever it stands, says what some text is
read as. -/
theorem exists_read_of_peek (h : l.peek = some t) : ∃ x rest,
    t.kind = (Lexeme.read x rest).1.kind ∧ t.payload = (Lexeme.read x rest).1.payload := by
  rw [peek, next, Reading.first] at h
  split at h
  · cases h
  · next r hr =>
    cases h
    split at hr
    · cases hr
    · next x rest _ =>
      cases hr
      exact ⟨x, rest, rfl, rfl⟩

/-- The next token of a lexer carries what its kind says. -/
theorem carries_of_peek (h : l.peek = some t) : t.kind.Carries t.payload := by
  obtain ⟨x, rest, hkind, hpayload⟩ := exists_read_of_peek h
  rw [hkind, hpayload]
  exact Lexeme.carries_read x rest

/-- Every token of a drain is the next one of the lexer at some time. -/
theorem exists_peek_of_mem_drain (h : t ∈ l.drain.1) : ∃ l' : Lexer, l'.peek = some t := by
  obtain ⟨i, hi⟩ := List.mem_iff_getElem?.1 h
  exact ⟨l.after i, (l.getElem?_drain i).symm.trans hi⟩

theorem carries_of_mem_drain (h : t ∈ l.drain.1) : t.kind.Carries t.payload := by
  obtain ⟨l', hl'⟩ := exists_peek_of_mem_drain h
  exact carries_of_peek hl'

end Lexer

end OctalScan
