import OctalScan.Token

/-!
# Lexemes

A lexeme is what stands between two gaps of the source: its first character decides how far it
reaches and what kind of token it is. A lexeme always takes at least one character and is always
the front of the text that it is read from (`span_append_rest`), whatever the text holds: faults
are lexemes of the error kind.
-/

namespace OctalScan

def isSymbolStart (c : Char) : Bool := c.isAlpha || c == '_'

def isSymbolChar (c : Char) : Bool := c.isAlphanum || c == '_'

def isOctalDigit (c : Char) : Bool := '0' ≤ c && c ≤ '7'

/-- The number that a run of octal digits denotes. -/
def octalValue (digits : Text) : Nat := Nat.ofDigitChars 8 digits 0

/-- A piece of source with its meaning. `span` is the piece itself. -/
structure Lexeme where
  kind : Kind
  payload : Payload
  span : Text
  deriving DecidableEq, Repr

namespace Lexeme

/-- The words that end the message about a literal of more than twelve bits. -/
def oversized : Text := "is an invalid 12 bit integer".toList

/-- The lexeme of a run of octal digits: a word of the narrowest width that holds its value. -/
def ofDigits (digits : Text) : Lexeme :=
  match Word.ofInt? .nine (octalValue digits) with
  | some w => ⟨.nineBit, .word w, digits⟩
  | none =>
    match Word.ofInt? .twelve (octalValue digits) with
    | some w => ⟨.twelveBit, .word w, digits⟩
    | none => ⟨.error, .text ('\'' :: digits ++ "' ".toList ++ oversized), digits⟩

/-- The lexeme of a character that can begin no token. -/
def ofInvalid (x : Char) : Lexeme :=
  ⟨.error, .text ("Invalid token '".toList ++ [x, '\'']), [x]⟩

/-- Reads what follows an opening quote. Without a closing quote the literal is an error that takes
the whole text but its last character, which is where the end of the source is marked. -/
def readString (t : Text) : Lexeme × Text :=
  let body := t.takeWhile (· != '"')
  match t.dropWhile (· != '"') with
  | quote :: rest => (⟨.string, .text body, '"' :: body ++ [quote]⟩, rest)
  | [] => (⟨.error, .text ('"' :: t.dropLast), '"' :: t.dropLast⟩, t.drop (t.length - 1))

/-- Reads the lexeme that begins with a character `x`, followed by the text `t`. -/
def read (x : Char) (t : Text) : Lexeme × Text :=
  match Kind.ofDelimiter? x with
  | some kind => (⟨kind, .empty, [x]⟩, t)
  | none =>
    if isSymbolStart x then
      let name := x :: t.takeWhile isSymbolChar
      (⟨.symbol, .text name, name⟩, t.dropWhile isSymbolChar)
    else if isOctalDigit x then
      (ofDigits (x :: t.takeWhile isOctalDigit), t.dropWhile isOctalDigit)
    else if x = '"' then readString t
    else (ofInvalid x, t)

@[simp] theorem span_ofDigits (digits : Text) : (ofDigits digits).span = digits := by
  rw [ofDigits]
  split
  · rfl
  · split <;> rfl

theorem dropLast_append_drop (t : Text) : t.dropLast ++ t.drop (t.length - 1) = t := by
  rw [List.dropLast_eq_take, List.take_append_drop]

/-- A string literal and what is left make up the text from the opening quote on. -/
theorem span_readString_append (t : Text) :
    (readString t).1.span ++ (readString t).2 = '"' :: t := by
  rw [readString]
  split
  · next quote rest h =>
    have := List.takeWhile_append_dropWhile (p := (· != '"')) (l := t)
    rw [h] at this
    simpa using this
  · simpa using dropLast_append_drop t

/-- A lexeme and what is left make up the text that was read. -/
theorem span_append_rest (x : Char) (t : Text) : (read x t).1.span ++ (read x t).2 = x :: t := by
  rw [read]
  split
  · rfl
  · split
    · simp
    · split
      · simp
      · split
        · next h => rw [span_readString_append, h]
        · rfl

theorem span_ne_nil (x : Char) (t : Text) : (read x t).1.span ≠ [] := by
  rw [read, readString]
  repeat' split
  all_goals simp [ofInvalid]

theorem length_read_lt (x : Char) (t : Text) : (read x t).2.length < (x :: t).length := by
  rw [← span_append_rest x t, List.length_append]
  have := List.length_pos_iff.2 (span_ne_nil x t)
  omega

end Lexeme

end OctalScan
