import OctalScan.Proofs.Layout
import OctalScan.Proofs.Payload

/-!
# Literals

A literal takes the narrowest width that holds its value, and the value is held exactly if the
significant digits are no more than the width writes: three for nine bits, four for twelve
(`Lexer.drain_digits`). The digits that a word is written with are the significant digits of the
literal with zeros in front (`Text.octal_octalValue`), so they are read as the same word again.
-/

namespace OctalScan

namespace Text

/-- A run of octal digits without the zeros in front of it. Of zeros alone one is left. -/
def significant (digits : Text) : Text :=
  match digits.dropWhile (· = '0') with
  | [] => ['0']
  | x :: t => x :: t

/-! ### Digits and values -/

theorem exists_digitChar {x : Char} (hx : isOctalDigit x = true) : ∃ v < 8, x = Nat.digitChar v := by
  have hdigits : ['0', '1', '2', '3', '4', '5', '6', '7'] = (List.range 8).map Nat.digitChar := rfl
  have hmem := mem_of_isOctalDigit hx
  rw [hdigits] at hmem
  obtain ⟨v, hv, rfl⟩ := List.mem_map.1 hmem
  exact ⟨v, List.mem_range.1 hv, rfl⟩

/-- Digits that are read behind a number other than zero are written behind its digits. -/
theorem octal_ofDigitChars {digits : Text} (hd : ∀ x ∈ digits, isOctalDigit x = true) {n : Nat}
    (hn : 0 < n) : octal (Nat.ofDigitChars 8 digits n) = octal n ++ digits := by
  induction digits generalizing n with
  | nil => rw [Nat.ofDigitChars_nil, List.append_nil]
  | cons x digits ih =>
    obtain ⟨hx, hrest⟩ := List.forall_mem_cons.1 hd
    obtain ⟨v, hv, rfl⟩ := exists_digitChar hx
    calc octal (Nat.ofDigitChars 8 (v.digitChar :: digits) n)
        = octal (Nat.ofDigitChars 8 digits (8 * n + v)) := by
          rw [Nat.ofDigitChars_cons_digitChar_of_lt_ten (by omega)]
      _ = octal (8 * n + v) ++ digits := ih hrest (by omega)
      _ = octal n ++ [v.digitChar] ++ digits := by
          rw [octal, ← Nat.toDigits_append_toDigits (by decide) hn hv, Nat.toDigits_of_lt_base hv]
          rfl
      _ = octal n ++ v.digitChar :: digits := by rw [List.append_assoc, List.singleton_append]

/-- The value of a run of octal digits is written with its significant digits. -/
theorem octal_octalValue {digits : Text} (hne : digits ≠ [])
    (hd : ∀ x ∈ digits, isOctalDigit x = true) : octal (octalValue digits) = significant digits := by
  induction digits with
  | nil => exact absurd rfl hne
  | cons x digits ih =>
    obtain ⟨hx, hrest⟩ := List.forall_mem_cons.1 hd
    obtain ⟨v, hv, rfl⟩ := exists_digitChar hx
    have hvalue : octalValue (v.digitChar :: digits) = Nat.ofDigitChars 8 digits v := by
      rw [octalValue, Nat.ofDigitChars_cons_digitChar_of_lt_ten (by omega), Nat.mul_zero,
        Nat.zero_add]
    rw [hvalue]
    rcases Nat.eq_zero_or_pos v with rfl | hpos
    · -- a zero in front changes neither side, unless it is the only digit
      by_cases hnil : digits = []
      · rw [hnil]
        rfl
      · have hdrop : significant (Nat.digitChar 0 :: digits) = significant digits := rfl
        rw [hdrop]
        exact ih hnil hrest
    · have hkeep : significant (v.digitChar :: digits) = v.digitChar :: digits := by
        have hzero : v.digitChar ≠ '0' := by
          rw [Ne, Nat.digitChar_eq_zero]
          exact Nat.ne_of_gt hpos
        simp [significant, hzero]
      rw [octal_ofDigitChars hrest hpos, octal, Nat.toDigits_of_lt_base hv, hkeep,
        List.singleton_append]

/-- Only a value below a power of eight has no more significant digits than that. -/
theorem length_significant_le_iff {digits : Text} (hne : digits ≠ [])
    (hd : ∀ x ∈ digits, isOctalDigit x = true) {n : Nat} (hn : 0 < n) :
    (significant digits).length ≤ n ↔ octalValue digits < Nat.pow 8 n := by
  rw [← octal_octalValue hne hd]
  exact Nat.length_toDigits_le_iff (by decide) hn

theorem isOctalDigit_of_mem_significant {digits : Text}
    (hd : ∀ x ∈ digits, isOctalDigit x = true) : ∀ x ∈ significant digits, isOctalDigit x = true := by
  intro x hx
  unfold significant at hx
  split at hx
  · rw [List.mem_singleton.1 hx]
    rfl
  · next y t h =>
    rw [← h] at hx
    exact hd x ((List.dropWhile_sublist _).subset hx)

end Text

/-! ### Words and the digits that they are written with -/

namespace Word

theorem octalValue_octal (w : Word) : octalValue w.octal = w.value := by
  rw [octalValue, octal, List.leftpad, Nat.ofDigitChars_append, Nat.ofDigitChars_replicate_zero,
    Nat.mul_zero]
  exact Nat.ofDigitChars_toDigits (by decide) (by decide)

theorem octal_ne_nil (w : Word) : w.octal ≠ [] := by
  rw [octal, List.leftpad]
  exact List.append_ne_nil_of_right_ne_nil _ Nat.toDigits_ne_nil

end Word

/-! ### What a run of digits is read as -/

theorem Lexeme.message_oversized (digits : Text) : '\'' :: digits ++ "' ".toList ++ oversized =
    '\'' :: digits ++ "' is an invalid 12 bit integer".toList := by
  rw [List.append_assoc]
  rfl

/-- `Literal digits l` says what lexeme `l` a run of digits is, by its value. -/
inductive Literal (digits : Text) : Lexeme → Prop
  | nineBit {w : Word} (hw : w.width = .nine) (hv : w.value = octalValue digits) :
      Literal digits ⟨.nineBit, .word w, digits⟩
  | twelveBit {w : Word} (hw : w.width = .twelve) (hv : w.value = octalValue digits)
      (hlow : 0o777 < octalValue digits) : Literal digits ⟨.twelveBit, .word w, digits⟩
  | oversized (hlow : 0o7777 < octalValue digits) :
      Literal digits ⟨.error, .text ('\'' :: digits ++ "' is an invalid 12 bit integer".toList),
        digits⟩

namespace Literal

variable {digits : Text}

theorem ofInt?_eq_none {width : Width} {n : Nat} (h : Word.ofInt? width n = none) :
    width.maxValue < n := by
  rw [← Nat.not_le]
  intro hle
  have hsome : Word.ofInt? width n = some ⟨width, n, hle⟩ := Word.ofInt?_eq_some_iff.2 ⟨rfl, rfl⟩
  rw [h] at hsome
  cases hsome

theorem ofDigits (digits : Text) : Literal digits (Lexeme.ofDigits digits) := by
  rw [Lexeme.ofDigits]
  split
  · next w hnine =>
    obtain ⟨hw, hv⟩ := Word.ofInt?_eq_some_iff.1 hnine
    exact .nineBit hw (Int.ofNat.inj hv)
  · next hnine =>
    split
    · next w htwelve =>
      obtain ⟨hw, hv⟩ := Word.ofInt?_eq_some_iff.1 htwelve
      exact .twelveBit hw (Int.ofNat.inj hv) (ofInt?_eq_none hnine)
    · next htwelve =>
      rw [Lexeme.message_oversized]
      exact .oversized (ofInt?_eq_none htwelve)

end Literal

namespace Lexeme

theorem content_ofDigits_congr {digits digits' : Text}
    (hvalue : octalValue digits' = octalValue digits) (hk : (ofDigits digits).kind ≠ .error) :
    (ofDigits digits').content = (ofDigits digits).content := by
  simp only [ofDigits, hvalue] at hk ⊢
  cases hnine : Word.ofInt? .nine (octalValue digits) with
  | some w => rfl
  | none =>
    cases htwelve : Word.ofInt? .twelve (octalValue digits) with
    | some w => rfl
    | none => simp [hnine, htwelve] at hk

/-- Words are read from digits only. -/
theorem exists_ofDigits_of_word {x : Char} {t : Text} {w : Word}
    (h : (read x t).1.payload = .word w) : ∃ digits, (read x t).1 = ofDigits digits := by
  generalize hl : (read x t).1 = l at h ⊢
  rw [read] at hl
  split at hl
  · subst hl
    cases h
  · split at hl
    · subst hl
      cases h
    · split at hl
      · exact ⟨_, hl.symm⟩
      · split at hl
        · subst hl
          rw [readString] at h
          split at h <;> cases h
        · subst hl
          cases h

end Lexeme

/-! ### Draining a run of digits -/

/-- `IsLiteral t k width n digits` says that the token `t` is of kind `k` and carries the word of
that width whose value the octal digits denote, and that the word is written with `n` digits or
more, which are read as the same literal. -/
def Token.IsLiteral (t : Token) (k : Kind) (width : Width) (n : Nat) (digits : Text) : Prop :=
  t.kind = k ∧ ∃ w, t.payload = .word w ∧ w.width = width ∧ w.value = octalValue digits ∧
    w.octal = digits.significant.leftpad n '0' ∧
    ∀ file, ∃ u, (Lexer.ofSource w.octal file).drain.1 = [u] ∧ u.content = t.content

namespace Lexer

variable {digits : Text}

/-- A run of octal digits is one lexeme. -/
theorem decomposes_digits (hne : digits ≠ []) (hd : ∀ x ∈ digits, isOctalDigit x = true) :
    Decomposes digits [⟨[], Lexeme.ofDigits digits⟩] [] := by
  obtain ⟨x, t, rfl⟩ := List.exists_cons_of_ne_nil hne
  have hlong : Longest (Run isOctalDigit) (x :: t) [] := Run.longest_iff.2 ⟨hd, by simp⟩
  have hgap : Longest Gap [] ((Lexeme.ofDigits (x :: t)).span ++ []) := by
    rw [Lexeme.span_ofDigits]
    refine (Gap.nil _).longest fun y hy => ?_
    cases hy
    have hx := isSymbolStart_of_isOctalDigit (hd x List.mem_cons_self)
    rw [← Bool.not_eq_true]
    intro hstarts
    rw [not_isSymbolChar_of_startsGap hstarts] at hx
    cases hx.2
  have h := Decomposes.piece hgap (.literal hlong) (.finish ((Gap.nil []).longest (by simp)))
  rwa [Lexeme.span_ofDigits, List.nil_append, List.append_nil] at h

theorem drain_ofDigits (hne : digits ≠ []) (hd : ∀ x ∈ digits, isOctalDigit x = true)
    (file : Text) :
    (ofSource digits file).drain.1 = [(Lexeme.ofDigits digits).toToken file .start] :=
  congrArg Prod.fst (drain_ofSource (decomposes_digits hne hd) file)

/-- A run of digits that is read as a word is the literal of that word. -/
theorem isLiteral {k : Kind} {w : Word} (hne : digits ≠ [])
    (hd : ∀ x ∈ digits, isOctalDigit x = true)
    (hread : Lexeme.ofDigits digits = ⟨k, .word w, digits⟩) (hk : k ≠ .error)
    (hv : w.value = octalValue digits) (file : Text) (c : Cursor) :
    ((⟨k, .word w, digits⟩ : Lexeme).toToken file c).IsLiteral k w.width w.width.octalDigits
      digits := by
  have hoctal : w.octal = digits.significant.leftpad w.width.octalDigits '0' := by
    rw [Word.octal, hv, Text.octal_octalValue hne hd]
  have hdigits : ∀ x ∈ w.octal, isOctalDigit x = true := by
    intro x hx
    rw [hoctal, List.leftpad] at hx
    rcases List.mem_append.1 hx with hx | hx
    · rw [List.eq_of_mem_replicate hx]
      rfl
    · exact Text.isOctalDigit_of_mem_significant hd x hx
  have hvalue : octalValue w.octal = octalValue digits := w.octalValue_octal.trans hv
  refine ⟨rfl, w, rfl, rfl, hv, hoctal,
    fun file' => ⟨_, drain_ofDigits w.octal_ne_nil hdigits file', ?_⟩⟩
  have hcontent := Lexeme.content_ofDigits_congr hvalue (by rwa [hread])
  rw [hread] at hcontent
  exact hcontent

/-- Every word of twelve bits that is read needs more than nine. -/
theorem le_value_of_twelve {l : Lexer} {t : Token} {w : Word} (ht : t ∈ l.drain.1)
    (hpayload : t.payload = .word w) (hw : w.width = .twelve) : 0o1000 ≤ w.value := by
  obtain ⟨l', hl'⟩ := exists_peek_of_mem_drain ht
  obtain ⟨x, rest, -, hread⟩ := exists_read_of_peek hl'
  obtain ⟨digits, hdigits⟩ := Lexeme.exists_ofDigits_of_word (hread.symm.trans hpayload)
  rw [hdigits, hpayload] at hread
  generalize hlit : Lexeme.ofDigits digits = lit at hread
  cases hlit ▸ Literal.ofDigits digits with
  | nineBit hw' _ =>
    cases hread
    rw [hw] at hw'
    cases hw'
  | twelveBit _ hv hlow =>
    cases hread
    rw [hv]
    exact hlow
  | oversized _ => cases hread

/-- A run of octal digits, however long, is one token: the literal of nine bits if it has at most
three significant digits, that of twelve bits if it has four, and with more of them an error that
quotes the whole run. So whatever else is read, a word of twelve bits is never one that fits in
nine. -/
theorem drain_digits (hne : digits ≠ []) (hd : ∀ x ∈ digits, isOctalDigit x = true)
    (file : Text) :
    (∃ t, (ofSource digits file).drain.1 = [t] ∧
      (digits.significant.length ≤ 3 ∧ t.IsLiteral .nineBit .nine 3 digits ∨
        digits.significant.length = 4 ∧ t.IsLiteral .twelveBit .twelve 4 digits ∨
        4 < digits.significant.length ∧ t.kind = .error ∧
          t.payload = .text ('\'' :: digits ++ "' is an invalid 12 bit integer".toList))) ∧
    ∀ l : Lexer, ∀ t ∈ l.drain.1, ∀ w, t.payload = .word w → w.width = .twelve →
      512 ≤ w.value := by
  refine ⟨⟨_, drain_ofDigits hne hd file, ?_⟩, fun l t ht w => le_value_of_twelve ht⟩
  have hthree : digits.significant.length ≤ 3 ↔ octalValue digits < 0o1000 :=
    Text.length_significant_le_iff hne hd (by decide)
  have hfour : digits.significant.length ≤ 4 ↔ octalValue digits < 0o10000 :=
    Text.length_significant_le_iff hne hd (by decide)
  generalize hlit : Lexeme.ofDigits digits = lit
  cases hlit ▸ Literal.ofDigits digits with
  | @nineBit w hw hv =>
    have hliteral := isLiteral hne hd hlit (by decide) hv file .start
    have hle := w.value_le
    rw [hw] at hliteral
    rw [hw, hv] at hle
    exact Or.inl ⟨hthree.2 (Nat.lt_succ_of_le hle), hliteral⟩
  | @twelveBit w hw hv hlow =>
    have hliteral := isLiteral hne hd hlit (by decide) hv file .start
    have hle := w.value_le
    rw [hw] at hliteral
    rw [hw, hv] at hle
    have hlength : digits.significant.length = 4 := by
      apply Nat.le_antisymm (hfour.2 (Nat.lt_succ_of_le hle))
      apply Nat.gt_of_not_le
      rw [hthree]
      exact Nat.not_lt.2 hlow
    exact Or.inr (Or.inl ⟨hlength, hliteral⟩)
  | oversized hlow =>
    refine Or.inr (Or.inr ⟨?_, rfl, rfl⟩)
    rw [← Nat.not_le, hfour]
    exact Nat.not_lt.2 hlow

/-- Zeros in front do not count as digits, and the word of twelve bits begins with the least value
that does not fit in nine. -/
theorem drain_digits_leading_zeros :
    let digits : Text := ['0', '0', '1', '0', '0', '0']
    digits ≠ [] ∧ (∀ x ∈ digits, isOctalDigit x = true) ∧
      ∃ t, (ofSource digits []).drain.1 = [t] ∧ t.IsLiteral .twelveBit .twelve 4 digits := by
  intro digits
  have hne : digits ≠ [] := List.cons_ne_nil _ _
  have hd : ∀ x ∈ digits, isOctalDigit x = true := by simp [digits, isOctalDigit]
  obtain ⟨⟨t, ht, hwidth⟩, -⟩ := drain_digits hne hd []
  rcases hwidth with ⟨hlen, -⟩ | ⟨-, hliteral⟩ | ⟨hlen, -⟩
  · exact absurd hlen (by decide)
  · exact ⟨hne, hd, t, ht, hliteral⟩
  · exact absurd hlen (by decide)

end Lexer

end OctalScan
