import OctalScan.Command.Run
import OctalScan.Proofs.Front
import OctalScan.Proofs.Limit
import OctalScan.Proofs.Numeral
import OctalScan.Proofs.Payload
import OctalScan.Proofs.Style
import OctalScan.Proofs.Trimming

/-!
# Rows of a text listing

A text listing has a row for every token, and a row is a line, unless it is the row of a string
literal that is never closed: such a literal is shown as it stands in the source, with the newlines
in it. Only those at its end are lost with the other blanks there. So the lines of a listing are as
many as its tokens and the newlines that are left in such a literal (`Command.count_listing`).

No other row holds a newline or a style sequence (`Token.newline_not_mem_listed`,
`Token.unstyled_listed`).
-/

namespace OctalScan

/-! ### Printable characters -/

namespace Text

theorem not_mem_of_isPlain {c : Char} {t : Text} (hc : isPlain c = false)
    (ht : ∀ x ∈ t, isPlain x = true) : c ∉ t :=
  fun hmem => Bool.false_ne_true (hc.symm.trans (ht c hmem))

theorem isPlain_of_isSymbolChar {c : Char} (h : isSymbolChar c = true) : isPlain c = true := by
  change (decide ('A'.val ≤ c.val ∧ c.val ≤ 'Z'.val) ||
    (decide ('a'.val ≤ c.val) && decide (c.val ≤ 'z'.val)) || c.isDigit || c == '_') = true at h
  simp only [Bool.or_eq_true, Bool.and_eq_true, decide_eq_true_eq, UInt32.le_iff_toNat_le,
    beq_iff_eq] at h
  rcases h with (h | h) | rfl
  · simp only [isPlain, Bool.and_eq_true, decide_eq_true_eq]
    have hval : c.val.toNat = c.toNat := rfl
    simp only [Char.reduceVal, UInt32.reduceToNat, hval] at h
    omega
  · exact isPlain_of_isDigit h
  · rfl

end Text

/-! ### One row -/

theorem Word.isPlain_of_mem_octal (w : Word) {c : Char} (hc : c ∈ w.octal) :
    Text.isPlain c = true := by
  rw [octal, List.leftpad] at hc
  rcases List.mem_append.1 hc with hc | hc
  · rw [List.eq_of_mem_replicate hc]
    rfl
  · exact Text.isPlain_of_mem_octal hc

/-- The message about a literal that is too large. -/
theorem Lexeme.isPlain_of_mem_oversized {digits : Text} (hd : ∀ x ∈ digits, isOctalDigit x = true) :
    ∀ c ∈ '\'' :: digits ++ "' ".toList ++ oversized, Text.isPlain c = true := by
  have hdigits : ∀ c ∈ digits, Text.isPlain c = true := fun c hc =>
    Text.isPlain_of_isSymbolChar (isSymbolStart_of_isOctalDigit (hd c hc)).2
  simp only [List.forall_mem_append, List.forall_mem_cons]
  exact ⟨⟨⟨rfl, hdigits⟩, List.all_eq_true.1 rfl⟩, List.all_eq_true.1 rfl⟩

theorem Kind.isPlain_of_mem_name (k : Kind) : ∀ c ∈ k.name, Text.isPlain c = true := by
  have hall : k.name.all Text.isPlain = true := by cases k <;> rfl
  exact List.all_eq_true.1 hall

namespace Token

variable {t : Token}

/-- What stands in front of the payload in a row: position and kind, widened to columns. -/
def columns (t : Token) : Text := widen 8 t.position ++ ' ' :: widen 20 t.kind.name ++ [' ']

theorem listed_eq (t : Token) : t.listed = Text.trimEnd (t.columns ++ t.payloadText) := by
  simp [listed, columns]

theorem isPlain_of_mem_widen {n : Nat} {w : Text} (hw : ∀ c ∈ w, Text.isPlain c = true) :
    ∀ c ∈ widen n w, Text.isPlain c = true := by
  intro c hc
  rw [widen, List.rightpad] at hc
  rcases List.mem_append.1 hc with hc | hc
  · exact hw c hc
  · rw [List.eq_of_mem_replicate hc]
    rfl

theorem isPlain_of_mem_position (t : Token) : ∀ c ∈ t.position, Text.isPlain c = true := by
  intro c hc
  rw [position] at hc
  rcases List.mem_append.1 hc with hc | hc
  · exact Text.isPlain_of_mem_ofInt hc
  · rcases List.mem_cons.1 hc with rfl | hc
    · rfl
    · exact Text.isPlain_of_mem_ofInt hc

theorem isPlain_of_mem_columns (t : Token) : ∀ c ∈ t.columns, Text.isPlain c = true := by
  intro c hc
  simp only [columns, List.mem_append, List.mem_cons, List.not_mem_nil, or_false] at hc
  rcases hc with (hc | rfl | hc) | rfl
  · exact isPlain_of_mem_widen t.isPlain_of_mem_position c hc
  · rfl
  · exact isPlain_of_mem_widen t.kind.isPlain_of_mem_name c hc
  · rfl

/-- What is not printable ASCII can only come from the payload. -/
theorem not_mem_listed {c : Char} (hc : Text.isPlain c = false) (hp : c ∉ t.payloadText) :
    c ∉ t.listed := by
  intro hmem
  rw [listed_eq] at hmem
  rcases List.mem_append.1 (Text.mem_of_mem_trimEndBy hmem) with hmem | hmem
  · exact Text.not_mem_of_isPlain hc t.isPlain_of_mem_columns hmem
  · exact hp hmem

/-- How payloads are shown in rows. Apart from printable ASCII there are the character that can
begin no token, which stands between quotes, and a string literal that is never closed. -/
inductive Shown (t : Token) : Prop
  | plain (hopen : t.isUnclosed = false) (h : ∀ c ∈ t.payloadText, Text.isPlain c = true)
  | invalid {x : Char} (hopen : t.isUnclosed = false) (hx : x ≠ '\n')
      (h : t.payloadText = "Invalid token '".toList ++ [x, '\''])
  | unclosed (hopen : t.isUnclosed = true) (h : t.payloadText = t.payload.message)
      (hquote : '"' ∈ t.payload.message)

theorem shown (h : t.kind.Carries t.payload) : t.Shown := by
  obtain ⟨kind, payload, offset, line, column, file⟩ := t
  cases h with
  | delimiter _ =>
    exact .plain (by simp [isUnclosed, Payload.message]) fun c hc => absurd hc List.not_mem_nil
  | @symbol w hw =>
    exact .plain (by simp [isUnclosed, isError]) fun c hc =>
      Text.isPlain_of_isSymbolChar (hw c hc)
  | @nineBit w _ | @twelveBit w _ =>
    exact .plain (by simp [isUnclosed, isError]) fun c hc => w.isPlain_of_mem_octal hc
  | oversized hd => exact .plain rfl (Lexeme.isPlain_of_mem_oversized hd)
  | string body =>
    exact .plain rfl fun c hc => Text.isPlain_of_mem_escaped hc
  | openString body => exact .unclosed rfl rfl List.mem_cons_self
  | @invalid x hx =>
    refine .invalid rfl ?_ rfl
    rintro rfl
    exact hx .newline (by decide)

/-- A row that shows no literal without a closing quote is one line. -/
theorem newline_not_mem_listed (h : t.kind.Carries t.payload) (hopen : t.isUnclosed = false) :
    '\n' ∉ t.listed := by
  refine not_mem_listed (by decide) ?_
  cases shown h with
  | plain _ hu => exact Text.not_mem_of_isPlain (by decide) hu
  | invalid _ hx hu =>
    rw [hu]
    simpa using hx.symm
  | unclosed ho _ _ => cases hopen.symm.trans ho

/-- What the row of a token shows of the source as it stands there: a literal that is never closed,
but for the blanks at its end. -/
def shownAsIs (t : Token) : Text := if t.isUnclosed then Text.trimEnd t.payload.message else []

theorem count_listed (h : t.kind.Carries t.payload) :
    t.listed.count '\n' = t.shownAsIs.count '\n' := by
  rw [shownAsIs]
  cases hopen : t.isUnclosed with
  | false => exact List.count_eq_zero.2 (newline_not_mem_listed h hopen)
  | true =>
    cases shown h with
    | plain ho _ | invalid ho _ _ => cases ho.symm.trans hopen
    | unclosed _ hu hquote =>
      have hcolumns : '\n' ∉ t.columns :=
        Text.not_mem_of_isPlain (by decide) t.isPlain_of_mem_columns
      rw [listed_eq, hu, Text.trimEnd, Text.trimEndBy_append _ ⟨'"', hquote, by decide⟩,
        List.count_append, List.count_eq_zero.2 hcolumns, Nat.zero_add]
      rfl

end Token

/-! ### All rows -/

theorem unstyled_textListing (ts : List Token) : Text.unstyled (textListing ts) =
    Text.unlines (ts.map fun t => Text.unstyled t.listed) := by
  rw [textListing, Text.unstyled_unlines, List.map_map]
  rfl

theorem Inspection.carries_of_mem_tokens {source file : Text} {limit : Int} {t : Token}
    (h : t ∈ (ofSource source file limit).tokens) : t.kind.Carries t.payload :=
  Lexer.carries_of_mem_drain ((upToLimit_ofSource source file limit).begins.subset h)

/-! ### Sources that are one literal -/

/-- A source that is a literal without a closing quote has one token. -/
theorem Lexer.drain_unclosed {body : Text} (hb : '"' ∉ body) (file : Text) :
    (ofSource ('"' :: body) file).drain.1 = [⟨.error, .text ('"' :: body), 0, 1, 0, file⟩] := by
  have hgap (rest : Text) (hrest : ∀ x ∈ rest.head?, startsGap x = false) :
      Longest Gap [] rest := longest_gap_iff.2 ⟨.nil rest, hrest⟩
  have h := Decomposes.piece (hgap _ (by rintro _ ⟨⟩; rfl)) (.openString hb)
    (.finish (hgap [] (by rintro _ ⟨⟩)))
  rw [List.nil_append, List.append_nil] at h
  rw [drain_ofSource h]
  rfl

theorem Inspection.tokens_unclosed {body : Text} (hb : '"' ∉ body) (file : Text) (limit : Int) :
    (ofSource ('"' :: body) file limit).tokens =
      [⟨.error, .text ('"' :: body), 0, 1, 0, file⟩] := by
  have h := upToLimit_ofSource ('"' :: body) file limit
  have hpos := lastError_pos limit
  have hcount : (ofSource ('"' :: body) file limit).tokens.countP Token.isError = 1 := by
    rw [← length_failures, ← h.errors, Array.length_toList, h.size_errors,
      Lexer.drain_unclosed hb file]
    exact Nat.min_eq_left hpos
  rw [← Lexer.drain_unclosed hb file]
  refine h.begins.eq_of_length_le ?_
  rw [Lexer.drain_unclosed hb file, List.length_singleton, ← hcount]
  exact List.countP_le_length

/-! ### Lines of a listing -/

namespace Command

theorem count_listing {ts : List Token} (h : ∀ t ∈ ts, t.kind.Carries t.payload) :
    (Text.unstyled (Format.text.listing ts)).count '\n' =
      ts.length + (ts.flatMap Token.shownAsIs).count '\n' := by
  rw [Text.count_unstyled, Format.listing, textListing]
  induction ts with
  | nil => rfl
  | cons t ts ih =>
    have ht := Token.count_listed (h t List.mem_cons_self)
    have hts := ih fun u hu => h u (List.mem_cons_of_mem t hu)
    rw [List.map_cons, Text.unlines_cons, List.count_append, List.count_cons_self, hts, ht,
      List.flatMap_cons, List.count_append, List.length_cons]
    omega

/-- A text listing is printed with a row for every token. It has as many lines as tokens and, in
addition, as many as there are newlines in a literal that is never closed, the blanks at its end
apart. So it is one line per token exactly if there is no such newline. -/
theorem lines_of_listing (source file : Text) (limit : Int) (verbose : Bool) :
    let i := Inspection.ofSource source file limit
    let printed := (inspectionOutcome file .text verbose i).output
    printed = Text.unlines (i.tokens.map fun t => Text.unstyled t.listed) ∧
      (∀ t ∈ (Lexer.ofSource source file).drain.1,
        t.listed.count '\n' = t.shownAsIs.count '\n') ∧
      printed.count '\n' = i.tokens.length + (i.tokens.flatMap Token.shownAsIs).count '\n' ∧
      (printed.count '\n' = i.tokens.length ↔
        ∀ t ∈ i.tokens, t.isUnclosed = true → '\n' ∉ Text.trimEnd t.payload.message) := by
  intro i printed
  have hcount : printed.count '\n' =
      i.tokens.length + (i.tokens.flatMap Token.shownAsIs).count '\n' :=
    count_listing fun t ht => Inspection.carries_of_mem_tokens ht
  refine ⟨unstyled_textListing i.tokens, fun t ht => Token.count_listed
    (Lexer.carries_of_mem_drain ht), hcount, ?_⟩
  have hmem (t : Token) : '\n' ∉ t.shownAsIs ↔
      (t.isUnclosed = true → '\n' ∉ Text.trimEnd t.payload.message) := by
    cases hopen : t.isUnclosed <;> simp [Token.shownAsIs, hopen]
  rw [hcount, Nat.add_eq_left, List.count_eq_zero, List.mem_flatMap, not_exists]
  simp only [not_and, hmem]

/-- The literal in this source is never closed, so its one row fills two lines. -/
theorem lines_of_unclosed_literal :
    let i := Inspection.ofSource ['"', '\n', 'a'] ['s'] Collector.defaultLimit
    i.tokens.length = 1 ∧ (∃ t ∈ i.tokens, '\n' ∈ t.listed) ∧
      (inspectionOutcome ['s'] .text false i).output.count '\n' = 2 := by
  intro i
  have htokens : i.tokens = [⟨.error, .text ['"', '\n', 'a'], 0, 1, 0, ['s']⟩] :=
    Inspection.tokens_unclosed (by decide) ['s'] Collector.defaultLimit
  have hcarries : ∀ t ∈ i.tokens, t.kind.Carries t.payload := fun t ht =>
    Inspection.carries_of_mem_tokens ht
  refine ⟨congrArg List.length htokens, ?_, ?_⟩
  · rw [htokens]
    exact ⟨_, List.mem_singleton_self _, by decide⟩
  · refine (count_listing hcarries).trans ?_
    rw [htokens]
    rfl

end Command

end OctalScan
