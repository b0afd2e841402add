import OctalScan.Lexeme
import OctalScan.Proofs.Gap

/-!
# Lexemes by their first character

`Lexeme.Leads` says which lexeme a text begins with: the first character decides its kind, and each
kind says where it ends. There is always exactly one (`Lexeme.exists_leads`, `Lexeme.Leads.unique`),
and it is the one that `Lexeme.read` finds once the text is ended by a blank
(`Lexeme.Leads.read_eq`).
-/

namespace OctalScan

/-- The characters that are tokens by themselves, and their kinds. -/
def delimiters : List (Char × Kind) :=
  [('(', .leftParen), (')', .rightParen), (':', .colon), (',', .comma), ('\n', .newline),
    ('<', .lessThan), ('>', .greaterThan), ('.', .dot)]

/-- A run of characters of one class, in front of any text. -/
def Run (p : Char → Bool) (w _rest : Text) : Prop := ∀ x ∈ w, p x = true

namespace Lexeme

/-- `Leads l rest` says that the text `l.span ++ rest` begins with the lexeme `l`. Names and
literals are as long as possible, a string literal ends at the next quote, and without one it is an
error that takes the whole text. Every other character is a lexeme by itself. -/
inductive Leads : Lexeme → Text → Prop
  | delimiter {x : Char} {k : Kind} (rest : Text) (hx : (x, k) ∈ delimiters) :
      Leads ⟨k, .empty, [x]⟩ rest
  | symbol {x : Char} {w rest : Text} (hx : isSymbolStart x = true)
      (h : Longest (Run isSymbolChar) (x :: w) rest) :
      Leads ⟨.symbol, .text (x :: w), x :: w⟩ rest
  | literal {x : Char} {w rest : Text} (h : Longest (Run isOctalDigit) (x :: w) rest) :
      Leads (ofDigits (x :: w)) rest
  | string {body : Text} (rest : Text) (hb : '"' ∉ body) :
      Leads ⟨.string, .text body, '"' :: (body ++ ['"'])⟩ rest
  | openString {body : Text} (hb : '"' ∉ body) :
      Leads ⟨.error, .text ('"' :: body), '"' :: body⟩ []
  | invalid {x : Char} (rest : Text) (hd : ∀ k, (x, k) ∉ delimiters)
      (hs : isSymbolStart x = false) (ho : isOctalDigit x = false) (hq : x ≠ '"') :
      Leads ⟨.error, .text ("Invalid token '".toList ++ [x, '\'']), [x]⟩ rest

end Lexeme

/-! ### Runs of one class -/

namespace Run

variable {p : Char → Bool} {w rest : Text}

theorem of_cons {x : Char} {rest' : Text} (h : Run p (x :: w) rest) : Run p w rest' :=
  fun _ hy => h _ (List.mem_cons_of_mem _ hy)

theorem takeWhile_append (h : Run p w rest) (hstop : ∀ x ∈ rest.head?, p x = false) :
    (w ++ rest).takeWhile p = w := by
  rw [List.takeWhile_append_of_pos h]
  cases rest with
  | nil => simp
  | cons x t => simp [hstop x rfl]

theorem dropWhile_append (h : Run p w rest) (hstop : ∀ x ∈ rest.head?, p x = false) :
    (w ++ rest).dropWhile p = rest := by
  rw [List.dropWhile_append_of_pos h]
  cases rest with
  | nil => simp
  | cons x t => simp [hstop x rfl]

/-- Runs of one class that end where another class begins are told apart from what follows. -/
theorem append_inj {w' rest' : Text} (h : Run p w rest) (hstop : ∀ x ∈ rest.head?, p x = false)
    (h' : Run p w' rest') (hstop' : ∀ x ∈ rest'.head?, p x = false)
    (heq : w ++ rest = w' ++ rest') : w = w' ∧ rest = rest' := by
  have hrun := congrArg (List.takeWhile p) heq
  rw [h.takeWhile_append hstop, h'.takeWhile_append hstop'] at hrun
  have hrest := congrArg (List.dropWhile p) heq
  rw [h.dropWhile_append hstop, h'.dropWhile_append hstop'] at hrest
  exact ⟨hrun, hrest⟩

theorem takeWhile_of_notMem {x : Char} (h : x ∉ w) (t : Text) :
    (w ++ t).takeWhile (· != x) = w ++ t.takeWhile (· != x) :=
  List.takeWhile_append_of_pos fun _ hy => bne_iff_ne.2 fun he => h (he ▸ hy)

theorem dropWhile_of_notMem {x : Char} (h : x ∉ w) (t : Text) :
    (w ++ t).dropWhile (· != x) = t.dropWhile (· != x) :=
  List.dropWhile_append_of_pos fun _ hy => bne_iff_ne.2 fun he => h (he ▸ hy)

/-- A run is the longest exactly if the next character is of another class. -/
theorem longest_iff :
    Longest (Run p) w rest ↔ Run p w rest ∧ ∀ x ∈ rest.head?, p x = false := by
  constructor
  · intro h
    refine ⟨h.1, fun x hx => ?_⟩
    obtain ⟨t, rfl⟩ : ∃ t, rest = x :: t := List.head?_eq_some_iff.1 hx
    rw [← Bool.not_eq_true]
    intro hp
    have hrun : Run p (w ++ [x]) t := by
      intro y hy
      rcases List.mem_append.1 hy with hy | hy
      · exact h.1 y hy
      · rwa [List.mem_singleton.1 hy]
    have hlen := h.2 (w ++ [x]) t (by simp) hrun
    rw [List.length_append, List.length_singleton] at hlen
    omega
  · rintro ⟨h, hstop⟩
    refine ⟨h, fun w' rest' happ h' => ?_⟩
    have htake := takeWhile_append h hstop
    rw [← happ, List.takeWhile_append_of_pos h'] at htake
    rw [← htake, List.length_append]
    omega

theorem longest_takeWhile (p : Char → Bool) (t : Text) :
    Longest (Run p) (t.takeWhile p) (t.dropWhile p) := by
  refine longest_iff.2 ⟨List.all_eq_true.1 List.all_takeWhile, fun x hx => ?_⟩
  have := List.head?_dropWhile_not p t
  rw [Option.mem_def.1 hx] at this
  simpa using this

end Run

/-! ### Classes of characters -/

theorem isSymbolChar_of_isSymbolStart {x : Char} (h : isSymbolStart x = true) :
    isSymbolChar x = true := by
  simp only [isSymbolStart, Bool.or_eq_true] at h
  simp only [isSymbolChar, Char.isAlphanum, Bool.or_eq_true]
  rcases h with h | h
  · exact Or.inl (Or.inl h)
  · exact Or.inr h

theorem mem_of_isOctalDigit {x : Char} (h : isOctalDigit x = true) :
    x ∈ ['0', '1', '2', '3', '4', '5', '6', '7'] := by
  simp only [isOctalDigit, Bool.and_eq_true, decide_eq_true_eq, Char.le_def,
    UInt32.le_iff_toNat_le] at h
  have hval : x.toNat = 48 ∨ x.toNat = 49 ∨ x.toNat = 50 ∨ x.toNat = 51 ∨ x.toNat = 52 ∨
      x.toNat = 53 ∨ x.toNat = 54 ∨ x.toNat = 55 := by
    simp only [Char.reduceVal, UInt32.reduceToNat, Char.toNat_val] at h
    omega
  have hx := Char.ofNat_toNat x
  rcases hval with hv | hv | hv | hv | hv | hv | hv | hv <;> rw [hv] at hx <;> rw [← hx] <;> decide

/-- No octal digit begins a symbol, but all can stand inside one. -/
theorem isSymbolStart_of_isOctalDigit {x : Char} (h : isOctalDigit x = true) :
    isSymbolStart x = false ∧ isSymbolChar x = true := by
  have hall : ['0', '1', '2', '3', '4', '5', '6', '7'].all
      (fun x => !isSymbolStart x && isSymbolChar x) = true := rfl
  have hx := List.all_eq_true.1 hall x (mem_of_isOctalDigit h)
  simpa using hx

theorem isOctalDigit_of_not_isSymbolChar {x : Char} (h : isSymbolChar x = false) :
    isOctalDigit x = false := by
  rw [← Bool.not_eq_true]
  intro hx
  rw [(isSymbolStart_of_isOctalDigit hx).2] at h
  cases h

theorem mem_delimiters_iff {x : Char} {k : Kind} :
    (x, k) ∈ delimiters ↔ Kind.ofDelimiter? x = some k := by
  constructor
  · intro h
    simp only [delimiters, List.mem_cons, Prod.mk.injEq, List.not_mem_nil, or_false] at h
    rcases h with ⟨rfl, rfl⟩ | ⟨rfl, rfl⟩ | ⟨rfl, rfl⟩ | ⟨rfl, rfl⟩ | ⟨rfl, rfl⟩ | ⟨rfl, rfl⟩ |
      ⟨rfl, rfl⟩ | ⟨rfl, rfl⟩ <;> rfl
  · intro h
    unfold Kind.ofDelimiter? at h
    split at h <;> cases h <;> simp [delimiters]

/-- No character of a symbol or a literal is a token by itself. -/
theorem not_mem_delimiters {x : Char} (h : isSymbolChar x = true) (k : Kind) :
    (x, k) ∉ delimiters := by
  intro hx
  simp only [delimiters, List.mem_cons, Prod.mk.injEq, List.not_mem_nil, or_false] at hx
  rcases hx with ⟨rfl, -⟩ | ⟨rfl, -⟩ | ⟨rfl, -⟩ | ⟨rfl, -⟩ | ⟨rfl, -⟩ | ⟨rfl, -⟩ | ⟨rfl, -⟩ |
    ⟨rfl, -⟩ <;> simp [isSymbolChar, Char.isAlphanum] at h

theorem ofDelimiter?_eq_none {x : Char} (h : ∀ k, (x, k) ∉ delimiters) :
    Kind.ofDelimiter? x = none :=
  Option.eq_none_iff_forall_ne_some.2 fun k hk => h k (mem_delimiters_iff.2 hk)

namespace Lexeme

/-! ### Existence -/

theorem exists_leads_string (t : Text) :
    ∃ l rest, Leads l rest ∧ '"' :: t = l.span ++ rest := by
  by_cases hq : '"' ∈ t
  · obtain ⟨body, rest, rfl, hbody⟩ := List.eq_append_cons_of_mem hq
    exact ⟨_, rest, .string rest hbody, by simp⟩
  · exact ⟨_, [], .openString hq, by simp⟩

theorem exists_leads (x : Char) (t : Text) : ∃ l rest, Leads l rest ∧ x :: t = l.span ++ rest := by
  by_cases hd : ∃ k, (x, k) ∈ delimiters
  · obtain ⟨k, hk⟩ := hd
    exact ⟨_, t, .delimiter t hk, rfl⟩
  by_cases hs : isSymbolStart x = true
  · have hx := isSymbolChar_of_isSymbolStart hs
    have hlong := Run.longest_takeWhile isSymbolChar (x :: t)
    rw [List.takeWhile_cons_of_pos hx, List.dropWhile_cons_of_pos hx] at hlong
    exact ⟨_, _, .symbol hs hlong, by simp⟩
  by_cases ho : isOctalDigit x = true
  · have hlong := Run.longest_takeWhile isOctalDigit (x :: t)
    rw [List.takeWhile_cons_of_pos ho, List.dropWhile_cons_of_pos ho] at hlong
    exact ⟨_, _, .literal hlong, by simp⟩
  by_cases hq : x = '"'
  · subst hq
    exact exists_leads_string t
  · refine ⟨_, t, .invalid t (fun k hk => hd ⟨k, hk⟩) ?_ ?_ hq, rfl⟩
    · exact Bool.eq_false_iff.2 hs
    · exact Bool.eq_false_iff.2 ho

namespace Leads

variable {l : Lexeme} {rest : Text}

theorem span_ne_nil (h : Leads l rest) : l.span ≠ [] := by
  cases h with
  | literal _ => simp
  | _ => exact List.cons_ne_nil _ _

/-! ### Reading -/

private theorem head_append {p : Char → Bool} {b : Text} (hb : ∀ x ∈ b.head?, p x = false)
    (hstop : ∀ x ∈ rest.head?, p x = false) : ∀ x ∈ (rest ++ b).head?, p x = false := by
  cases rest with
  | nil => exact hb
  | cons y t => exact hstop

private theorem read_quote (t : Text) : read '"' t = readString t := rfl

private theorem read_string {body : Text} (hb : '"' ∉ body) (t : Text) :
    read '"' (body ++ (['"'] ++ t)) = (⟨.string, .text body, '"' :: (body ++ ['"'])⟩, t) := by
  have htake : (body ++ (['"'] ++ t)).takeWhile (· != '"') = body :=
    (Run.takeWhile_of_notMem hb _).trans (List.append_nil body)
  have hdrop : (body ++ (['"'] ++ t)).dropWhile (· != '"') = '"' :: t :=
    Run.dropWhile_of_notMem hb _
  simp only [read_quote, readString, htake, hdrop]
  rfl

private theorem read_openString {body : Text} (hb : '"' ∉ body) :
    read '"' (body ++ [' ']) = (⟨.error, .text ('"' :: body), '"' :: body⟩, [' ']) := by
  have hdrop : (body ++ [' ']).dropWhile (· != '"') = [] := Run.dropWhile_of_notMem hb _
  have hlast : (body ++ [' ']).drop ((body ++ [' ']).length - 1) = [' '] := by
    rw [List.length_append, List.length_singleton, Nat.add_sub_cancel, List.drop_left]
  simp only [read_quote, readString, hdrop, hlast, List.dropLast_concat]

/-- A text is read as the lexeme that it begins with, whatever ends the text behind it: a blank, or
nothing unless the lexeme is a string literal that is never closed. -/
theorem read_append (h : Leads l rest) {b : Text} (hb : ∀ x ∈ b.head?, isSymbolChar x = false)
    (hopen : ∀ body, l = ⟨.error, .text ('"' :: body), '"' :: body⟩ → b = [' ']) {x : Char}
    {t : Text} (ht : l.span ++ (rest ++ b) = x :: t) : read x t = (l, rest ++ b) := by
  cases h with
  | delimiter _ hx =>
    rw [List.singleton_append] at ht
    obtain ⟨rfl, rfl⟩ := List.cons.inj ht
    simp only [read, mem_delimiters_iff.1 hx]
  | symbol hx h =>
    rw [List.cons_append] at ht
    obtain ⟨rfl, rfl⟩ := List.cons.inj ht
    obtain ⟨hrun, hstop⟩ := Run.longest_iff.1 h
    have hw : Run isSymbolChar _ (rest ++ b) := Run.of_cons hrun
    have hstop' := head_append hb hstop
    have hnone := ofDelimiter?_eq_none (not_mem_delimiters (isSymbolChar_of_isSymbolStart hx))
    simp only [read, hnone, hx, if_true, hw.takeWhile_append hstop', hw.dropWhile_append hstop']
  | literal h =>
    rw [span_ofDigits, List.cons_append] at ht
    obtain ⟨rfl, rfl⟩ := List.cons.inj ht
    obtain ⟨hrun, hstop⟩ := Run.longest_iff.1 h
    have hx := hrun _ List.mem_cons_self
    have hw : Run isOctalDigit _ (rest ++ b) := Run.of_cons hrun
    have hstop' := head_append (fun y hy => isOctalDigit_of_not_isSymbolChar (hb y hy)) hstop
    have hnone := ofDelimiter?_eq_none (not_mem_delimiters (isSymbolStart_of_isOctalDigit hx).2)
    simp only [read, hnone, (isSymbolStart_of_isOctalDigit hx).1, hx, if_true, Bool.false_eq_true,
      if_false, hw.takeWhile_append hstop', hw.dropWhile_append hstop']
  | string _ hbody =>
    rw [List.cons_append, List.append_assoc] at ht
    obtain ⟨rfl, rfl⟩ := List.cons.inj ht
    exact read_string hbody (rest ++ b)
  | openString hbody =>
    obtain rfl := hopen _ rfl
    rw [List.cons_append] at ht
    obtain ⟨rfl, rfl⟩ := List.cons.inj ht
    exact read_openString hbody
  | invalid _ hd hs ho hq =>
    rw [List.singleton_append] at ht
    obtain ⟨rfl, rfl⟩ := List.cons.inj ht
    simp only [read, ofDelimiter?_eq_none hd, hs, ho, hq, Bool.false_eq_true, if_false]
    rfl

/-- A text that is ended by a blank is read as the lexeme that it begins with, and the blank is
left. -/
theorem read_eq (h : Leads l rest) {x : Char} {t : Text} (ht : l.span ++ (rest ++ [' ']) = x :: t) :
    read x t = (l, rest ++ [' ']) :=
  h.read_append (by simp [isSymbolChar, Char.isAlphanum]) (fun _ _ => rfl) ht

/-- A text begins with only one lexeme. -/
theorem unique {l' : Lexeme} {rest' : Text} (h : Leads l rest) (h' : Leads l' rest')
    (happ : l.span ++ rest = l'.span ++ rest') : l = l' ∧ rest = rest' := by
  obtain ⟨x, t, ht⟩ := List.exists_cons_of_ne_nil h.span_ne_nil
  have hread := h.read_eq (x := x) (t := t ++ (rest ++ [' '])) (by rw [ht]; rfl)
  have happ' : l'.span ++ (rest' ++ [' ']) = x :: (t ++ (rest ++ [' '])) := by
    rw [← List.append_assoc, ← happ, ht]
    simp
  rw [h'.read_eq happ', Prod.mk.injEq] at hread
  exact ⟨hread.1.symm, List.append_cancel_right hread.2.symm⟩

end Leads

end Lexeme

end OctalScan
