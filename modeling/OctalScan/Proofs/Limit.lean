import OctalScan.Inspection
import OctalScan.Proofs.Pointing

/-!
# Where an inspection stops

An inspection with a limit takes the tokens of a source up to the error token that reaches the
limit, or all tokens if none does (`Inspection.ofSource_limit`). It stores the diagnostics of just
the error tokens that it takes, so the error at which it stops is not lost. A limit below one stops
at the first error, because the collector only asks whether it is full when an error has come.

While fewer errors come than the limit allows an inspection goes on (`Inspection.onto_append`), and
the error that reaches the limit is its last step (`Inspection.onto_of_le`).
-/

namespace OctalScan

/-! ### Error tokens in a row -/

/-- A list with enough elements of a kind can be cut behind the `k`-th of them. -/
theorem exists_append_of_le_countP {α : Type} {p : α → Bool} {xs : List α} {k : Nat} (hk : 0 < k)
    (h : k ≤ xs.countP p) :
    ∃ before x later, xs = before ++ x :: later ∧ p x = true ∧ before.countP p + 1 = k := by
  induction xs generalizing k with
  | nil => exact absurd h (Nat.not_le_of_gt hk)
  | cons x xs ih =>
    by_cases hx : p x = true
    · rw [List.countP_cons_of_pos hx] at h
      by_cases hlast : k = 1
      · exact ⟨[], x, xs, rfl, hx, hlast.symm⟩
      · obtain ⟨before, y, later, rfl, hy, hcount⟩ := ih (k := k - 1) (by omega) (by omega)
        refine ⟨x :: before, y, later, rfl, hy, ?_⟩
        rw [List.countP_cons_of_pos hx]
        omega
    · rw [List.countP_cons_of_neg hx] at h
      obtain ⟨before, y, later, rfl, hy, hcount⟩ := ih hk h
      refine ⟨x :: before, y, later, rfl, hy, ?_⟩
      rw [List.countP_cons_of_neg hx, hcount]

/-- `EndsAtError k front ts` says that `front` is the beginning of `ts` that ends with the `k`-th
error token. -/
structure EndsAtError (k : Nat) (front ts : List Token) : Prop where
  begins : front <+: ts
  count : front.countP Token.isError = k
  last : ∃ t ∈ front.getLast?, t.isError = true

/-- The beginning that ends at an earlier error is the shorter one. -/
theorem EndsAtError.prefix_of_le {k : Nat} {front front' ts : List Token}
    (h : EndsAtError k front ts) (h' : front' <+: ts) (hk : k ≤ front'.countP Token.isError) :
    front <+: front' := by
  refine List.prefix_of_prefix_length_le h.begins h' (Nat.le_of_not_lt fun hlt => ?_)
  -- a shorter beginning misses the last token of `front`, and so its `k`-th error
  obtain ⟨t, ht, herror⟩ := h.last
  obtain ⟨before, rfl⟩ := List.getLast?_eq_some_iff.1 ht
  have hshort : front' <+: before := by
    refine List.prefix_of_prefix_length_le h' ((List.prefix_append _ _).trans h.begins) ?_
    rw [List.length_append, List.length_singleton] at hlt
    omega
  have hle : front'.countP Token.isError ≤ before.countP Token.isError :=
    hshort.sublist.countP_le
  have hcount := h.count
  rw [List.countP_append, List.countP_singleton, if_pos herror] at hcount
  omega

/-- No error token ends a line. -/
theorem Lexer.line_of_isError {source file : Text} {st : Step}
    (hst : st ∈ (ofSource source file).steps) (he : st.token.isError = true) :
    st.cursor.line = st.token.line := by
  obtain ⟨ps, last, h⟩ := Decomposes.exists_of_text source
  rw [steps_ofSource h] at hst
  obtain ⟨before, p, later, rfl, rfl⟩ := Piece.mem_steps_iff.1 hst
  have hk : p.lexeme.kind = .error := of_decide_eq_true he
  have hcursor : p.after (Piece.finish .start before) =
      ((Piece.finish .start before).advance p.gap).right p.lexeme.span.length := by
    rw [Piece.after, Cursor.past, hk, if_neg (by decide)]
  have hline := congrArg Cursor.line hcursor
  exact hline

namespace Inspection

/-- The failures of the error tokens among some tokens. -/
def failures (lines : Array Text) (ts : List Token) : List Failure :=
  (ts.filter Token.isError).map fun t => .lexical (.ofToken lines t)

theorem length_failures (lines : Array Text) (ts : List Token) :
    (failures lines ts).length = ts.countP Token.isError := by
  rw [failures, List.length_map, List.countP_eq_length_filter]

end Inspection

/-! ### One step and a row of steps -/

namespace Collector

variable {c : Collector}

theorem add_of_lt (h : (c.errors.size + 1 : Int) < c.limit) (e : Failure) :
    c.add e = (.ok (), { c with errors := c.errors.push e }) := by
  have hroom : ¬c.limit ≤ ((c.errors.push e).size : Int) := by
    rw [Array.size_push]
    omega
  simp only [add, isFull, hroom, decide_false, Bool.false_eq_true, if_false]

theorem add_of_le (h : c.limit ≤ (c.errors.size + 1 : Int)) (e : Failure) :
    c.add e = (.error (.limitReached c.limit), { c with errors := c.errors.push e }) := by
  have hfull : c.limit ≤ ((c.errors.push e).size : Int) := by
    rw [Array.size_push]
    omega
  simp only [add, isFull, hfull, decide_true, if_true]

end Collector

namespace Inspection

variable {lines : Array Text} {seen : Array Token} {c : Collector} {s : Step}

theorem onto_of_not_isError (hs : s.token.isError = false) (later : List Step) :
    onto lines seen c (s :: later) = onto lines (seen.push s.token) c later := by
  rw [onto, hs, if_neg Bool.false_ne_true]

theorem onto_of_lt (hs : s.token.isError = true) (h : (c.errors.size + 1 : Int) < c.limit)
    (later : List Step) :
    onto lines seen c (s :: later) = onto lines (seen.push s.token)
      { c with errors := c.errors.push (.lexical (.ofToken lines s.token)) } later := by
  rw [onto, if_pos hs, Collector.add_of_lt h]

/-- The error that reaches the limit is stored, and then the inspection stops. -/
theorem onto_of_le (hs : s.token.isError = true) (h : c.limit ≤ (c.errors.size + 1 : Int))
    (later : List Step) :
    onto lines seen c (s :: later) = ⟨(seen.push s.token).toList,
      { c with
        errors := c.errors.push (.lexical (.ofToken lines s.token))
        warnings := c.warnings.push (stopped c.limit s.cursor.line) }⟩ := by
  rw [onto, if_pos hs, Collector.add_of_le h]
  rfl

/-- As long as the limit is not reached every token is taken and every error is stored. -/
theorem onto_append (lines : Array Text) (seen : Array Token) (c : Collector) {steps : List Step}
    (h : (c.errors.size + (steps.map Step.token).countP Token.isError : Int) < max 1 c.limit)
    (later : List Step) :
    onto lines seen c (steps ++ later) = onto lines (seen ++ (steps.map Step.token).toArray)
      { c with errors := c.errors ++ (failures lines (steps.map Step.token)).toArray } later := by
  induction steps generalizing seen c with
  | nil => simp [failures]
  | cons s steps ih =>
    rw [List.map_cons] at h
    rw [List.cons_append]
    cases hs : s.token.isError with
    | false =>
      rw [List.countP_cons_of_neg (by simp [hs])] at h
      rw [onto_of_not_isError hs, ih _ _ h]
      simp [failures, hs]
    | true =>
      rw [List.countP_cons_of_pos hs] at h
      have hroom : (c.errors.size + 1 : Int) < c.limit := by omega
      rw [onto_of_lt hs hroom, ih _ _ (by simp only [Array.size_push]; omega)]
      simp [failures, hs]

/-! ### Whole inspections -/

/-- The number of the error at which an inspection with a limit stops: the limit itself, but no less
than one, as the limit is looked at only when an error has come. -/
def lastError (limit : Int) : Nat := (max 1 limit).toNat

/-- An inspection takes all tokens of a lexer, without a warning, if there are fewer errors than its
limit allows. Otherwise it stops at the error that reaches the limit, with a warning that names the
limit and the line of this error. -/
structure UpToLimit (l : Lexer) (limit : Int) (i : Inspection) : Prop where
  whole : l.drain.1.countP Token.isError < lastError limit →
    i.tokens = l.drain.1 ∧ i.collector.warnings = #[]
  stopped : lastError limit ≤ l.drain.1.countP Token.isError →
    EndsAtError (lastError limit) i.tokens l.drain.1 ∧
      ∃ t ∈ i.tokens.getLast?, i.collector.warnings = #["stopped after ".toList ++
        Text.ofInt limit ++ " errors at line ".toList ++ Text.ofInt t.line]
  errors : i.collector.errors.toList = failures l.sourceLines i.tokens

variable {source file : Text} {limit : Int}

theorem lastError_pos (limit : Int) : 0 < lastError limit := by
  rw [lastError]
  omega

/-- What an inspection has found when it has gone over a row of steps with too few errors to stop
it. -/
theorem ofSource_eq_onto {before later : List Step}
    (hsteps : (Lexer.ofSource source file).steps = before ++ later)
    (h : (before.map Step.token).countP Token.isError < lastError limit) :
    ofSource source file limit = onto (Lexer.ofSource source file).sourceLines
      (before.map Step.token).toArray
      ⟨(failures (Lexer.ofSource source file).sourceLines (before.map Step.token)).toArray, #[],
        limit⟩ later := by
  rw [lastError, Int.lt_toNat] at h
  have honto := onto_append (Lexer.ofSource source file).sourceLines #[] (.withLimit limit)
    (by simpa only [Collector.withLimit, List.size_toArray, List.length_nil, Int.natCast_zero,
      Int.zero_add] using h) later
  rw [ofSource, hsteps, honto]
  simp [Collector.withLimit]

theorem ofSource_of_lt
    (h : (Lexer.ofSource source file).drain.1.countP Token.isError < lastError limit) :
    ofSource source file limit = ⟨(Lexer.ofSource source file).drain.1,
      ⟨(failures (Lexer.ofSource source file).sourceLines
        (Lexer.ofSource source file).drain.1).toArray, #[], limit⟩⟩ := by
  rw [ofSource_eq_onto (List.append_nil _).symm h]
  rfl

/-- With enough errors an inspection ends with the step that yields the last error it may store. -/
theorem ofSource_of_le
    (h : lastError limit ≤ (Lexer.ofSource source file).drain.1.countP Token.isError) :
    ∃ before s later, (Lexer.ofSource source file).steps = before ++ s :: later ∧
      s.token.isError = true ∧
      (before.map Step.token).countP Token.isError + 1 = lastError limit ∧
      ofSource source file limit = ⟨before.map Step.token ++ [s.token],
        ⟨(failures (Lexer.ofSource source file).sourceLines
          (before.map Step.token ++ [s.token])).toArray, #[stopped limit s.cursor.line], limit⟩⟩ := by
  rw [Lexer.drain_fst, List.countP_map] at h
  obtain ⟨before, s, later, hsteps, hs, hcount⟩ :=
    exists_append_of_le_countP (lastError_pos limit) h
  replace hs : s.token.isError = true := hs
  rw [← List.countP_map] at hcount
  refine ⟨before, s, later, hsteps, hs, hcount, ?_⟩
  have hfull : limit ≤ ((failures (Lexer.ofSource source file).sourceLines
      (before.map Step.token)).length + 1 : Int) := by
    rw [length_failures]
    rw [lastError] at hcount
    omega
  rw [ofSource_eq_onto hsteps (by omega), onto_of_le hs (by simpa using hfull)]
  simp [failures, hs]

theorem upToLimit_ofSource (source file : Text) (limit : Int) :
    UpToLimit (.ofSource source file) limit (ofSource source file limit) := by
  rcases Nat.lt_or_ge ((Lexer.ofSource source file).drain.1.countP Token.isError)
    (lastError limit) with h | h
  · rw [ofSource_of_lt h]
    exact ⟨fun _ => ⟨rfl, rfl⟩, fun hle => absurd h (Nat.not_lt_of_ge hle), rfl⟩
  · obtain ⟨before, s, later, hsteps, hs, hcount, heq⟩ := ofSource_of_le h
    have hmem : s ∈ (Lexer.ofSource source file).steps := by simp [hsteps]
    have hline := Lexer.line_of_isError hmem hs
    rw [heq]
    refine ⟨fun hlt => absurd hlt (Nat.not_lt_of_ge h), fun _ => ⟨⟨?_, ?_, ?_⟩, ?_⟩, rfl⟩
    · refine ⟨later.map Step.token, ?_⟩
      rw [Lexer.drain_fst, hsteps]
      simp
    · rw [List.countP_append, List.countP_singleton, if_pos hs, hcount]
    · exact ⟨s.token, List.getLast?_concat, hs⟩
    · refine ⟨s.token, List.getLast?_concat, ?_⟩
      unfold stopped
      rw [hline]

namespace UpToLimit

variable {l : Lexer} {i i' : Inspection} {limit limit' : Int}

theorem begins (h : UpToLimit l limit i) : i.tokens <+: l.drain.1 := by
  rcases Nat.lt_or_ge (l.drain.1.countP Token.isError) (lastError limit) with hlt | hle
  · exact (h.whole hlt).1.symm ▸ List.prefix_refl _
  · exact (h.stopped hle).1.begins

theorem size_errors (h : UpToLimit l limit i) :
    i.collector.errors.size = min (l.drain.1.countP Token.isError) (lastError limit) := by
  rw [← Array.length_toList, h.errors, length_failures]
  rcases Nat.lt_or_ge (l.drain.1.countP Token.isError) (lastError limit) with hlt | hle
  · rw [(h.whole hlt).1, Nat.min_eq_left (Nat.le_of_lt hlt)]
  · rw [(h.stopped hle).1.count, Nat.min_eq_right hle]

/-- An error is reported exactly if there is one. -/
theorem hasErrors_iff (h : UpToLimit l limit i) :
    i.collector.hasErrors = true ↔ ∃ t ∈ l.drain.1, t.isError = true := by
  have hpos := lastError_pos limit
  rw [Collector.hasErrors, decide_eq_true_eq, h.size_errors, ← List.countP_pos_iff]
  omega

theorem tokens_of_le (h : UpToLimit l limit i) (h' : UpToLimit l limit' i')
    (hle : limit ≤ limit') : i.tokens <+: i'.tokens := by
  have hlast : lastError limit ≤ lastError limit' := by
    rw [lastError, lastError]
    omega
  rcases Nat.lt_or_ge (l.drain.1.countP Token.isError) (lastError limit') with hlt | hge
  · rw [(h'.whole hlt).1]
    exact h.begins
  · have hstop := (h.stopped (Nat.le_trans hlast hge)).1
    refine hstop.prefix_of_le h'.begins ?_
    rw [(h'.stopped hge).1.count]
    exact hlast

theorem errors_of_le (h : UpToLimit l limit i) (h' : UpToLimit l limit' i')
    (hle : limit ≤ limit') : i.collector.errors.toList <+: i'.collector.errors.toList := by
  rw [h.errors, h'.errors]
  exact ((h.tokens_of_le h' hle).filter _).map _

end UpToLimit

/-- An inspection takes the tokens of a source up to the error that reaches its limit, or all of
them, and stores the diagnostics of the error tokens among them. So it reports errors exactly if
there are any, and a greater limit only adds tokens and errors; and a limit that is at least one is
also the number of errors that are reported when it is reached. -/
theorem ofSource_limit (source file : Text) (limit : Int) :
    UpToLimit (.ofSource source file) limit (ofSource source file limit) ∧
    (∀ t ∈ (ofSource source file limit).tokens, t.isError = true →
      t.column + 4 ≤ Excess.memorySize →
        Diagnostic.ofErrorToken (Lexer.ofSource source file).sourceLines t =
          .ok (.ofToken (Lexer.ofSource source file).sourceLines t)) ∧
    (ofSource source file limit).collector.errors.size =
      min ((Lexer.ofSource source file).drain.1.countP Token.isError) (max 1 limit).toNat ∧
    ((ofSource source file limit).collector.hasErrors = true ↔
      ∃ t ∈ (Lexer.ofSource source file).drain.1, t.isError = true) ∧
    (∀ limit', limit ≤ limit' →
      (ofSource source file limit).tokens <+: (ofSource source file limit').tokens ∧
        (ofSource source file limit).collector.errors.toList <+:
          (ofSource source file limit').collector.errors.toList) ∧
    (1 ≤ limit → (ofSource source file limit).collector.warnings ≠ #[] →
      ((ofSource source file limit).collector.errors.size : Int) = limit) := by
  have h := upToLimit_ofSource source file limit
  refine ⟨h, fun t _ he => Diagnostic.ofErrorToken_eq_ok (of_decide_eq_true he), h.size_errors,
    h.hasErrors_iff, fun limit' hle => ?_, fun hpos hwarned => ?_⟩
  · have h' := upToLimit_ofSource source file limit'
    exact ⟨h.tokens_of_le h' hle, h.errors_of_le h' hle⟩
  · have hle : lastError limit ≤ (Lexer.ofSource source file).drain.1.countP Token.isError :=
      Nat.le_of_not_lt fun hlt => hwarned (h.whole hlt).2
    rw [h.size_errors, Nat.min_eq_right hle, lastError]
    omega

end Inspection

end OctalScan
