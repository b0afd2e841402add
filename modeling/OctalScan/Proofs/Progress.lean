import OctalScan.Proofs.Draining

/-!
# Progress

A lexer makes progress from every cursor, also from one that was made by hand, in the middle of a
word or behind the end, and over every buffer, also over one without a blank at its end. A token
takes at least one character of the buffer, and without a token the lexer is at the end for good
(`Lexer.next_progress`). So a drain ends, with at most one token for each character from the cursor
on (`Lexer.length_steps_le`).
-/

namespace OctalScan

namespace Reading

variable {file t : Text} {c : Cursor}

/-- A token begins at the cursor or behind it, and has at least one character of the text. -/
theorem offset_bounds {r : Reading} (h : first file c t = .ok r) :
    c.offset ≤ r.token.offset ∧ r.token.offset < r.cursor.offset ∧
      r.cursor.offset ≤ c.offset + t.length := by
  obtain ⟨used, happ, hend⟩ := exists_append h
  have hinside : r.cursor.offset ≤ c.offset + t.length := by
    rw [hend, happ, List.length_append, ← Nat.add_assoc]
    exact Nat.le_add_right _ _
  obtain ⟨g, rest, rfl, hg⟩ := exists_longest_gap t
  simp only [first, Cursor.skipGap_of_longest hg] at h
  cases rest with
  | nil => cases h
  | cons x t' =>
    cases h
    have hpos := List.length_pos_iff.2 (Lexeme.span_ne_nil x t')
    refine ⟨?_, ?_, hinside⟩
    · calc c.offset
          ≤ c.offset + g.length := Nat.le_add_right _ _
        _ = (c.advance g).offset := (Cursor.offset_advance c g).symm
    · rw [Cursor.offset_past Lexeme.span_read_of_newline]
      exact Nat.lt_add_of_pos_right hpos

/-- There is no token exactly if the whole text is a gap. -/
theorem exists_error_iff (file : Text) (c : Cursor) (t : Text) :
    (∃ c', first file c t = .error c') ↔ Gap t [] := by
  obtain ⟨g, rest, rfl, hg⟩ := exists_longest_gap t
  simp only [first, Cursor.skipGap_of_longest hg]
  cases rest with
  | nil =>
    rw [List.append_nil]
    exact ⟨fun _ => hg.1, fun _ => ⟨_, rfl⟩⟩
  | cons x t' =>
    constructor
    · rintro ⟨c', h⟩
      cases h
    · intro hgap
      obtain ⟨-, hnil⟩ := hg.unique (hgap.longest (by simp)) (List.append_nil _).symm
      cases hnil

end Reading

namespace Lexer

variable {l l' : Lexer}

theorem buffer_of_next {t : Option Token} (h : l.next = (t, l')) : l'.buffer = l.buffer := by
  have hmove := congrArg buffer (moveTo_of_next h l'.cursor)
  exact hmove.symm

theorem length_remaining (l : Lexer) : l.remaining.length = l.buffer.length - l.cursor.offset :=
  List.length_drop

/-- A token takes characters of the buffer from the cursor on. -/
theorem offset_bounds_of_next {t : Token} (h : l.next = (some t, l')) :
    l.cursor.offset ≤ t.offset ∧ t.offset < l'.cursor.offset ∧
      l'.cursor.offset ≤ l.buffer.length := by
  cases hr : Reading.first l.file l.cursor l.remaining with
  | error c =>
    rw [next_of_error hr] at h
    cases h
  | ok r =>
    rw [next_of_ok hr] at h
    cases h
    obtain ⟨hlow, hlt, hhigh⟩ := Reading.offset_bounds hr
    refine ⟨hlow, hlt, ?_⟩
    -- as something was read, the cursor was not behind the buffer
    rw [length_remaining] at hhigh
    simp only [cursor_moveTo]
    omega

/-- Without a token the cursor moves to the end of the buffer, or stays behind it. -/
theorem offset_of_next_none (h : l.next = (none, l')) :
    l'.cursor.offset = max l.cursor.offset l.buffer.length := by
  cases hr : Reading.first l.file l.cursor l.remaining with
  | error c =>
    rw [next_of_error hr] at h
    cases h
    rw [cursor_moveTo, Reading.offset_of_error hr, length_remaining]
    omega
  | ok r =>
    rw [next_of_ok hr] at h
    cases h

theorem atEnd_of_next_none (h : l.next = (none, l')) : l'.atEnd = true := by
  apply decide_eq_true
  rw [buffer_of_next h, offset_of_next_none h]
  exact Nat.le_max_right _ _

/-- Where there is no token the lexer stays, however often it is asked. -/
theorem next_after_of_next_none (h : l.next = (none, l')) (n : Nat) :
    (l'.after n).next = (none, l') := by
  have hstay := next_of_next_none h
  have hafter : l'.after n = l' := by
    induction n with
    | zero => rfl
    | succ n ih => rw [after, ih, hstay]
  rw [hafter, hstay]

theorem next_eq_none_iff : l.next.1 = none ↔ Gap l.remaining [] := by
  rw [← Reading.exists_error_iff l.file l.cursor]
  cases hr : Reading.first l.file l.cursor l.remaining with
  | error c => simp [next_of_error hr]
  | ok r => simp [next_of_ok hr]

/-- Each token takes at least one of the characters that remain, so there are no more tokens than
characters. -/
theorem length_steps_le (l : Lexer) : l.steps.length ≤ l.buffer.length - l.cursor.offset := by
  induction hs : l.steps generalizing l with
  | nil => exact Nat.zero_le _
  | cons st ss ih =>
    cases hn : l.next with
    | mk t l' =>
      cases t with
      | none =>
        rw [(steps_of_next_none hn).1] at hs
        cases hs
      | some t =>
        rw [(steps_of_next_some hn).1] at hs
        have hrest := ih l' (List.cons.inj hs).2
        obtain ⟨hlow, hlt, hhigh⟩ := offset_bounds_of_next hn
        rw [buffer_of_next hn] at hrest
        rw [List.length_cons]
        omega

/-- Whatever the buffer and the cursor are, asking for the next token yields one that begins at the
cursor or behind it and has a character of the buffer, or the lexer reaches the end of the buffer,
or stays behind it, for good. The end is reached exactly if there is only a gap from the cursor on.
The tokens of a drain are those that are yielded one after another, and there are no more of them
than characters from the cursor on. -/
theorem next_progress (l : Lexer) :
    (match l.next with
      | (some t, l') => l' = l.moveTo l'.cursor ∧ l.cursor.offset ≤ t.offset ∧
          t.offset < l'.cursor.offset ∧ l'.cursor.offset ≤ l.buffer.length
      | (none, l') => l' = l.moveTo l'.cursor ∧
          l'.cursor.offset = max l.cursor.offset l.buffer.length ∧ l'.atEnd = true ∧
          ∀ n, (l'.after n).next = (none, l')) ∧
    (l.next.1 = none ↔ Gap l.remaining []) ∧
    (∀ i, (l.after i).next.1 = l.drain.1[i]?) ∧
    l.drain.1.length ≤ l.buffer.length - l.cursor.offset := by
  refine ⟨?_, next_eq_none_iff, fun i => (l.getElem?_drain i).symm, ?_⟩
  · cases hn : l.next with
    | mk t l' =>
      have hmove : l' = l.moveTo l'.cursor := (moveTo_of_next hn l'.cursor).symm
      cases t with
      | none =>
        exact ⟨hmove, offset_of_next_none hn, atEnd_of_next_none hn, next_after_of_next_none hn⟩
      | some t => exact ⟨hmove, offset_bounds_of_next hn⟩
  · rw [drain_fst, List.length_map]
    exact length_steps_le l

end Lexer

end OctalScan
