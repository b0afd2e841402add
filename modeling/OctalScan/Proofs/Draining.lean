import OctalScan.Proofs.Decomposition

/-!
# Draining

A lexer lists all its steps in one pass, while a parser asks for one token at a time. The two agree:
`Lexer.stop l i` is the cursor behind the `i`-th token of a drain, and asking there for the next
token yields the next one of the drain and moves to the next stop (`Lexer.next_stop`). The last stop
is behind the last gap, and the lexer stays there.
-/

namespace OctalScan

/-- A reading takes a front of the text, and moves the cursor by its length. -/
theorem Reading.exists_append {file : Text} {c : Cursor} {t : Text} {r : Reading}
    (h : first file c t = .ok r) :
    ∃ used, t = used ++ r.rest ∧ r.cursor.offset = c.offset + used.length := by
  obtain ⟨gap, hgap, hmove⟩ := Cursor.exists_gap_append false c t
  rw [first] at h
  split at h
  · cases h
  · next c' x t' hs =>
    cases h
    rw [hs] at hgap hmove
    refine ⟨gap ++ (Lexeme.read x t').1.span, ?_, ?_⟩
    · rw [List.append_assoc, Lexeme.span_append_rest]
      exact hgap
    · simp only at hmove ⊢
      rw [Cursor.offset_past Lexeme.span_read_of_newline, hmove, Cursor.offset_advance,
        List.length_append, Nat.add_assoc]

theorem Reading.offset_of_error {file : Text} {c c' : Cursor} {t : Text}
    (h : first file c t = .error c') : c'.offset = c.offset + t.length := by
  obtain ⟨gap, hgap, hmove⟩ := Cursor.exists_gap_append false c t
  rw [first] at h
  split at h
  · next c'' hs =>
    cases h
    rw [hs] at hgap hmove
    rw [List.append_nil] at hgap
    rw [hgap, ← Cursor.offset_advance]
    exact congrArg Cursor.offset hmove
  · cases h

namespace Lexer

/-! ### One token at a time -/

@[simp] theorem moveTo_moveTo (l : Lexer) (c c' : Cursor) : (l.moveTo c).moveTo c' = l.moveTo c' :=
  rfl

@[simp] theorem moveTo_cursor (l : Lexer) : l.moveTo l.cursor = l := rfl

@[simp] theorem cursor_moveTo (l : Lexer) (c : Cursor) : (l.moveTo c).cursor = c := rfl

theorem next_of_error {l : Lexer} {c : Cursor}
    (h : Reading.first l.file l.cursor l.remaining = .error c) : l.next = (none, l.moveTo c) := by
  rw [next, h]

theorem next_of_ok {l : Lexer} {r : Reading}
    (h : Reading.first l.file l.cursor l.remaining = .ok r) :
    l.next = (some r.token, l.moveTo r.cursor) := by
  rw [next, h]

/-- Reading on only moves the cursor. -/
theorem moveTo_of_next {l l' : Lexer} {t : Option Token} (h : l.next = (t, l')) (c : Cursor) :
    l.moveTo c = l'.moveTo c := by
  cases hr : Reading.first l.file l.cursor l.remaining with
  | error c =>
    rw [next_of_error hr] at h
    cases h
    rfl
  | ok r =>
    rw [next_of_ok hr] at h
    cases h
    rfl

/-- What is left after a reading is what remains at the cursor behind it. -/
theorem remaining_of_ok {l : Lexer} {r : Reading}
    (h : Reading.first l.file l.cursor l.remaining = .ok r) :
    (l.moveTo r.cursor).remaining = r.rest := by
  obtain ⟨used, happ, hoff⟩ := Reading.exists_append h
  calc (l.moveTo r.cursor).remaining
      = l.buffer.drop r.cursor.offset := rfl
    _ = l.remaining.drop used.length := by rw [hoff, remaining, List.drop_drop]
    _ = r.rest := by rw [happ, List.drop_left]

theorem steps_of_next_some {l l' : Lexer} {t : Token} (h : l.next = (some t, l')) :
    l.steps = ⟨t, l'.cursor⟩ :: l'.steps ∧ l.drain.2 = l'.drain.2 := by
  cases hr : Reading.first l.file l.cursor l.remaining with
  | error c =>
    rw [next_of_error hr] at h
    cases h
  | ok r =>
    rw [next_of_ok hr] at h
    cases h
    have hall := Step.all_eq l.file l.cursor l.remaining
    simp only [hr] at hall
    rw [← remaining_of_ok hr] at hall
    constructor
    · exact congrArg Prod.fst hall
    · exact congrArg (fun a => l.moveTo a.2) hall

theorem steps_of_next_none {l l' : Lexer} (h : l.next = (none, l')) :
    l.steps = [] ∧ l.drain.2 = l' := by
  cases hr : Reading.first l.file l.cursor l.remaining with
  | error c =>
    rw [next_of_error hr] at h
    cases h
    have hall := Step.all_eq l.file l.cursor l.remaining
    simp only [hr] at hall
    constructor
    · exact congrArg Prod.fst hall
    · exact congrArg (fun a => l.moveTo a.2) hall
  | ok r =>
    rw [next_of_ok hr] at h
    cases h

theorem drain_fst (l : Lexer) : l.drain.1 = l.steps.map Step.token := rfl

theorem mem_drain {l : Lexer} {st : Step} (h : st ∈ l.steps) : st.token ∈ l.drain.1 :=
  List.mem_map_of_mem h

theorem exists_of_mem_drain {l : Lexer} {t : Token} (h : t ∈ l.drain.1) :
    ∃ st ∈ l.steps, st.token = t := List.mem_map.1 h

/-- Behind the last gap there is nothing left, and the lexer stays there. -/
theorem next_of_next_none {l l' : Lexer} (h : l.next = (none, l')) : l'.next = (none, l') := by
  cases hr : Reading.first l.file l.cursor l.remaining with
  | error c =>
    rw [next_of_error hr] at h
    cases h
    have hrem : (l.moveTo c).remaining = [] := by
      refine List.drop_eq_nil_of_le ?_
      have hoff := Reading.offset_of_error hr
      rw [remaining, List.length_drop] at hoff
      have hbuffer : (l.moveTo c).buffer = l.buffer := rfl
      rw [cursor_moveTo, hbuffer, hoff]
      omega
    have herr : Reading.first l.file c (l.moveTo c).remaining = .error c := by rw [hrem]; rfl
    exact next_of_error herr
  | ok r =>
    rw [next_of_ok hr] at h
    cases h

/-! ### Stops -/

/-- Where a drain is when it has yielded a number of tokens: at first where it begins, and then
behind the token with that number. Beyond the last token it is behind the last gap. -/
def stop (l : Lexer) : Nat → Cursor
  | 0 => l.cursor
  | i + 1 => (l.steps[i]?.map Step.cursor).getD l.drain.2.cursor

theorem stop_succ_of_getElem? {l : Lexer} {i : Nat} {s : Step} (h : l.steps[i]? = some s) :
    l.stop (i + 1) = s.cursor := by
  rw [stop, h]
  rfl

theorem stop_of_length_lt {l : Lexer} {i : Nat} (h : l.drain.1.length < i) :
    l.stop i = l.drain.2.cursor := by
  rw [drain_fst, List.length_map] at h
  obtain ⟨j, rfl⟩ := Nat.exists_eq_add_of_lt h
  rw [stop, List.getElem?_eq_none (Nat.le_add_right _ _)]
  rfl

theorem stop_succ_of_next_some {l l' : Lexer} {t : Token} (h : l.next = (some t, l')) (i : Nat) :
    l.stop (i + 1) = l'.stop i := by
  obtain ⟨hsteps, hdrain⟩ := steps_of_next_some h
  cases i with
  | zero => exact stop_succ_of_getElem? (congrArg (·[0]?) hsteps)
  | succ i => rw [stop, stop, hsteps, hdrain, List.getElem?_cons_succ]

theorem stop_succ_of_next_none {l l' : Lexer} (h : l.next = (none, l')) (i : Nat) :
    l.stop (i + 1) = l'.cursor := by
  obtain ⟨hsteps, hdrain⟩ := steps_of_next_none h
  rw [stop, hsteps, hdrain]
  rfl

/-- From every stop a drain goes on as the whole drain does. -/
theorem steps_stop (l : Lexer) (i : Nat) :
    (l.moveTo (l.stop i)).steps = l.steps.drop i ∧ (l.moveTo (l.stop i)).drain.2 = l.drain.2 := by
  -- the stops of `l` behind the first are those of the lexer behind its first token
  induction i generalizing l with
  | zero => exact ⟨rfl, rfl⟩
  | succ i ih =>
    cases h : l.next with
    | mk t l' =>
      cases t with
      | none =>
        obtain ⟨hsteps, hdrain⟩ := steps_of_next_none h
        rw [stop_succ_of_next_none h, moveTo_of_next h, moveTo_cursor, hsteps, hdrain]
        exact steps_of_next_none (next_of_next_none h)
      | some t =>
        obtain ⟨hsteps, hdrain⟩ := steps_of_next_some h
        rw [stop_succ_of_next_some h, moveTo_of_next h, hsteps, hdrain]
        exact ih l'

theorem drain_stop (l : Lexer) (i : Nat) :
    (l.moveTo (l.stop i)).drain = (l.drain.1.drop i, l.drain.2) := by
  obtain ⟨hsteps, hdrain⟩ := l.steps_stop i
  refine Prod.ext ?_ hdrain
  rw [drain_fst, hsteps, drain_fst, List.map_drop]

/-- At every stop the next token is the one of the drain, and leads to the next stop. -/
theorem next_stop (l : Lexer) (i : Nat) :
    (l.moveTo (l.stop i)).next = (l.drain.1[i]?, l.moveTo (l.stop (i + 1))) := by
  obtain ⟨hsteps, hdrain⟩ := l.steps_stop i
  cases h : (l.moveTo (l.stop i)).next with
  | mk t l' =>
    have hmove : l' = l.moveTo l'.cursor := (moveTo_of_next h l'.cursor).symm
    cases t with
    | none =>
      obtain ⟨hsteps', hdrain'⟩ := steps_of_next_none h
      have hlen : l.drain.1.length ≤ i := by
        rw [drain_fst, List.length_map]
        exact List.drop_eq_nil_iff.1 (hsteps.symm.trans hsteps')
      rw [List.getElem?_eq_none hlen, stop_of_length_lt (Nat.lt_succ_of_le hlen), ← hdrain, hdrain',
        ← hmove]
    | some t =>
      have hget : l.steps[i]? = some ⟨t, l'.cursor⟩ := by
        have := (hsteps.symm.trans (steps_of_next_some h).1)
        rw [← List.head?_drop, this, List.head?_cons]
      rw [stop_succ_of_getElem? hget, ← hmove, drain_fst, List.getElem?_map, hget]
      rfl

/-- The lexer after a number of calls for the next token, whether there was one or not. -/
def after (l : Lexer) : Nat → Lexer
  | 0 => l
  | i + 1 => (l.after i).next.2

theorem after_eq (l : Lexer) (i : Nat) : l.after i = l.moveTo (l.stop i) := by
  induction i with
  | zero => rfl
  | succ i ih => rw [after, ih, next_stop]

/-- The tokens of a drain are those of the calls for the next token. -/
theorem getElem?_drain (l : Lexer) (i : Nat) : l.drain.1[i]? = (l.after i).next.1 := by
  rw [after_eq, next_stop]

end Lexer

/-! ### Where the stops are -/

namespace Lexer

theorem stop_eq_or_mem (l : Lexer) {i : Nat} (h : i ≤ l.drain.1.length) :
    l.stop i = l.cursor ∨ ∃ s ∈ l.steps, l.stop i = s.cursor := by
  cases i with
  | zero => exact Or.inl rfl
  | succ i =>
    rw [drain_fst, List.length_map] at h
    have hget := List.getElem?_eq_getElem h
    exact Or.inr ⟨_, List.getElem_mem h, stop_succ_of_getElem? hget⟩

variable (source file : Text)

/-- A drain ends behind the blank that ends the buffer. -/
theorem offset_drain_ofSource : (ofSource source file).drain.2.cursor.offset = source.length + 1 := by
  obtain ⟨ps, last, h⟩ := Decomposes.exists_of_text source
  have hlen := congrArg List.length h.text_eq
  have hfinish := Piece.offset_finish h.leads .start
  rw [List.length_append] at hlen
  rw [drain_ofSource h, cursor_moveTo, Cursor.offset_advance, hfinish, List.length_append, hlen,
    List.length_singleton]
  simp only [Cursor.start]
  omega

/-- All tokens end in the source. -/
theorem offset_le_of_mem_steps {st : Step} (hst : st ∈ (ofSource source file).steps) :
    st.cursor.offset ≤ source.length := by
  obtain ⟨ps, last, h⟩ := Decomposes.exists_of_text source
  rw [steps_ofSource h] at hst
  obtain ⟨before, p, later, rfl, rfl⟩ := Piece.mem_steps_iff.1 hst
  have hlen := congrArg List.length h.text_eq
  rw [h.offset_cursor, Piece.lexemeStart]
  simp only [List.flatMap_append, List.flatMap_cons, List.length_append, Piece.text] at hlen
  omega

theorem offset_stop_ofSource {i : Nat} (h : i ≤ (ofSource source file).drain.1.length) :
    ((ofSource source file).stop i).offset ≤ source.length := by
  rcases stop_eq_or_mem _ h with hstop | ⟨s, hs, hstop⟩
  · rw [hstop]
    exact Nat.zero_le _
  · rw [hstop]
    exact offset_le_of_mem_steps source file hs

/-- Of all stops only the last is at the end of the buffer. -/
theorem atEnd_stop_ofSource {i : Nat} (h : i ≤ (ofSource source file).drain.1.length + 1) :
    ((ofSource source file).moveTo ((ofSource source file).stop i)).atEnd =
      decide (i = (ofSource source file).drain.1.length + 1) := by
  have hbuffer : (ofSource source file).buffer.length = source.length + 1 := by
    simp [ofSource, ofBuffer]
  rw [atEnd, decide_eq_decide]
  simp only [moveTo, hbuffer]
  constructor
  · intro hle
    rcases Nat.lt_or_ge (ofSource source file).drain.1.length i with hi | hi
    · omega
    · have := offset_stop_ofSource source file hi
      omega
  · intro hi
    have hlast : ((ofSource source file).stop i).offset = source.length + 1 := by
      rw [stop_of_length_lt (by omega), offset_drain_ofSource]
    exact Nat.le_of_eq hlast.symm

end Lexer

end OctalScan
