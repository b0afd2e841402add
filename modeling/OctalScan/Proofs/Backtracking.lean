import OctalScan.Session
import OctalScan.Proofs.Draining

/-!
# Backtracking

Whatever a parser does with a session, it never leaves the stops of one straight drain, as long as
it returns only to places that it has saved. At the `i`-th stop every way of asking for a token
gives the token that the drain yields next, and looking ahead moves nothing
(`Session.Reached.playback`). The invariant is that the cursor and all marks are stops; each action
keeps it, because a consuming action leads from a stop to the next one or to the last.
-/

namespace OctalScan

namespace Session

/-- The same session with its cursor at another place. -/
def moveTo (s : Session) (c : Cursor) : Session := { s with lexer := s.lexer.moveTo c }

/-- Whether an action leads only to places where the session has been: a cursor that is given by
hand must have been saved. The marks keep every cursor that was ever saved. -/
def Permits (s : Session) : Action → Prop
  | .moveTo c => ∃ name, (name, c) ∈ s.marks
  | _ => True

/-- The sessions that any sequence of actions leads to from the start with a lexer, when it returns
only to saved cursors. -/
inductive Reached (l : Lexer) : Session → Prop
  | start : Reached l (.start l)
  | perform {s : Session} (h : Reached l s) (a : Action) (ha : s.Permits a) :
      Reached l (s.perform a).2

/-- What the actions answer and do in a session at the `i`-th stop of a drain. Stop number
`l.drain.1.length` is behind the last token, and every later one behind the last gap. -/
structure Playback (l : Lexer) (i : Nat) (s : Session) : Prop where
  next : s.perform .next = (.token l.drain.1[i]?, s.moveTo (l.stop (i + 1)))
  peek : s.perform .peek = (.token l.drain.1[i]?, s)
  drain : s.perform .drain =
    (.tokens (l.drain.1.drop i), s.moveTo (l.stop (l.drain.1.length + 1)))
  openStream : ∀ name, s.perform (.openStream name) =
    (.done, { s with finished := (name, false) :: s.finished })
  pull : ∀ name, s.finished.lookup name = some false → s.perform (.pull name) =
    (.token l.drain.1[i]?,
      { s.moveTo (l.stop (i + 1)) with
        finished := if i < l.drain.1.length then s.finished else (name, true) :: s.finished })
  pull_finished : ∀ name, s.finished.lookup name = some true →
    s.perform (.pull name) = (.token none, s)
  save : ∀ name, s.perform (.save name) =
    (.cursor (l.stop i), { s with marks := (name, l.stop i) :: s.marks })
  returnTo : ∀ name c, s.marks.lookup name = some c →
    s.perform (.returnTo name) = (.done, s.moveTo c)
  moveTo : ∀ c, s.perform (.moveTo c) = (.done, s.moveTo c)
  atEnd : s.perform .atEnd = (.truth (decide (i = l.drain.1.length + 1)), s)
  line : s.perform .line = (.number (l.stop i).line, s)

/-- The invariant of backtracking: the cursor and all marks are stops of a drain. -/
structure AtStops (l : Lexer) (s : Session) : Prop where
  lexer : ∃ i, i ≤ l.drain.1.length + 1 ∧ s.lexer = l.moveTo (l.stop i)
  marks : ∀ m ∈ s.marks, ∃ i, i ≤ l.drain.1.length + 1 ∧ m.2 = l.stop i

variable {l : Lexer} {s : Session} {i : Nat}

/-! ### One action at a stop -/

theorem next_at_stop (h : s.lexer = l.moveTo (l.stop i)) :
    s.lexer.next = (l.drain.1[i]?, (s.moveTo (l.stop (i + 1))).lexer) := by
  rw [h, Lexer.next_stop, moveTo, h]
  rfl

theorem pull_at_stop (h : s.lexer = l.moveTo (l.stop i)) {name : Text}
    (hname : s.finished.lookup name = some false) :
    s.pull name = (.token l.drain.1[i]?,
      { s.moveTo (l.stop (i + 1)) with
        finished := if i < l.drain.1.length then s.finished else (name, true) :: s.finished }) := by
  rw [pull, hname]
  simp only [next_at_stop h]
  by_cases hi : i < l.drain.1.length
  · rw [if_pos hi, List.getElem?_eq_getElem hi]
    rfl
  · rw [if_neg hi, List.getElem?_eq_none (Nat.le_of_not_lt hi)]
    rfl

theorem playback_of_lexer_eq (h : s.lexer = l.moveTo (l.stop i))
    (hend : (l.moveTo (l.stop i)).atEnd = decide (i = l.drain.1.length + 1)) :
    Playback l i s where
  next := by rw [perform, Session.next, next_at_stop h]; rfl
  peek := by rw [perform, Lexer.peek, next_at_stop h]
  drain := by
    have hlast := Lexer.stop_of_length_lt (Nat.lt_succ_self l.drain.1.length)
    rw [perform, h, Lexer.drain_stop, hlast, moveTo, h]
    rfl
  openStream _ := rfl
  pull _ hname := pull_at_stop h hname
  pull_finished _ hname := by rw [perform, Session.pull, hname]
  save _ := by rw [perform, h]; rfl
  returnTo _ _ hname := by rw [perform, Session.returnTo, hname]; rfl
  moveTo _ := rfl
  atEnd := by rw [perform, h, hend]
  line := by rw [perform, h]; rfl

/-! ### Every sequence of actions -/

/-- To stay at stops it is enough to move to one and to keep the marks. -/
theorem AtStops.of_lexer_eq {s' : Session} (h : AtStops l s) (hmarks : s'.marks = s.marks) {j : Nat}
    (hlexer : s'.lexer = l.moveTo (l.stop j)) : AtStops l s' := by
  refine ⟨?_, hmarks ▸ h.marks⟩
  -- behind the last gap all stops are the same
  rcases Nat.lt_or_ge l.drain.1.length j with hj | hj
  · refine ⟨_, Nat.le_refl _, ?_⟩
    rw [hlexer, Lexer.stop_of_length_lt hj, Lexer.stop_of_length_lt (Nat.lt_succ_self _)]
  · exact ⟨j, Nat.le_succ_of_le hj, hlexer⟩

theorem AtStops.pull (h : AtStops l s) (name : Text) : AtStops l (s.pull name).2 := by
  obtain ⟨i, -, hi⟩ := h.lexer
  cases hname : s.finished.lookup name with
  | none =>
    rw [Session.pull, hname]
    exact h
  | some b =>
    cases b with
    | true =>
      rw [Session.pull, hname]
      exact h
    | false =>
      rw [pull_at_stop hi hname]
      exact h.of_lexer_eq rfl (j := i + 1) (by simp only [Session.moveTo, hi, Lexer.moveTo_moveTo])

theorem AtStops.returnTo (h : AtStops l s) (name : Text) : AtStops l (s.returnTo name).2 := by
  obtain ⟨i, -, hi⟩ := h.lexer
  cases hname : s.marks.lookup name with
  | none =>
    rw [Session.returnTo, hname]
    exact h
  | some c =>
    -- whatever a name stands for was saved, and so is a stop
    obtain ⟨before, behind, hmarks, -⟩ := List.lookup_eq_some_iff.1 hname
    obtain ⟨j, -, hj⟩ := h.marks (name, c) (by simp [hmarks])
    rw [Session.returnTo, hname]
    exact h.of_lexer_eq rfl (j := j) (by rw [hi, ← hj]; rfl)

/-- Every action that returns at most to a saved cursor keeps the invariant. -/
theorem AtStops.perform (h : AtStops l s) (a : Action) (ha : s.Permits a) :
    AtStops l (s.perform a).2 := by
  obtain ⟨i, hle, hi⟩ := h.lexer
  cases a with
  | next =>
    exact h.of_lexer_eq rfl (j := i + 1) (by
      simp only [Session.perform, Session.next, hi, Lexer.next_stop])
  | drain =>
    have hlast := Lexer.stop_of_length_lt (Nat.lt_succ_self l.drain.1.length)
    exact h.of_lexer_eq rfl (j := l.drain.1.length + 1) (by
      simp only [Session.perform, hi, Lexer.drain_stop, hlast]
      rfl)
  | pull name => exact h.pull name
  | returnTo name => exact h.returnTo name
  | save name =>
    refine ⟨h.lexer, fun m hm => ?_⟩
    rcases List.mem_cons.1 hm with rfl | hm
    · exact ⟨i, hle, by rw [hi]; rfl⟩
    · exact h.marks m hm
  | moveTo c =>
    obtain ⟨name, hmem⟩ := ha
    obtain ⟨j, -, hj⟩ := h.marks _ hmem
    exact h.of_lexer_eq rfl (j := j) (by rw [← hj]; simp only [Session.perform, hi]; rfl)
  | peek => exact h
  | openStream _ => exact h.of_lexer_eq rfl hi
  | atEnd => exact h
  | line => exact h

theorem Reached.atStops (h : Reached l s) : AtStops l s := by
  induction h with
  | start => exact ⟨⟨0, Nat.zero_le _, rfl⟩, by simp [Session.start]⟩
  | perform _ a ha ih => exact ih.perform a ha

/-- At whatever session a parser arrives, its cursor is at a stop of the straight drain of the
source, and at each stop every action answers and does what the drain prescribes. -/
theorem Reached.playback {source file : Text} (h : Reached (.ofSource source file) s) :
    (∃ i, i ≤ (Lexer.ofSource source file).drain.1.length + 1 ∧
      s.lexer.cursor = (Lexer.ofSource source file).stop i) ∧
    ∀ i, i ≤ (Lexer.ofSource source file).drain.1.length + 1 →
      s.lexer.cursor = (Lexer.ofSource source file).stop i →
        Playback (.ofSource source file) i s := by
  obtain ⟨i, hi, hlexer⟩ := h.atStops.lexer
  refine ⟨⟨i, hi, by rw [hlexer]; rfl⟩, fun j hj hcursor => ?_⟩
  have hstop : s.lexer = (Lexer.ofSource source file).moveTo
      ((Lexer.ofSource source file).stop j) := by
    rw [← hcursor, hlexer]
    rfl
  exact playback_of_lexer_eq hstop (Lexer.atEnd_stop_ofSource source file hj)

/-- A parser that reads a name, saves the place, drains the source and returns is behind the name
again, in front of the string. -/
theorem playback_of_returned :
    ∃ l s, l = Lexer.ofSource "x ; c\n\"a\nb\" #".toList [] ∧
      s = (((((Session.start l).perform .next).2.perform (.save ['m'])).2.perform .drain).2.perform
        (.returnTo ['m'])).2 ∧
      Reached l s ∧ s.lexer.cursor = l.stop 1 ∧ Playback l 1 s := by
  refine ⟨_, _, rfl, rfl, ?_⟩
  have hreached := Reached.perform (.perform (.perform (.perform
    (.start (l := Lexer.ofSource "x ; c\n\"a\nb\" #".toList [])) .next trivial)
    (.save ['m']) trivial) .drain trivial) (.returnTo ['m']) trivial
  have hstop := congrArg (·.2.cursor)
    (Lexer.next_stop (Lexer.ofSource "x ; c\n\"a\nb\" #".toList []) 0)
  exact ⟨hreached, hstop, hreached.playback.2 1 (Nat.le_add_left 1 _) hstop⟩

end Session

end OctalScan
