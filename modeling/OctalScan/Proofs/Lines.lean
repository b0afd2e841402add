import OctalScan.Lexer
import OctalScan.Proofs.Place

/-!
# Lines

A text that is cut at its newlines has the line around an offset at the place that the newlines
before the offset count (`Text.getElem?_lines`), and the offset is in that line where a reader finds
it for whom every newline counts (`Cursor.place_eq`).
-/

namespace OctalScan

namespace Text

/-- The part of the line around an offset that is before the offset. -/
def lineStart (t : Text) (o : Nat) : Text := ((t.take o).reverse.takeWhile (· != '\n')).reverse

/-- The line around an offset: the longest stretch without newlines that reaches it from both
sides. -/
def lineAround (t : Text) (o : Nat) : Text := lineStart t o ++ (t.drop o).takeWhile (· != '\n')

variable {t : Text} {o : Nat} {x : Char}

/-! ### Cutting at newlines -/

theorem lines_append_newline (a b : Text) : lines (a ++ '\n' :: b) = lines a ++ lines b :=
  List.splitOn_append_cons_self a b

theorem lines_of_notMem (h : '\n' ∉ t) : lines t = [t] := List.splitOn_eq_singleton h

theorem length_lines (t : Text) : (lines t).length = t.count '\n' + 1 := by
  induction t with
  | nil => rfl
  | cons x t ih =>
    by_cases hx : x = '\n'
    · subst hx
      have hcut := lines_append_newline [] t
      rw [List.nil_append] at hcut
      rw [hcut, List.length_append, ih, List.count_cons_self, Nat.add_comm]
      rfl
    · have hcut := List.splitOn_cons_eq_if_modifyHead (a := '\n') x t
      rw [if_neg (by simpa using hx)] at hcut
      rw [lines, hcut, List.length_modifyHead, List.count_cons_of_ne hx]
      exact ih

/-- What follows a text without newlines only reaches into its line as far as the next newline. -/
theorem getElem?_lines_append {a : Text} (h : '\n' ∉ a) (b : Text) :
    (lines (a ++ b))[0]? = some (a ++ b.takeWhile (· != '\n')) := by
  by_cases hb : '\n' ∈ b
  · obtain ⟨c, d, rfl, hc⟩ := List.eq_append_cons_of_mem hb
    have hac : '\n' ∉ a ++ c := by simp [h, hc]
    rw [Run.takeWhile_of_notMem hc, ← List.append_assoc, lines_append_newline, lines_of_notMem hac]
    simp
  · have hab : '\n' ∉ a ++ b := by simp [h, hb]
    have htake := Run.takeWhile_of_notMem hb []
    rw [List.append_nil] at htake
    rw [lines_of_notMem hab, htake]
    simp

/-! ### The line around an offset -/

theorem newline_notMem_lineStart (t : Text) (o : Nat) : '\n' ∉ lineStart t o := by
  intro h
  have := List.all_eq_true.1 List.all_takeWhile _ (List.mem_reverse.1 h)
  simp at this

/-- The line around an offset begins at the start of the text or behind a newline. -/
theorem take_eq (t : Text) (o : Nat) :
    t.take o = lineStart t o ∨ ∃ a, t.take o = a ++ '\n' :: lineStart t o := by
  by_cases h : '\n' ∈ t.take o
  · obtain ⟨b, a, happ, hb⟩ := List.eq_append_cons_of_mem (List.mem_reverse.2 h)
    have htake := Run.takeWhile_of_notMem hb ('\n' :: a)
    rw [← happ] at htake
    have hstart : lineStart t o = b.reverse := by
      rw [lineStart, htake]
      simp
    refine Or.inr ⟨a.reverse, ?_⟩
    rw [hstart, ← List.reverse_reverse (t.take o), happ]
    simp
  · have htake := Run.takeWhile_of_notMem (mt List.mem_reverse.1 h) []
    rw [List.append_nil] at htake
    rw [lineStart, htake]
    simp

/-- The line around an offset has as many lines above it as there are newlines before the
offset. -/
theorem getElem?_lines_count (t : Text) (o : Nat) :
    (lines t)[(t.take o).count '\n']? = some (lineAround t o) := by
  have hstart := newline_notMem_lineStart t o
  have hfirst := getElem?_lines_append hstart (t.drop o)
  have happ := List.take_append_drop o t
  rcases take_eq t o with htake | ⟨a, htake⟩
  · rw [htake] at happ ⊢
    rw [happ] at hfirst
    rw [List.count_eq_zero.2 hstart]
    exact hfirst
  · rw [htake, List.append_assoc, List.cons_append] at happ
    have hlines := congrArg lines happ
    rw [lines_append_newline] at hlines
    have hcount : (t.take o).count '\n' = (lines a).length := by
      rw [htake, List.count_append, List.count_cons_self, List.count_eq_zero.2 hstart, length_lines]
    rw [← hlines, hcount, List.getElem?_append_right (Nat.le_refl _), Nat.sub_self]
    exact hfirst

theorem getElem?_lineAround (hx : t[o]? = some x) (hne : x ≠ '\n') :
    (lineAround t o)[(lineStart t o).length]? = some x := by
  obtain ⟨ho, hget⟩ := List.getElem?_eq_some_iff.1 hx
  have hdrop : t.drop o = x :: t.drop (o + 1) := by rw [List.drop_eq_getElem_cons ho, hget]
  rw [lineAround, List.getElem?_append_right (Nat.le_refl _), Nat.sub_self, hdrop,
    List.takeWhile_cons_of_pos (by simpa using hne)]
  rfl

theorem lineStart_succ_of_newline (hx : t[o]? = some '\n') : lineStart t (o + 1) = [] := by
  rw [lineStart, List.take_add_one, hx]
  simp

theorem lineStart_succ (hx : t[o]? = some x) (hne : x ≠ '\n') :
    lineStart t (o + 1) = lineStart t o ++ [x] := by
  rw [lineStart, List.take_add_one, hx]
  simp [hne, lineStart]

end Text

/-- A reader for whom every newline counts finds each offset in the line around it. -/
theorem Cursor.place_newlines (t : Text) {o : Nat} (ho : o ≤ t.length) :
    place (fun i => t[i]? = some '\n') o =
      ⟨o, 1 + ((t.take o).count '\n' : Nat), (Text.lineStart t o).length⟩ := by
  induction o with
  | zero => rfl
  | succ o ih =>
    have hget : t[o]? = some t[o] := List.getElem?_eq_getElem ho
    have hih := ih (Nat.le_of_succ_le ho)
    by_cases hx : t[o] = '\n'
    · rw [hx] at hget
      rw [place_succ_of_newline (decide_eq_true hget), hih, Text.lineStart_succ_of_newline hget,
        List.take_add_one, hget, List.count_append]
      simp only [nextLine, Option.toList_some, List.count_singleton_self, List.length_nil,
        Cursor.mk.injEq, true_and]
      omega
    · have hne : decide (t[o]? = some '\n') = false := by simp [hget, hx]
      rw [place_succ_of_not_newline hne, hih, Text.lineStart_succ hget hx, List.take_add_one, hget,
        List.count_append]
      simp [right, hx]

end OctalScan
