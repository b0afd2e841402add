import OctalScan.Cursor

/-!
# Gaps

What stands between two words of a source: spaces, tabs and comments. `Gap` says which texts are
gaps, without saying how they are found, and `Longest` picks the one that leaves no gap behind.
Every text begins with exactly one longest gap (`exists_longest_gap`), and it is the one that a
cursor skips (`Cursor.skipGap_of_longest`).
-/

namespace OctalScan

/-- `Longest P w rest` says that `w` satisfies `P` in front of `rest`, and that no longer front of
the same text does. -/
def Longest (P : Text → Text → Prop) (w rest : Text) : Prop :=
  P w rest ∧ ∀ w' rest', w' ++ rest' = w ++ rest → P w' rest' → w'.length ≤ w.length

/-- A text has at most one longest front of a kind. -/
theorem Longest.unique {P : Text → Text → Prop} {w rest w' rest' : Text} (h : Longest P w rest)
    (h' : Longest P w' rest') (happ : w ++ rest = w' ++ rest') : w = w' ∧ rest = rest' := by
  have h₁ := h'.2 w rest happ h.1
  have h₂ := h.2 w' rest' happ.symm h'.1
  exact List.append_inj happ (Nat.le_antisymm h₁ h₂)

/-- A run of spaces, tabs and comments in front of a text. A comment runs from a semicolon to the
next newline, which belongs to it, or to the end of the text if there is none. -/
inductive Gap : Text → Text → Prop
  | nil (rest : Text) : Gap [] rest
  | blank {x : Char} {g rest : Text} (hx : x = ' ' ∨ x = '\t') (h : Gap g rest) :
      Gap (x :: g) rest
  | comment {body g rest : Text} (hb : '\n' ∉ body) (h : Gap g rest) :
      Gap (';' :: (body ++ '\n' :: g)) rest
  | openComment {body : Text} (hb : '\n' ∉ body) : Gap (';' :: body) []

def startsGap (x : Char) : Bool := x = ' ' || x = '\t' || x = ';'

namespace Cursor

@[simp] theorem advance_nil (c : Cursor) : c.advance [] = c := rfl

@[simp] theorem advance_cons (c : Cursor) (x : Char) (g : Text) :
    c.advance (x :: g) = (c.step x).advance g := rfl

theorem advance_append (c : Cursor) (g g' : Text) :
    c.advance (g ++ g') = (c.advance g).advance g' := List.foldl_append

@[simp] theorem offset_step (c : Cursor) (x : Char) : (c.step x).offset = c.offset + 1 := by
  rw [step]
  split <;> rfl

@[simp] theorem offset_advance (c : Cursor) (g : Text) :
    (c.advance g).offset = c.offset + g.length := by
  induction g generalizing c with
  | nil => rfl
  | cons x g ih =>
    rw [advance_cons, ih, offset_step, List.length_cons]
    omega

/-- Inside a comment everything up to the newline is skipped. -/
theorem skipGap_comment {body : Text} (hb : '\n' ∉ body) (c : Cursor) (t : Text) :
    skipGap true c (body ++ '\n' :: t) = skipGap false (c.advance (body ++ ['\n'])) t := by
  induction body generalizing c with
  | nil => simp [skipGap]
  | cons x body ih =>
    obtain ⟨hx, hbody⟩ := List.ne_and_not_mem_of_not_mem_cons hb
    have hgo : (x != '\n') = true := bne_iff_ne.2 hx.symm
    rw [List.cons_append, skipGap, if_pos rfl, hgo]
    exact ih hbody (c.step x)

theorem skipGap_openComment {body : Text} (hb : '\n' ∉ body) (c : Cursor) :
    skipGap true c body = (c.advance body, []) := by
  induction body generalizing c with
  | nil => rfl
  | cons x body ih =>
    obtain ⟨hx, hbody⟩ := List.ne_and_not_mem_of_not_mem_cons hb
    have hgo : (x != '\n') = true := bne_iff_ne.2 hx.symm
    rw [skipGap, if_pos rfl, hgo]
    exact ih hbody (c.step x)

/-- Skipping can be done in two parts: first over a gap, then over what is left of it. -/
theorem skipGap_append {g rest : Text} (h : Gap g rest) (c : Cursor) :
    skipGap false c (g ++ rest) = skipGap false (c.advance g) rest := by
  induction h generalizing c with
  | nil rest => rfl
  | blank hx _ ih =>
    rw [List.cons_append, skipGap, if_neg Bool.false_ne_true, if_pos (by simpa using hx)]
    exact ih _
  | @comment body g rest hb _ ih =>
    have hskip := skipGap_comment hb (c.step ';') (g ++ rest)
    have hadv : (c.step ';').advance (body ++ '\n' :: g)
        = ((c.step ';').advance (body ++ ['\n'])).advance g := by
      rw [← advance_append, List.append_assoc, List.singleton_append]
    rw [advance_cons, hadv, ← ih, ← hskip]
    simp [skipGap]
  | openComment hb =>
    have hskip := skipGap_openComment hb (c.step ';')
    simpa [skipGap] using hskip

theorem skipGap_of_not_startsGap {rest : Text} (h : ∀ x ∈ rest.head?, startsGap x = false)
    (c : Cursor) : skipGap false c rest = (c, rest) := by
  cases rest with
  | nil => rfl
  | cons x t =>
    have hx := h x rfl
    simp only [startsGap, Bool.or_eq_false_iff, decide_eq_false_iff_not] at hx
    rw [skipGap, if_neg Bool.false_ne_true, if_neg (by simpa using hx.1), if_neg hx.2]

end Cursor

namespace Gap

/-- Every text begins with a gap after which no further gap begins. -/
theorem exists_append (t : Text) :
    ∃ g rest, t = g ++ rest ∧ Gap g rest ∧ ∀ x ∈ rest.head?, startsGap x = false := by
  match t with
  | [] => exact ⟨[], [], rfl, .nil [], by simp⟩
  | x :: t =>
    by_cases hx : x = ' ' ∨ x = '\t'
    · obtain ⟨g, rest, rfl, hg, hstop⟩ := exists_append t
      exact ⟨x :: g, rest, rfl, .blank hx hg, hstop⟩
    by_cases hc : x = ';'
    · subst hc
      by_cases hn : '\n' ∈ t
      · obtain ⟨body, t', rfl, hbody⟩ := List.eq_append_cons_of_mem hn
        obtain ⟨g, rest, rfl, hg, hstop⟩ := exists_append t'
        exact ⟨';' :: (body ++ '\n' :: g), rest, by simp, .comment hbody hg, hstop⟩
      · exact ⟨';' :: t, [], by simp, .openComment hn, by simp⟩
    · refine ⟨[], x :: t, rfl, .nil _, ?_⟩
      simp only [not_or] at hx
      simp [startsGap, hx, hc]
termination_by t.length

/-- A gap after which no gap begins is the longest. -/
theorem longest {g rest : Text} (h : Gap g rest) (hstop : ∀ x ∈ rest.head?, startsGap x = false) :
    Longest Gap g rest := by
  refine ⟨h, fun g' rest' happ h' => ?_⟩
  -- skipping does not depend on how the text is cut, so it goes past `g'` but no further than `g`
  have hskip : (Cursor.skipGap false .start (g' ++ rest')).2 = rest := by
    rw [happ, Cursor.skipGap_append h, Cursor.skipGap_of_not_startsGap hstop]
  rw [Cursor.skipGap_append h'] at hskip
  have hle := Cursor.length_skipGap_le false (Cursor.start.advance g') rest'
  rw [hskip] at hle
  have hlen := congrArg List.length happ
  simp only [List.length_append] at hlen
  omega

end Gap

theorem exists_longest_gap (t : Text) : ∃ g rest, t = g ++ rest ∧ Longest Gap g rest := by
  obtain ⟨g, rest, rfl, hg, hstop⟩ := Gap.exists_append t
  exact ⟨g, rest, rfl, hg.longest hstop⟩

/-- A gap is the longest exactly if no gap begins after it. -/
theorem longest_gap_iff {g rest : Text} :
    Longest Gap g rest ↔ Gap g rest ∧ ∀ x ∈ rest.head?, startsGap x = false := by
  constructor
  · intro h
    obtain ⟨g', rest', happ, hg', hstop⟩ := Gap.exists_append (g ++ rest)
    obtain ⟨rfl, rfl⟩ := h.unique (hg'.longest hstop) happ
    exact ⟨h.1, hstop⟩
  · rintro ⟨h, hstop⟩
    exact h.longest hstop

/-- The gap that a cursor skips is the longest one. -/
theorem Cursor.skipGap_of_longest {g rest : Text} (h : Longest Gap g rest) (c : Cursor) :
    skipGap false c (g ++ rest) = (c.advance g, rest) := by
  obtain ⟨hg, hstop⟩ := longest_gap_iff.1 h
  rw [skipGap_append hg, skipGap_of_not_startsGap hstop]

end OctalScan
