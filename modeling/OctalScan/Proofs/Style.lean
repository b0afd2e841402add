import OctalScan.Text.Style

/-!
# Style sequences and lines

Style sequences are taken out from left to right, and none reaches over a newline. So lines can be
treated one by one (`Text.unstyled_unlines`) and their number stays (`Text.count_unstyled`). A text
without an escape character passes as it is, whatever follows (`Text.unstyled_append`).
-/

namespace OctalScan.Text

/-! ### From left to right -/

theorem unstyledOnto_append (done earlier t : Text) :
    unstyledOnto (done ++ earlier) t = earlier.reverse ++ unstyledOnto done t := by
  fun_induction unstyledOnto done t with
  | case1 done => rw [unstyledOnto, List.reverse_append]
  | case2 done c t rest h ih =>
    rw [unstyledOnto]
    split
    · next rest' h' =>
      cases h.symm.trans h'
      exact ih
    · next h' => cases h.symm.trans h'
  | case3 done c t h ih =>
    rw [unstyledOnto]
    split
    · next rest' h' => cases h.symm.trans h'
    · exact ih

theorem unstyledOnto_eq (done t : Text) : unstyledOnto done t = done.reverse ++ unstyled t :=
  unstyledOnto_append [] done t

@[simp] theorem unstyled_nil : unstyled [] = [] := by simp [unstyled, unstyledOnto]

theorem unstyled_of_some {c : Char} {t rest : Text} (h : afterStyle? c t = some rest) :
    unstyled (c :: t) = unstyled rest := by
  rw [unstyled, unstyledOnto]
  split
  · next rest' h' =>
    cases h.symm.trans h'
    rfl
  · next h' => cases h.symm.trans h'

theorem unstyled_of_none {c : Char} {t : Text} (h : afterStyle? c t = none) :
    unstyled (c :: t) = c :: unstyled t := by
  rw [unstyled, unstyledOnto]
  split
  · next rest' h' => cases h.symm.trans h'
  · exact unstyledOnto_eq [c] t

theorem afterStyle?_of_ne {c : Char} (hc : c ≠ escape) (t : Text) : afterStyle? c t = none := by
  simp [afterStyle?, hc]

/-- A newline ends the parameters of a sequence, and is not the letter that completes one. -/
theorem afterStyle?_append_newline (c : Char) (t u : Text) :
    afterStyle? c (t ++ '\n' :: u) = (afterStyle? c t).map fun rest => rest ++ '\n' :: u := by
  have hparameters (t : Text) : afterParameters? (t ++ '\n' :: u) =
      (afterParameters? t).map fun rest => rest ++ '\n' :: u := by
    rw [afterParameters?, afterParameters?, List.dropWhile_append]
    cases t.dropWhile isParameter with
    | nil => rfl
    | cons x rest =>
      simp only [List.isEmpty_cons, Bool.false_eq_true, if_false, List.cons_append]
      split <;> rfl
  by_cases hc : c = escape
  · subst hc
    cases t with
    | nil => rfl
    | cons x t =>
      by_cases hx : x = '['
      · subst hx
        exact hparameters t
      · have hnone (v : Text) : afterStyle? escape (x :: v) = none := by
          unfold afterStyle?
          split
          · next h => exact absurd (List.cons.inj h).1 hx
          · rfl
        rw [List.cons_append, hnone, hnone]
        rfl
  · rw [afterStyle?_of_ne hc, afterStyle?_of_ne hc]
    rfl

theorem unstyled_append_newline (l u : Text) :
    unstyled (l ++ '\n' :: u) = unstyled l ++ '\n' :: unstyled u := by
  match l with
  | [] =>
    have hnone : afterStyle? '\n' u = none := afterStyle?_of_ne (by decide) u
    simpa using unstyled_of_none hnone
  | c :: l =>
    have hafter := afterStyle?_append_newline c l u
    match h : afterStyle? c l with
    | some rest =>
      have hshort : rest.length < l.length + 1 := length_afterStyle?_lt h
      rw [h] at hafter
      rw [List.cons_append, unstyled_of_some hafter, unstyled_append_newline rest u,
        unstyled_of_some h]
    | none =>
      rw [h] at hafter
      rw [List.cons_append, unstyled_of_none hafter, unstyled_append_newline l u,
        unstyled_of_none h, List.cons_append]
termination_by l.length

theorem unlines_cons (l : Text) (ls : List Text) :
    unlines (l :: ls) = l ++ '\n' :: unlines ls := by simp [unlines]

/-- Lines lose their style sequences one by one. -/
theorem unstyled_unlines (ls : List Text) : unstyled (unlines ls) = unlines (ls.map unstyled) := by
  induction ls with
  | nil => exact unstyled_nil
  | cons l ls ih => rw [List.map_cons, unlines_cons, unlines_cons, unstyled_append_newline, ih]

/-- What a style sequence consists of. -/
theorem exists_of_afterStyle? {c : Char} {t rest : Text} (h : afterStyle? c t = some rest) :
    ∃ ps x, c :: t = escape :: '[' :: (ps ++ x :: rest) ∧ (∀ p ∈ ps, isParameter p = true) ∧
      x.isAlpha = true := by
  unfold afterStyle? at h
  split at h
  · next t hc =>
    unfold afterParameters? at h
    split at h
    · next x rest' hdrop =>
      split at h
      · next hx =>
        cases h
        refine ⟨t.takeWhile isParameter, x, ?_, List.all_eq_true.1 List.all_takeWhile, hx⟩
        rw [of_decide_eq_true hc, ← hdrop, List.takeWhile_append_dropWhile]
      · cases h
    · cases h
  · cases h

theorem count_of_afterStyle? {c : Char} {t rest : Text} (h : afterStyle? c t = some rest) :
    (c :: t).count '\n' = rest.count '\n' := by
  obtain ⟨ps, x, heq, hps, hx⟩ := exists_of_afterStyle? h
  have hnone : '\n' ∉ ps := fun hmem => absurd (hps _ hmem) (by decide)
  have hletter : x ≠ '\n' := by
    rintro rfl
    exact absurd hx (by decide)
  rw [heq, List.count_cons_of_ne (by decide), List.count_cons_of_ne (by decide), List.count_append,
    List.count_eq_zero.2 hnone, List.count_cons_of_ne hletter, Nat.zero_add]

/-- Style sequences hold no newline. -/
theorem count_unstyled (t : Text) : (unstyled t).count '\n' = t.count '\n' := by
  match t with
  | [] => rw [unstyled_nil]
  | c :: t =>
    match h : afterStyle? c t with
    | some rest =>
      have hshort : rest.length < t.length + 1 := length_afterStyle?_lt h
      rw [unstyled_of_some h, count_unstyled rest, count_of_afterStyle? h]
    | none => rw [unstyled_of_none h, List.count_cons, List.count_cons, count_unstyled t]
termination_by t.length

end OctalScan.Text
