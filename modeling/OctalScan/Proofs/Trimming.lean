import OctalScan.Text.Blank

/-!
# Trimmed texts

Trimming takes nothing but the characters of one class at the ends of a text, and all of them. So a
word without such characters is what is left of it with any of them around it
(`Text.Padded.trimBy_eq`).
-/

namespace OctalScan.Text

variable {p : Char → Bool} {t u : Text}

/-! ### Ends of texts -/

/-- Trimming goes no further than to the last character that stays. -/
theorem trimEndBy_append (a : Text) {b : Text} (hb : ∃ c ∈ b, p c = false) :
    trimEndBy p (a ++ b) = a ++ trimEndBy p b := by
  obtain ⟨c, hc, hpc⟩ := hb
  have hstop : b.reverse.dropWhile p ≠ [] := by
    intro h
    have htake := List.takeWhile_append_dropWhile (p := p) (l := b.reverse)
    rw [h, List.append_nil] at htake
    have hall : (b.reverse.takeWhile p).all p = true := List.all_takeWhile
    rw [htake] at hall
    have hp := List.all_eq_true.1 hall c (List.mem_reverse.2 hc)
    exact Bool.false_ne_true (hpc.symm.trans hp)
  rw [trimEndBy, trimEndBy, List.reverse_append, List.dropWhile_append,
    if_neg (by simpa using hstop), List.reverse_append, List.reverse_reverse]

theorem mem_of_mem_trimEndBy {c : Char} (h : c ∈ trimEndBy p t) : c ∈ t := by
  obtain ⟨cut, heq, -⟩ := exists_trimEndBy_append p t
  rw [heq]
  exact List.mem_append_left cut h

/-- Trimming does nothing to a text that ends in a character that stays. -/
theorem trimEndBy_concat {c : Char} (hc : p c = false) (t : Text) :
    trimEndBy p (t ++ [c]) = t ++ [c] := by
  simp [trimEndBy, hc]

theorem trimEndBy_eq_self (h : ∀ c ∈ t.getLast?, p c = false) : trimEndBy p t = t := by
  cases hlast : t.getLast? with
  | none =>
    rw [List.getLast?_eq_none_iff.1 hlast]
    rfl
  | some c =>
    obtain ⟨front, rfl⟩ := List.getLast?_eq_some_iff.1 hlast
    exact trimEndBy_concat (h c hlast) front

theorem trimEndBy_append_of_all {cut : Text} (h : ∀ c ∈ cut, p c = true) (t : Text) :
    trimEndBy p (t ++ cut) = trimEndBy p t := by
  rw [trimEndBy, List.reverse_append,
    List.dropWhile_append_of_pos fun c hc => h c (List.mem_reverse.1 hc), trimEndBy]

/-! ### Both ends -/

/-- `Padded p u t` says that `t` is `u` with characters that satisfy `p` before it and behind it. -/
def Padded (p : Char → Bool) (u t : Text) : Prop :=
  ∃ before behind, t = before ++ u ++ behind ∧ (∀ c ∈ before, p c = true) ∧
    ∀ c ∈ behind, p c = true

theorem padded_trimBy (p : Char → Bool) (t : Text) : Padded p (trimBy p t) t := by
  obtain ⟨behind, hbehind, hcut⟩ := exists_trimEndBy_append p (t.dropWhile p)
  refine ⟨t.takeWhile p, behind, ?_, List.all_eq_true.1 List.all_takeWhile, hcut⟩
  rw [trimBy, List.append_assoc, ← hbehind, List.takeWhile_append_dropWhile]

theorem Padded.trimBy_eq (h : Padded p u t) (hu : ∀ c ∈ u, p c = false) : trimBy p t = u := by
  obtain ⟨before, behind, rfl, hbefore, hbehind⟩ := h
  have hword : trimEndBy p u = u :=
    trimEndBy_eq_self fun c hc => hu c (List.mem_of_getLast? hc)
  rw [trimBy, List.append_assoc, List.dropWhile_append_of_pos hbefore]
  cases u with
  | nil =>
    have hgone : (behind ++ []).dropWhile p = [] := List.dropWhile_append_of_pos hbehind
    rw [List.append_nil] at hgone
    rw [List.nil_append, hgone]
    rfl
  | cons c u =>
    rw [List.cons_append, List.dropWhile_cons_of_neg (by simp [hu c List.mem_cons_self]),
      ← List.cons_append, trimEndBy_append_of_all hbehind, hword]

end OctalScan.Text
