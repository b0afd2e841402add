import OctalScan.Failure
import OctalScan.Proofs.Sorter

/-!
# Words in lists

A word is the same as another only if both the width and the value are, so a list without
repetitions keeps words of one value and two widths apart, even in a table where they have the same
hash (`Word.keys_eq_distinct`). Only words of one width have an order, so a list is sorted if it has
one width, and no sort that asks for nothing but this order gets through any other list
(`Word.sortWith_of_mixed`). Both are put together in `Word.distinct_and_sorted`.
-/

namespace OctalScan

/-! ### First occurrences -/

/-- `FirstOccurrences xs ys` says that `ys` has every element of `xs` once, in the order in which
they first stand in `xs`. -/
structure FirstOccurrences {α : Type} [DecidableEq α] (xs ys : List α) : Prop where
  once : ys.Nodup
  mem_iff : ∀ x, x ∈ ys ↔ x ∈ xs
  order : ys.Pairwise fun x y => xs.idxOf x < xs.idxOf y

theorem FirstOccurrences.cons {α : Type} [DecidableEq α] {xs ys : List α}
    (h : FirstOccurrences xs ys) (x : α) :
    FirstOccurrences (x :: xs) (x :: ys.filter fun y => decide (y ≠ x)) where
  once := List.nodup_cons.2 ⟨by simp, h.once.filter _⟩
  mem_iff y := by
    rw [List.mem_cons, List.mem_cons, List.mem_filter, h.mem_iff, decide_eq_true_eq]
    by_cases hy : y = x <;> simp [hy]
  order := by
    have hidx {y : α} (hy : y ∈ ys.filter fun y => decide (y ≠ x)) :
        (x :: xs).idxOf y = xs.idxOf y + 1 := by
      have hne : y ≠ x := of_decide_eq_true (List.mem_filter.1 hy).2
      exact List.idxOf_cons_ne xs hne.symm
    refine List.pairwise_cons.2 ⟨fun y hy => ?_, ?_⟩
    · rw [List.idxOf_cons_self, hidx hy]
      exact Nat.succ_pos _
    · refine (h.order.filter _).imp_of_mem fun {y z} hy hz hlt => ?_
      rw [hidx hy, hidx hz]
      exact Nat.succ_lt_succ hlt

namespace Word

variable {ws : List Word}

/-! ### Words without repetitions -/

/-- What makes a word different from others. -/
def key (w : Word) : Width × Nat := (w.width, w.value)

theorem key_eq_iff {v w : Word} : v.key = w.key ↔ v = w := by
  constructor
  · intro h
    exact Word.ext (congrArg Prod.fst h) (congrArg Prod.snd h)
  · rintro rfl
    rfl

/-- Each width and value is kept once, at its first occurrence. -/
theorem firstOccurrences_distinct (ws : List Word) :
    FirstOccurrences (ws.map key) ((distinct ws).map key) := by
  induction ws with
  | nil => exact ⟨List.nodup_nil, fun _ => Iff.rfl, .nil⟩
  | cons w ws ih =>
    have hfilter : ((distinct ws).filter fun v => decide (v ≠ w)).map key =
        ((distinct ws).map key).filter fun p => decide (p ≠ w.key) := by
      rw [List.filter_map]
      simp only [Function.comp_def, ne_eq, key_eq_iff]
    rw [distinct, List.map_cons, List.map_cons, hfilter]
    exact ih.cons w.key

/-! ### Tables -/

section Table

variable {κ : Type} [DecidableEq κ] {hash : Word → κ} {table : List (κ × Word)}

/-- Puts a word into a table, unless it is there. It is looked for by its hash, and among words of
that hash by equality. -/
def insert (hash : Word → κ) (table : List (κ × Word)) (w : Word) : List (κ × Word) :=
  if table.any fun e => decide (e.1 = hash w) && Datum.sameWord (.word e.2) (.word w) then table
  else table ++ [(hash w, w)]

/-- The words of a list that are in a table when all have been put into it, one after another. -/
def keys (hash : Word → κ) (ws : List Word) : List Word := (ws.foldl (insert hash) []).map Prod.snd

/-- Under the hash with which it was stored a word is found by equality. -/
theorem any_sameWord_iff (h : ∀ e ∈ table, e.1 = hash e.2) (w : Word) :
    (table.any fun e => decide (e.1 = hash w) && Datum.sameWord (.word e.2) (.word w)) = true ↔
      w ∈ table.map Prod.snd := by
  simp only [List.any_eq_true, Bool.and_eq_true, decide_eq_true_eq, Datum.sameWord, List.mem_map]
  constructor
  · rintro ⟨e, he, -, heq⟩
    exact ⟨e, he, heq⟩
  · rintro ⟨e, he, rfl⟩
    exact ⟨e, he, h e he, rfl⟩

theorem map_foldl_insert (h : ∀ e ∈ table, e.1 = hash e.2) (ws : List Word) :
    (ws.foldl (insert hash) table).map Prod.snd = table.map Prod.snd ++
      (distinct ws).filter fun w => decide (w ∉ table.map Prod.snd) := by
  induction ws generalizing table with
  | nil => simp [distinct]
  | cons w ws ih =>
    rw [List.foldl_cons, insert, distinct]
    by_cases hw : w ∈ table.map Prod.snd
    · rw [if_pos ((any_sameWord_iff h w).2 hw), ih h, List.filter_cons_of_neg (by simpa using hw),
        List.filter_filter]
      -- a word that is not in the table differs from one that is
      have hne : ∀ v ∈ distinct ws, (decide (v ∉ table.map Prod.snd) && decide (v ≠ w)) =
          decide (v ∉ table.map Prod.snd) := by
        intro v _
        rw [Bool.and_eq_left_iff_imp, decide_eq_true_eq, decide_eq_true_eq]
        rintro hv rfl
        exact hv hw
      rw [List.filter_congr hne]
    · have hstored : ∀ e ∈ table ++ [(hash w, w)], e.1 = hash e.2 :=
        List.forall_mem_append.2 ⟨h, List.forall_mem_singleton.2 rfl⟩
      have hnext : ∀ v ∈ distinct ws, decide (v ∉ (table ++ [(hash w, w)]).map Prod.snd) =
          (decide (v ∉ table.map Prod.snd) && decide (v ≠ w)) := by
        intro v _
        rw [← Bool.decide_and, decide_eq_decide, List.map_append, List.mem_append, not_or,
          List.map_singleton, List.mem_singleton]
      rw [if_neg (mt (any_sameWord_iff h w).1 hw), ih hstored, List.filter_congr hnext,
        List.filter_cons_of_pos (by simpa using hw), List.filter_filter, List.map_append,
        List.append_assoc]
      rfl

/-- Whatever the hash, also if it is the same for words of different widths, a table keeps just the
words that are different. -/
theorem keys_eq_distinct (hash : Word → κ) (ws : List Word) : keys hash ws = distinct ws := by
  rw [keys, map_foldl_insert (by simp)]
  simp

end Table

/-! ### Sorted words -/

theorem sameWidth_iff : sameWidth ws = true ↔ ∀ v ∈ ws, ∀ w ∈ ws, v.width = w.width := by
  cases ws with
  | nil => simp [sameWidth]
  | cons u ws =>
    simp only [sameWidth, List.all_eq_true, decide_eq_true_eq]
    constructor
    · intro h
      have hall : ∀ v ∈ u :: ws, v.width = u.width := List.forall_mem_cons.2 ⟨rfl, h⟩
      intro v hv w hw
      rw [hall v hv, hall w hw]
    · intro h v hv
      exact h v (List.mem_cons_of_mem u hv) u List.mem_cons_self

/-- Words of one width that stand in rising order in two ways stand there in the same way. -/
theorem eq_of_sorted {vs ws : List Word} (hwidth : ∀ v ∈ vs, ∀ w ∈ vs, v.width = w.width)
    (hperm : vs.Perm ws) (hvs : vs.Pairwise fun v w => v.value ≤ w.value)
    (hws : ws.Pairwise fun v w => v.value ≤ w.value) : vs = ws := by
  refine hperm.eq_of_pairwise (fun v w hv hw hle hge => ?_) hvs hws
  exact Word.ext (hwidth v hv w (hperm.mem_iff.2 hw)) (Nat.le_antisymm hle hge)

theorem sort?_of_sameWidth (h : ∀ v ∈ ws, ∀ w ∈ ws, v.width = w.width) :
    ∃ r, sort? ws = some r ∧ r.Perm ws ∧ r.Pairwise fun v w => v.value ≤ w.value := by
  refine ⟨_, if_pos (sameWidth_iff.2 h), List.mergeSort_perm _ _, ?_⟩
  have hsorted : (ws.mergeSort fun v w => decide (v.value ≤ w.value)).Pairwise fun v w =>
      decide (v.value ≤ w.value) = true := by
    apply List.pairwise_mergeSort
    · intro u v w huv hvw
      rw [decide_eq_true_eq] at huv hvw ⊢
      exact Nat.le_trans huv hvw
    · intro v w
      rw [Bool.or_eq_true, decide_eq_true_eq, decide_eq_true_eq]
      exact Nat.le_total _ _
  exact hsorted.imp of_decide_eq_true

theorem sort?_of_mixed (h : ∃ v ∈ ws, ∃ w ∈ ws, v.width ≠ w.width) : sort? ws = none := by
  refine if_neg fun hsame => ?_
  obtain ⟨v, hv, w, hw, hne⟩ := h
  exact hne (sameWidth_iff.1 hsame v hv w hw)

/-! ### Sorting by the order of words -/

/-- Sorts words in some way that asks for nothing but their order. -/
def sortWith (ws : List Word) (t : Sorter ws.length) : Except Failure (List Word) :=
  (t.run fun i j => Datum.compare .less (.word ws[i]) (.word ws[j])).map fun order =>
    order.map fun i => ws[i]

theorem compare_of_width_eq {v w : Word} (h : v.width = w.width) :
    Datum.compare .less (.word v) (.word w) = .ok (decide (v.value < w.value)) := by
  have hless : (compare v.value w.value).isLT = decide (v.value < w.value) := by
    rw [Bool.eq_iff_iff, decide_eq_true_eq, Ordering.isLT_iff_eq_lt, Nat.compare_eq_lt]
  rw [← hless, Datum.compare, Datum.order?, order?, if_pos h]
  rfl

theorem compare_of_width_ne {v w : Word} (h : v.width ≠ w.width) :
    Datum.compare .less (.word v) (.word w) =
      .error (.internal (.incomparable .less v.width.name w.width.name)) := by
  rw [Datum.compare, Datum.order?, order?, if_neg h]
  rfl

/-- Only words of one width have an order, and it is that of their values. -/
theorem width_eq_of_compare_eq_ok {v w : Word} {b : Bool}
    (h : Datum.compare .less (.word v) (.word w) = .ok b) :
    v.width = w.width ∧ b = decide (v.value < w.value) := by
  by_cases hw : v.width = w.width
  · rw [compare_of_width_eq hw] at h
    exact ⟨hw, (Except.ok.inj h).symm⟩
  · rw [compare_of_width_ne hw] at h
    cases h

theorem width_ne_of_compare_eq_error {v w : Word} {e : Failure}
    (h : Datum.compare .less (.word v) (.word w) = .error e) :
    v.width ≠ w.width ∧ e = .internal (.incomparable .less v.width.name w.width.name) := by
  by_cases hw : v.width = w.width
  · rw [compare_of_width_eq hw] at h
    cases h
  · rw [compare_of_width_ne hw] at h
    exact ⟨hw, (Except.error.inj h).symm⟩

theorem value_lt (w : Word) : w.value < 4096 := by
  have hle : w.width.maxValue ≤ 4095 := by cases w.width <;> decide
  exact Nat.lt_succ_of_le (Nat.le_trans w.value_le hle)

/-- Every sort that works brings words of one width into their rising order. -/
theorem sortWith_of_sameWidth (h : ∀ v ∈ ws, ∀ w ∈ ws, v.width = w.width) {r : List Word}
    (hr : sort? ws = some r) {t : Sorter ws.length} (ht : t.Sorts) : sortWith ws t = .ok r := by
  obtain ⟨order, hrun, hperm, hpairwise⟩ := ht fun i => ws[i].value
  have hsame : t.run (fun i j => Datum.compare .less (.word ws[i]) (.word ws[j])) = .ok order := by
    refine Sorter.run_eq_of_agrees (fun i j b hb => ?_) hrun
    cases hb
    exact compare_of_width_eq (h _ (List.getElem_mem _) _ (List.getElem_mem _))
  have hperm' : (order.map fun i => ws[i]).Perm ws :=
    (hperm.map fun i => ws[i]).trans (.of_eq (List.map_getElem_finRange ws))
  obtain ⟨r', hr', hrperm, hrsorted⟩ := sort?_of_sameWidth h
  cases hr.symm.trans hr'
  rw [sortWith, hsame]
  refine congrArg Except.ok (eq_of_sorted ?_ (hperm'.trans hrperm.symm)
    (List.pairwise_map.2 hpairwise) hrsorted)
  intro v hv w hw
  exact h v (hperm'.mem_iff.1 hv) w (hperm'.mem_iff.1 hw)

/-- No sort that works gets through words of different widths: it meets two of them that it cannot
compare. -/
theorem sortWith_of_mixed (h : ∃ v ∈ ws, ∃ w ∈ ws, v.width ≠ w.width) {t : Sorter ws.length}
    (ht : t.Sorts) : ∃ v ∈ ws, ∃ w ∈ ws, v.width ≠ w.width ∧
      sortWith ws t = .error (.internal (.incomparable .less v.width.name w.width.name)) := by
  cases hrun : t.run (fun i j => Datum.compare .less (.word ws[i]) (.word ws[j])) with
  | ok order =>
    have hwithin : Sorter.WithinGroups
        (fun i j : Fin ws.length => Datum.compare .less (.word ws[i]) (.word ws[j]))
        (fun i => ws[i].width) fun i => ws[i].value :=
      fun _ _ _ h => width_eq_of_compare_eq_ok h
    have hone := ht.group_eq hwithin (fun i => value_lt ws[i]) hrun
    obtain ⟨v, hv, w, hw, hne⟩ := h
    obtain ⟨i, hi, rfl⟩ := List.mem_iff_getElem.1 hv
    obtain ⟨j, hj, rfl⟩ := List.mem_iff_getElem.1 hw
    exact absurd (hone ⟨i, hi⟩ ⟨j, hj⟩) hne
  | error e =>
    obtain ⟨i, j, hq⟩ := Sorter.exists_of_run_eq_error hrun
    obtain ⟨hne, rfl⟩ := width_ne_of_compare_eq_error hq
    refine ⟨_, List.getElem_mem _, _, List.getElem_mem _, hne, ?_⟩
    rw [sortWith, hrun]
    rfl

/-- Without repetitions a list keeps each width and value at its first occurrence, and so does a
table with any hash. A list of one width is sorted by the values of its words, also by every way to
sort that asks for nothing but the order of words. A list of two widths or more is not sorted at
all: every such way fails at two words that have no order. -/
theorem distinct_and_sorted (ws : List Word) :
    FirstOccurrences (ws.map key) ((distinct ws).map key) ∧
    (∀ {κ : Type} [DecidableEq κ] (hash : Word → κ), keys hash ws = distinct ws) ∧
    ((∀ v ∈ ws, ∀ w ∈ ws, v.width = w.width) →
      ∃ r, sort? ws = some r ∧ r.Perm ws ∧ (r.Pairwise fun v w => v.value ≤ w.value) ∧
        ∀ t : Sorter ws.length, t.Sorts → sortWith ws t = .ok r) ∧
    ((∃ v ∈ ws, ∃ w ∈ ws, v.width ≠ w.width) →
      sort? ws = none ∧ ∀ t : Sorter ws.length, t.Sorts → ∃ v ∈ ws, ∃ w ∈ ws, v.width ≠ w.width ∧
        sortWith ws t = .error (.internal (.incomparable .less v.width.name w.width.name))) := by
  refine ⟨firstOccurrences_distinct ws, fun hash => keys_eq_distinct hash ws, ?_, ?_⟩
  · intro h
    obtain ⟨r, hr, hperm, hsorted⟩ := sort?_of_sameWidth h
    exact ⟨r, hr, hperm, hsorted, fun t ht => sortWith_of_sameWidth h hr ht⟩
  · intro h
    exact ⟨sort?_of_mixed h, fun t ht => sortWith_of_mixed h ht⟩

/-- Five in nine bits and five in twelve bits both stay, though here they have one hash, and cannot
be sorted; three and five in twelve bits can. -/
theorem distinct_and_sorted_of_five :
    let v : Word := ⟨.nine, 5, by decide⟩
    let w : Word := ⟨.twelve, 5, by decide⟩
    let u : Word := ⟨.twelve, 3, by decide⟩
    keys value [v, v, w] = [v, w] ∧ (Sorter.insertion 3).Sorts ∧
      (∃ x ∈ [v, v, w], ∃ y ∈ [v, v, w], x.width ≠ y.width) ∧ sort? [v, v, w] = none ∧
      (∃ x ∈ [v, v, w], ∃ y ∈ [v, v, w], x.width ≠ y.width ∧ sortWith [v, v, w] (.insertion 3) =
        .error (.internal (.incomparable .less x.width.name y.width.name))) ∧
      (∀ x ∈ [w, u, w], ∀ y ∈ [w, u, w], x.width = y.width) ∧
      sort? [w, u, w] = some [u, w, w] ∧ sortWith [w, u, w] (.insertion 3) = .ok [u, w, w] := by
  intro v w u
  have hmixed : ∃ x ∈ [v, v, w], ∃ y ∈ [v, v, w], x.width ≠ y.width :=
    ⟨v, by simp, w, by simp, by simp [v, w]⟩
  have hsame : ∀ x ∈ [w, u, w], ∀ y ∈ [w, u, w], x.width = y.width := by simp [w, u]
  have hworks := Sorter.sorts_insertion 3
  obtain ⟨-, hkeys, -, hfails⟩ := distinct_and_sorted [v, v, w]
  obtain ⟨hnone, herror⟩ := hfails hmixed
  obtain ⟨-, -, hsorts, -⟩ := distinct_and_sorted [w, u, w]
  obtain ⟨r, hr, -, -, hall⟩ := hsorts hsame
  have hrun : sortWith [w, u, w] (.insertion 3) = .ok [u, w, w] := rfl
  cases (hall (.insertion 3) hworks).symm.trans hrun
  exact ⟨(hkeys value).trans rfl, hworks, hmixed, hnone, herror (.insertion 3) hworks, hsame, hr,
    hrun⟩

end Word

end OctalScan
