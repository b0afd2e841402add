import Mathlib.Data.List.Pairwise
import Mathlib.Data.List.Sort

/-!
# Sorting by questions

A sort that learns of its items only by asking whether one of them is less than another is a tree of
questions (`Sorter`). It may be asked to sort items that have no order, and then it fails with the
first question that has no answer. It cannot do without such a question: if only items of one group
have an order, a sort that succeeds has met items of one group only (`Sorter.Sorts.group_eq`). There
is a sort that works for every number of items (`Sorter.sorts_insertion`).
-/

namespace OctalScan

/-- A way to sort `n` items by asking whether one is less than another. -/
inductive Sorter (n : Nat) where
  | done (order : List (Fin n))
  | ask (i j : Fin n) (yes no : Sorter n)

namespace Sorter

variable {n : Nat}

/-- Runs a sort. It ends with the first question that fails. -/
def run {ε : Type} (less : Fin n → Fin n → Except ε Bool) : Sorter n → Except ε (List (Fin n))
  | done order => .ok order
  | ask i j yes no =>
    match less i j with
    | .ok true => run less yes
    | .ok false => run less no
    | .error e => .error e

/-- The order of items that have numbers for keys. -/
def byKey (key : Fin n → Nat) (i j : Fin n) : Except Empty Bool := .ok (decide (key i < key j))

/-- A sort works if it brings all items into rising order, whatever numbers are their keys. -/
def Sorts (t : Sorter n) : Prop :=
  ∀ key : Fin n → Nat, ∃ order, t.run (byKey key) = .ok order ∧ order.Perm (List.finRange n) ∧
    order.Pairwise fun i j => key i ≤ key j

/-! ### Runs -/

section Run

variable {ε δ : Type} {less : Fin n → Fin n → Except ε Bool} {less' : Fin n → Fin n → Except δ Bool}
  {t : Sorter n} {order : List (Fin n)}

/-- Where all questions of a run have the same answers, the run is the same. -/
theorem run_eq_of_agrees (h : ∀ i j b, less i j = .ok b → less' i j = .ok b)
    (hrun : t.run less = .ok order) : t.run less' = .ok order := by
  induction t with
  | done order' =>
    cases hrun
    rfl
  | ask i j yes no ihyes ihno =>
    rw [run] at hrun ⊢
    cases hq : less i j with
    | error e =>
      rw [hq] at hrun
      cases hrun
    | ok b =>
      rw [hq] at hrun
      rw [h i j b hq]
      cases b with
      | true => exact ihyes hrun
      | false => exact ihno hrun

theorem exists_of_run_eq_error {e : ε} (hrun : t.run less = .error e) :
    ∃ i j, less i j = .error e := by
  induction t with
  | done order' => cases hrun
  | ask i j yes no ihyes ihno =>
    rw [run] at hrun
    cases hq : less i j with
    | error e' =>
      rw [hq] at hrun
      cases hrun
      exact ⟨i, j, hq⟩
    | ok b =>
      rw [hq] at hrun
      cases b with
      | true => exact ihyes hrun
      | false => exact ihno hrun

end Run

/-! ### Items in groups -/

section Groups

variable {ε γ : Type} {less : Fin n → Fin n → Except ε Bool} {group : Fin n → γ}
  {value : Fin n → Nat} {t : Sorter n} {order : List (Fin n)}

/-- `WithinGroups less group value` says that only items of one group can be compared, and that they
are compared by their values. -/
def WithinGroups (less : Fin n → Fin n → Except ε Bool) (group : Fin n → γ) (value : Fin n → Nat) :
    Prop :=
  ∀ i j b, less i j = .ok b → group i = group j ∧ b = decide (value i < value j)

/-- The values of items, with some of the groups moved behind the others. -/
def shifted (group : Fin n → γ) (value : Fin n → Nat) (bound : Nat) (behind : γ → Bool)
    (i : Fin n) : Nat :=
  if behind (group i) then value i + bound else value i

/-- Moving groups does not touch the order within any of them. -/
theorem WithinGroups.byKey_shifted (hless : WithinGroups less group value) (bound : Nat)
    (behind : γ → Bool) {i j : Fin n} {b : Bool} (h : less i j = .ok b) :
    byKey (shifted group value bound behind) i j = .ok b := by
  obtain ⟨hgroup, rfl⟩ := hless i j b h
  simp only [byKey, shifted, hgroup]
  cases behind (group j) <;> simp

/-- A sort that has compared within groups alone has a result that is in order wherever the groups
lie. -/
theorem Sorts.pairwise_shifted (ht : t.Sorts) (hless : WithinGroups less group value)
    (hrun : t.run less = .ok order) (bound : Nat) (behind : γ → Bool) :
    order.Perm (List.finRange n) ∧ order.Pairwise fun i j =>
      shifted group value bound behind i ≤ shifted group value bound behind j := by
  obtain ⟨order', hrun', hsorted⟩ := ht (shifted group value bound behind)
  have hsame := run_eq_of_agrees (fun _ _ _ h => hless.byKey_shifted bound behind h) hrun
  cases hrun'.symm.trans hsame
  exact hsorted

/-- A sort that works succeeds only on items of one group, if items of different groups cannot be
compared: what it is told does not keep one group from lying behind the others, or before them. -/
theorem Sorts.group_eq [DecidableEq γ] (ht : t.Sorts) (hless : WithinGroups less group value)
    {bound : Nat} (hbound : ∀ i, value i < bound) (hrun : t.run less = .ok order) (i j : Fin n) :
    group i = group j := by
  obtain ⟨hperm, hbehind⟩ := ht.pairwise_shifted hless hrun bound fun g => decide (g = group i)
  obtain ⟨-, hbefore⟩ := ht.pairwise_shifted hless hrun bound fun g => decide (g ≠ group i)
  -- an item of the group of `i` and one of another group are out of order in one of the two cases
  have hpairwise : order.Pairwise fun a b => group a = group i ↔ group b = group i := by
    refine (hbehind.and hbefore).imp fun {a b} h => ?_
    simp only [shifted, decide_eq_true_eq] at h
    have ha := hbound a
    have hb := hbound b
    by_cases hga : group a = group i
    · by_cases hgb : group b = group i
      · exact iff_of_true hga hgb
      · rw [if_pos hga, if_neg hgb] at h
        omega
    · by_cases hgb : group b = group i
      · rw [if_pos hga, if_neg (not_not.2 hgb)] at h
        omega
      · exact iff_of_false hga hgb
  have hsymm : Std.Symm fun a b => group a = group i ↔ group b = group i := ⟨fun _ _ h => h.symm⟩
  have hmem (k : Fin n) : k ∈ order := hperm.mem_iff.2 (List.mem_finRange k)
  have hiff := @List.Pairwise.forall_of_forall _ _ _ hsymm (fun _ _ => Iff.rfl) hpairwise
    i (hmem i) j (hmem j)
  exact (hiff.1 rfl).symm

end Groups

/-! ### A sort for every number of items -/

/-- Inserts an item in front of the first sorted one that is not less. -/
def insertInto (k : Fin n) : List (Fin n) → (List (Fin n) → Sorter n) → Sorter n
  | [], next => next [k]
  | i :: sorted, next =>
    ask i k (insertInto k sorted fun rest => next (i :: rest)) (next (k :: i :: sorted))

def insertAll : List (Fin n) → (List (Fin n) → Sorter n) → Sorter n
  | [], next => next []
  | k :: items, next => insertAll items fun sorted => insertInto k sorted next

/-- The sort that inserts the items one by one, the last one first. -/
def insertion (n : Nat) : Sorter n := insertAll (List.finRange n) done

variable {key : Fin n → Nat}

theorem run_insertInto (k : Fin n) (sorted : List (Fin n)) (next : List (Fin n) → Sorter n) :
    (insertInto k sorted next).run (byKey key) =
      (next (sorted.orderedInsert (fun i j => key i ≤ key j) k)).run (byKey key) := by
  induction sorted generalizing next with
  | nil => rfl
  | cons i sorted ih =>
    rw [insertInto, run, byKey, List.orderedInsert]
    by_cases h : key k ≤ key i
    · rw [if_pos h, decide_eq_false (Nat.not_lt.2 h)]
    · rw [if_neg h, decide_eq_true (Nat.lt_of_not_le h)]
      exact ih _

theorem run_insertAll (items : List (Fin n)) (next : List (Fin n) → Sorter n) :
    (insertAll items next).run (byKey key) =
      (next (items.insertionSort fun i j => key i ≤ key j)).run (byKey key) := by
  induction items generalizing next with
  | nil => rfl
  | cons k items ih => rw [insertAll, ih, run_insertInto, List.insertionSort_cons]

theorem sorts_insertion (n : Nat) : (insertion n).Sorts := by
  intro key
  have : Std.Total fun i j : Fin n => key i ≤ key j := ⟨fun i j => Nat.le_total _ _⟩
  have : IsTrans (Fin n) fun i j => key i ≤ key j := ⟨fun _ _ _ => Nat.le_trans⟩
  exact ⟨_, run_insertAll _ done, List.perm_insertionSort _ _, List.pairwise_insertionSort _ _⟩

end Sorter

end OctalScan
