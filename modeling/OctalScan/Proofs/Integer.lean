import OctalScan.Proofs.Trimming
import OctalScan.Text.Numeral

/-!
# Integer texts

Which texts denote integers, as a grammar (`IsInteger`), and that these are the texts that are read
as integers (`readInt?_eq_some_iff`).
-/

namespace OctalScan.Text

/-! ### The grammar -/

/-- `Digits t ds` says that `t` is decimal digits of any script, with the values `ds`. One underscore
may stand between two of them. -/
inductive Digits : Text → List Nat → Prop
  | last {c : Char} {d : Nat} (hc : decimalDigit? c = some d) : Digits [c] [d]
  | next {c : Char} {d : Nat} {t : Text} {ds : List Nat} (hc : decimalDigit? c = some d)
      (ht : Digits t ds) : Digits (c :: t) (d :: ds)
  | joined {c : Char} {d : Nat} {t : Text} {ds : List Nat} (hc : decimalDigit? c = some d)
      (ht : Digits t ds) : Digits (c :: '_' :: t) (d :: ds)

/-- `Denotes t n` says that `t` is digits that denote `n`, and not too many of them. -/
def Denotes (t : Text) (n : Nat) : Prop :=
  ∃ ds, Digits t ds ∧ ds.length ≤ maxDigits ∧ n = ofDigits ds

/-- `Signed t n` says that `t` is digits that denote `n`, with or without a sign. -/
inductive Signed : Text → Int → Prop
  | plain {t : Text} {n : Nat} (h : Denotes t n) : Signed t n
  | plus {t : Text} {n : Nat} (h : Denotes t n) : Signed ('+' :: t) n
  | minus {t : Text} {n : Nat} (h : Denotes t n) : Signed ('-' :: t) (-n)

/-- `IsInteger t n` says that `t` denotes the integer `n`, with any white space around it. -/
def IsInteger (t : Text) (n : Int) : Prop := ∃ u, Padded isMargin u t ∧ Signed u n

/-! ### Groups of digits -/

variable {c c' : Char} {t : Text} {d : Nat} {ds : List Nat}

theorem ne_underscore_of_decimalDigit? (h : decimalDigit? c = some d) : c ≠ '_' := by
  rintro rfl
  have hnone : decimalDigit? '_' = none := by decide
  cases hnone.symm.trans h

/-- `Grouped t ds` says that no group between the underscores of `t` is empty, and that the groups
are digits with the values `ds`. -/
def Grouped (t : Text) (ds : List Nat) : Prop :=
  (t.splitOn '_').any List.isEmpty = false ∧ (t.splitOn '_').flatten.mapM decimalDigit? = some ds

theorem readNat?_eq_some_iff_grouped {n : Nat} :
    readNat? t = some n ↔ ∃ ds, Grouped t ds ∧ ds.length ≤ maxDigits ∧ n = ofDigits ds := by
  constructor
  · intro h
    simp only [readNat?] at h
    split at h
    · cases h
    · next hany =>
      split at h
      · cases h
      · next ds hds =>
        obtain ⟨hmax, hn⟩ := Option.ite_none_right_eq_some.1 h
        cases hn
        exact ⟨ds, ⟨Bool.eq_false_iff.2 hany, hds⟩, hmax, rfl⟩
  · rintro ⟨ds, ⟨hany, hds⟩, hmax, rfl⟩
    simp only [readNat?, hany, Bool.false_eq_true, if_false, hds, if_pos hmax]

theorem splitOn_underscore_cons : ('_' :: t).splitOn '_' = [] :: t.splitOn '_' := by
  simp [List.splitOn_cons_eq_if_modifyHead]

/-- The first group of a text is longer by a character in front of it. -/
theorem exists_splitOn_cons (hc : c ≠ '_') (t : Text) :
    ∃ g gs, t.splitOn '_' = g :: gs ∧ (c :: t).splitOn '_' = (c :: g) :: gs := by
  obtain ⟨g, gs, h⟩ := List.exists_cons_of_ne_nil (List.splitOn_ne_nil '_' t)
  refine ⟨g, gs, h, ?_⟩
  rw [List.splitOn_cons_eq_if_modifyHead, if_neg (by simpa using hc), h, List.modifyHead_cons]

theorem mapM_cons_eq_some_iff {α β : Type} {f : α → Option β} {x : α} {l : List α} {ys : List β} :
    (x :: l).mapM f = some ys ↔ ∃ y ys', f x = some y ∧ l.mapM f = some ys' ∧ ys = y :: ys' := by
  simp [List.mapM_cons, Option.bind_eq_some_iff, eq_comm (a := ys)]

theorem not_grouped_nil : ¬Grouped [] ds := fun h => Bool.false_ne_true h.1.symm

theorem not_grouped_underscore : ¬Grouped ('_' :: t) ds := by
  intro h
  have hany := h.1
  rw [splitOn_underscore_cons] at hany
  exact Bool.false_ne_true hany.symm

theorem grouped_singleton_iff (hc : c ≠ '_') :
    Grouped [c] ds ↔ ∃ d, decimalDigit? c = some d ∧ ds = [d] := by
  obtain ⟨g, gs, h, hsplit⟩ := exists_splitOn_cons hc []
  cases h
  rw [Grouped, hsplit]
  simp [Option.bind_eq_some_iff, eq_comm (a := ds)]

theorem grouped_next_iff (hc : c ≠ '_') (hc' : c' ≠ '_') : Grouped (c :: c' :: t) ds ↔
    ∃ d ds', decimalDigit? c = some d ∧ Grouped (c' :: t) ds' ∧ ds = d :: ds' := by
  obtain ⟨g, gs, -, hsplit'⟩ := exists_splitOn_cons hc' t
  obtain ⟨g', gs', h, hsplit⟩ := exists_splitOn_cons hc (c' :: t)
  rw [hsplit'] at h
  cases h
  simp only [Grouped, hsplit, hsplit', List.any_cons, List.isEmpty_cons, Bool.false_or,
    List.flatten_cons, List.cons_append, mapM_cons_eq_some_iff (x := c)]
  grind

theorem grouped_joined_iff (hc : c ≠ '_') : Grouped (c :: '_' :: t) ds ↔
    ∃ d ds', decimalDigit? c = some d ∧ Grouped t ds' ∧ ds = d :: ds' := by
  obtain ⟨g, gs, h, hsplit⟩ := exists_splitOn_cons hc ('_' :: t)
  rw [splitOn_underscore_cons] at h
  cases h
  simp only [Grouped, hsplit, List.any_cons, List.isEmpty_cons, Bool.false_or,
    List.flatten_cons, List.cons_append, List.nil_append, mapM_cons_eq_some_iff]
  grind

theorem Digits.grouped (h : Digits t ds) : Grouped t ds := by
  induction h with
  | last hc => exact (grouped_singleton_iff (ne_underscore_of_decimalDigit? hc)).2 ⟨_, hc, rfl⟩
  | @next c d t ds hc ht ih =>
    cases t with
    | nil => exact absurd ih not_grouped_nil
    | cons c' t =>
      have hc' : c' ≠ '_' := by
        rintro rfl
        exact not_grouped_underscore ih
      exact (grouped_next_iff (ne_underscore_of_decimalDigit? hc) hc').2 ⟨d, ds, hc, ih, rfl⟩
  | @joined c d t ds hc ht ih =>
    exact (grouped_joined_iff (ne_underscore_of_decimalDigit? hc)).2 ⟨d, ds, hc, ih, rfl⟩

/-- Behind a digit stand the next one, an underscore and the next one, or nothing. -/
theorem digits_of_grouped {t : Text} {ds : List Nat} (h : Grouped t ds) : Digits t ds := by
  match t with
  | [] => exact absurd h not_grouped_nil
  | c :: t =>
    have hc : c ≠ '_' := by
      rintro rfl
      exact not_grouped_underscore h
    match t with
    | [] =>
      obtain ⟨d, hd, rfl⟩ := (grouped_singleton_iff hc).1 h
      exact .last hd
    | c' :: t =>
      by_cases hc' : c' = '_'
      · subst hc'
        obtain ⟨d, ds, hd, ht, rfl⟩ := (grouped_joined_iff hc).1 h
        exact .joined hd (digits_of_grouped ht)
      · obtain ⟨d, ds, hd, ht, rfl⟩ := (grouped_next_iff hc hc').1 h
        exact .next hd (digits_of_grouped ht)
termination_by t.length

theorem digits_iff_grouped : Digits t ds ↔ Grouped t ds := ⟨Digits.grouped, digits_of_grouped⟩

/-! ### Reading -/

theorem readNat?_eq_some_iff {n : Nat} : readNat? t = some n ↔ Denotes t n := by
  rw [readNat?_eq_some_iff_grouped, Denotes]
  simp only [digits_iff_grouped]

theorem map_readNat?_eq_some_iff {f : Int → Int} {n : Int} :
    Option.map f (readNat? t) = some n ↔ ∃ m : Nat, Denotes t m ∧ n = f m := by
  simp only [← readNat?_eq_some_iff]
  cases readNat? t with
  | none => exact ⟨nofun, nofun⟩
  | some m =>
    constructor
    · intro h
      exact ⟨m, rfl, (Option.some.inj h).symm⟩
    · rintro ⟨_, ⟨⟩, rfl⟩
      rfl

theorem Denotes.ne_cons {n : Nat} (h : Denotes t n) (hc : decimalDigit? c = none) (u : Text) :
    t ≠ c :: u := by
  rintro rfl
  obtain ⟨ds, hdigits, -⟩ := h
  cases hdigits with
  | last hd | next hd _ | joined hd _ => cases hc.symm.trans hd

theorem readSigned?_eq_some_iff {n : Int} : readSigned? t = some n ↔ Signed t n := by
  constructor
  · intro h
    unfold readSigned? at h
    split at h
    · obtain ⟨m, hm, rfl⟩ := map_readNat?_eq_some_iff.1 h
      exact .minus hm
    · obtain ⟨m, hm, rfl⟩ := map_readNat?_eq_some_iff.1 h
      exact .plus hm
    · obtain ⟨m, hm, rfl⟩ := map_readNat?_eq_some_iff.1 h
      exact .plain hm
  · intro h
    cases h with
    | plain h =>
      -- digits without a sign are read by the last alternative, as no digit is a sign
      rw [readSigned?]
      · exact map_readNat?_eq_some_iff.2 ⟨_, h, rfl⟩
      · exact h.ne_cons (by decide)
      · exact h.ne_cons (by decide)
    | plus h => exact map_readNat?_eq_some_iff.2 ⟨_, h, rfl⟩
    | minus h => exact map_readNat?_eq_some_iff.2 ⟨_, h, rfl⟩

theorem isMargin_of_decimalDigit? (h : decimalDigit? c = some d) : isMargin c = false := by
  obtain ⟨z, hz, hd⟩ := List.exists_of_findSome?_eq_some h
  have htable : ∀ z ∈ digitZeros, ∀ i < 10, isMargin (Char.ofNat (z + i)) = false := by decide
  split at hd
  · next hc =>
    have hvalue := htable z hz (c.toNat - z) (by omega)
    rwa [Nat.add_sub_cancel' hc.1, Char.ofNat_toNat] at hvalue
  · cases hd

/-- Neither a digit nor the underscore between two digits is white space. -/
theorem Digits.isMargin_eq_false (h : Digits t ds) : ∀ x ∈ t, isMargin x = false := by
  induction h with
  | last hc => exact List.forall_mem_singleton.2 (isMargin_of_decimalDigit? hc)
  | next hc _ ih => exact List.forall_mem_cons.2 ⟨isMargin_of_decimalDigit? hc, ih⟩
  | joined hc _ ih =>
    exact List.forall_mem_cons.2 ⟨isMargin_of_decimalDigit? hc,
      List.forall_mem_cons.2 ⟨by decide, ih⟩⟩

theorem Signed.isMargin_eq_false {n : Int} (h : Signed t n) : ∀ x ∈ t, isMargin x = false := by
  cases h with
  | plain h =>
    obtain ⟨ds, hdigits, -⟩ := h
    exact hdigits.isMargin_eq_false
  | plus h | minus h =>
    obtain ⟨ds, hdigits, -⟩ := h
    exact List.forall_mem_cons.2 ⟨by decide, hdigits.isMargin_eq_false⟩

/-- The texts that are read as integers are those that denote integers. -/
theorem readInt?_eq_some_iff {n : Int} : readInt? t = some n ↔ IsInteger t n := by
  constructor
  · intro h
    exact ⟨_, padded_trimBy isMargin t, readSigned?_eq_some_iff.1 h⟩
  · rintro ⟨u, hpadded, hu⟩
    rw [readInt?, hpadded.trimBy_eq hu.isMargin_eq_false]
    exact readSigned?_eq_some_iff.2 hu

end OctalScan.Text
