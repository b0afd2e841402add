import OctalScan.Proofs.Escaped
import OctalScan.Proofs.Lexeme

/-!
# Numerals are read back

A numeral is a run of digits, so it ends where something else begins, and it denotes one number
(`Text.ofNat_append_inj`, `Text.ofInt_append_inj`).
-/

namespace OctalScan.Text

/-- A text into which no numeral goes on. -/
def Stops (t : Text) : Prop := ∀ c ∈ t.head?, c.isDigit = false

theorem Stops.cons {c : Char} (hc : c.isDigit = false) (t : Text) : Stops (c :: t) := by
  rintro _ ⟨⟩
  exact hc

theorem isDigit_of_mem_ofNat {n : Nat} {c : Char} (hc : c ∈ ofNat n) : c.isDigit = true :=
  Nat.isDigit_of_mem_toDigits (by decide) (by decide) hc

theorem ofNat_injective {m n : Nat} (h : ofNat m = ofNat n) : m = n := by
  have hvalue := congrArg (Nat.ofDigitChars 10 · 0) h
  simpa only [ofNat, Nat.ofDigitChars_ten_toDigits] using hvalue

/-- A numeral and what follows it determine its number. -/
theorem ofNat_append_inj {m n : Nat} {x y : Text} (hx : Stops x) (hy : Stops y)
    (h : ofNat m ++ x = ofNat n ++ y) : m = n ∧ x = y := by
  have hm : Run Char.isDigit (ofNat m) x := fun c hc => isDigit_of_mem_ofNat hc
  have hn : Run Char.isDigit (ofNat n) y := fun c hc => isDigit_of_mem_ofNat hc
  obtain ⟨hdigits, hrest⟩ := hm.append_inj hx hn hy h
  exact ⟨ofNat_injective hdigits, hrest⟩

/-- No numeral of a natural number begins with a minus sign. -/
theorem ofNat_append_ne (n : Nat) (x y : Text) : ofNat n ++ x ≠ '-' :: y := by
  intro h
  obtain ⟨c, t, ht⟩ := List.exists_cons_of_ne_nil (Nat.toDigits_ne_nil (n := n) (b := 10))
  have hc : c ∈ ofNat n := by
    rw [ofNat, ht]
    exact List.mem_cons_self
  rw [ofNat, ht] at h
  have hdigit := isDigit_of_mem_ofNat hc
  rw [(List.cons.inj h).1] at hdigit
  exact absurd hdigit (by decide)

theorem ofInt_append_inj {i j : Int} {x y : Text} (hx : Stops x) (hy : Stops y)
    (h : ofInt i ++ x = ofInt j ++ y) : i = j ∧ x = y := by
  match i, j with
  | .ofNat m, .ofNat n =>
    obtain ⟨rfl, hxy⟩ := ofNat_append_inj hx hy h
    exact ⟨rfl, hxy⟩
  | .ofNat m, .negSucc n => exact absurd h (ofNat_append_ne m _ _)
  | .negSucc m, .ofNat n => exact absurd h.symm (ofNat_append_ne n _ _)
  | .negSucc m, .negSucc n =>
    obtain ⟨hmn, hxy⟩ := ofNat_append_inj hx hy (List.cons.inj h).2
    rw [Nat.succ.inj hmn]
    exact ⟨rfl, hxy⟩

/-! ### Printable ASCII -/

theorem isPlain_of_isDigit {c : Char} (h : c.isDigit = true) : isPlain c = true := by
  simp only [Char.isDigit, Bool.and_eq_true, decide_eq_true_eq, UInt32.le_iff_toNat_le] at h
  simp only [isPlain, Bool.and_eq_true, decide_eq_true_eq]
  have hval : c.val.toNat = c.toNat := rfl
  simp only [Char.reduceVal, UInt32.reduceToNat, hval] at h
  omega

theorem isPlain_of_mem_ofNat {n : Nat} {c : Char} (hc : c ∈ ofNat n) : isPlain c = true :=
  isPlain_of_isDigit (isDigit_of_mem_ofNat hc)

theorem isPlain_of_mem_octal {n : Nat} {c : Char} (hc : c ∈ octal n) : isPlain c = true :=
  isPlain_of_isDigit (Nat.isDigit_of_mem_toDigits (by decide) (by decide) hc)

theorem isPlain_of_mem_ofInt {i : Int} {c : Char} (hc : c ∈ ofInt i) : isPlain c = true := by
  cases i with
  | ofNat n => exact isPlain_of_mem_ofNat hc
  | negSucc n =>
    rcases List.mem_cons.1 hc with rfl | hc
    · rfl
    · exact isPlain_of_mem_ofNat hc

end OctalScan.Text
