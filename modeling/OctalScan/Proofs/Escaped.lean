import OctalScan.Encoding.Utf16
import OctalScan.Text.Escaped

/-!
# Escaped texts are read back

Every character inside a JSON string is written in printable ASCII (`Text.isPlain_of_mem_escaped`)
and can be read back from how it is written, whatever follows (`Text.readChar?_escapeChar`): a
backslash announces a named control or a UTF-16 unit, and a unit that is the first half of a
character announces the second. So the end of a string is found, and its text is determined, from
what is written alone (`Text.escaped_append_inj`).
-/

namespace OctalScan.Text

/-- Printable ASCII. -/
def isPlain (c : Char) : Bool := 0x20 ≤ c.toNat && c.toNat < 0x7F

/-! ### Hexadecimal numerals -/

/-- The value of a hexadecimal digit in lower case. -/
def hexValue (c : Char) : Nat := if c.isDigit then c.toNat - 0x30 else c.toNat - 0x57

/-- The number that hexadecimal digits denote. -/
def ofHex (t : Text) : Nat := t.foldl (fun n c => 16 * n + hexValue c) 0

theorem hexValue_digitChar : ∀ d < 16, hexValue (Nat.digitChar d) = d := by decide

theorem isPlain_digitChar : ∀ d < 16, isPlain (Nat.digitChar d) = true := by decide

theorem ofHex_concat (t : Text) (c : Char) : ofHex (t ++ [c]) = 16 * ofHex t + hexValue c := by
  simp [ofHex]

theorem ofHex_hex (n : Nat) : ofHex (hex n) = n := by
  rw [hex, Nat.toDigits_eq_if (by decide)]
  split
  · next h => simp [ofHex, hexValue_digitChar n h]
  · have ih := ofHex_hex (n / 16)
    rw [hex] at ih
    rw [ofHex_concat, ih, hexValue_digitChar _ (Nat.mod_lt n (by decide))]
    omega
termination_by n

theorem isPlain_of_mem_hex {n : Nat} {c : Char} (hc : c ∈ hex n) : isPlain c = true := by
  rw [hex, Nat.toDigits_eq_if (by decide)] at hc
  split at hc
  · next h =>
    rw [List.mem_singleton.1 hc]
    exact isPlain_digitChar n h
  · rcases List.mem_append.1 hc with hc | hc
    · exact isPlain_of_mem_hex hc
    · rw [List.mem_singleton.1 hc]
      exact isPlain_digitChar _ (Nat.mod_lt n (by decide))
termination_by n

theorem ofHex_leftpad (k : Nat) (t : Text) : ofHex (t.leftpad k '0') = ofHex t := by
  have hzeros (j : Nat) : ofHex (List.replicate j '0') = 0 := by
    induction j with
    | zero => rfl
    | succ j ih =>
      rw [List.replicate_succ', ofHex_concat, ih]
      rfl
  have hstart := hzeros (k - t.length)
  rw [ofHex] at hstart
  rw [List.leftpad, ofHex, List.foldl_append, hstart, ofHex]

/-! ### Reading -/

/-- Reads one escaped UTF-16 unit. -/
def readUnit? : Text → Option (Nat × Text)
  | '\\' :: 'u' :: a :: b :: c :: d :: t => some (ofHex [a, b, c, d], t)
  | _ => none

/-- The character that a letter behind a backslash names. -/
def named? : Char → Option Char
  | '"' => some '"'
  | '\\' => some '\\'
  | 'n' => some '\n'
  | 'r' => some '\r'
  | 't' => some '\t'
  | 'b' => some '\x08'
  | 'f' => some '\x0c'
  | _ => none

/-- Reads one character of a JSON string; the quote that ends the string is none. -/
def readChar? (t : Text) : Option (Char × Text) :=
  match readUnit? t with
  | some (u, t) =>
    if Utf16.isHigh u then (readUnit? t).map fun (low, t) => (Utf16.join u low, t)
    else some (Char.ofNat u, t)
  | none =>
    match t with
    | '\\' :: x :: t => (named? x).map fun c => (c, t)
    | '"' :: _ => none
    | x :: t => some (x, t)
    | [] => none

theorem readUnit?_unitEscape {n : Nat} (h : n < 0x10000) (t : Text) :
    readUnit? (unitEscape n ++ t) = some (n, t) := by
  have hdigits : (hex n).length ≤ 4 :=
    (Nat.length_toDigits_le_iff (by decide) (by decide)).2 h
  have hlength : ((hex n).leftpad 4 '0').length = 4 := by
    rw [List.length_leftpad, Nat.max_eq_left hdigits]
  have hvalue : ofHex ((hex n).leftpad 4 '0') = n := by rw [ofHex_leftpad, ofHex_hex]
  match hpad : (hex n).leftpad 4 '0' with
  | [a, b, c, d] =>
    rw [hpad] at hvalue
    rw [unitEscape, hpad]
    simp [readUnit?, hvalue]
  | [] | [_] | [_, _] | [_, _, _] | _ :: _ :: _ :: _ :: _ :: _ =>
    rw [hpad] at hlength
    simp at hlength

theorem readUnit?_of_ne {x : Char} (hx : x ≠ '\\') (t : Text) : readUnit? (x :: t) = none := by
  unfold readUnit?
  split
  · next h => exact absurd (List.cons.inj h).1 hx
  · rfl

theorem readUnit?_of_named {x : Char} (hx : x ≠ 'u') (t : Text) :
    readUnit? ('\\' :: x :: t) = none := by
  unfold readUnit?
  split
  · next h => exact absurd (List.cons.inj (List.cons.inj h).2).1 hx
  · rfl

theorem readChar?_of_named {x c : Char} (hx : x ≠ 'u') (hc : named? x = some c) (t : Text) :
    readChar? ('\\' :: x :: t) = some (c, t) := by
  simp [readChar?, readUnit?_of_named hx, hc]

theorem readChar?_of_unit {t rest : Text} {u : Nat} (h : readUnit? t = some (u, rest))
    (hu : Utf16.isHigh u = false) : readChar? t = some (Char.ofNat u, rest) := by
  simp [readChar?, h, hu]

theorem readChar?_of_units {t mid rest : Text} {u v : Nat} (h : readUnit? t = some (u, mid))
    (hu : Utf16.isHigh u = true) (hmid : readUnit? mid = some (v, rest)) :
    readChar? t = some (Utf16.join u v, rest) := by
  simp [readChar?, h, hu, hmid]

theorem readChar?_of_plain {x : Char} (hquote : x ≠ '"') (hslash : x ≠ '\\') (t : Text) :
    readChar? (x :: t) = some (x, t) := by
  simp only [readChar?, readUnit?_of_ne hslash]
  split
  · next h => exact absurd (List.cons.inj h).1 hslash
  · next h => exact absurd (List.cons.inj h).1 hquote
  · next h =>
    cases h
    rfl
  · next h => cases h

theorem toNat_valid (c : Char) :
    c.toNat < 0xD800 ∨ (0xDFFF < c.toNat ∧ c.toNat < 0x110000) := by
  have hvalid := c.valid
  simp only [UInt32.isValidChar, Nat.isValidChar] at hvalid
  exact hvalid

/-- No character is half of a pair of units. -/
theorem isHigh_toNat (c : Char) : Utf16.isHigh c.toNat = false := by
  have hvalid := toNat_valid c
  simp only [Utf16.isHigh, Bool.and_eq_false_iff, decide_eq_false_iff_not]
  omega

theorem isHigh_firstHalf (c : Char) :
    Utf16.isHigh (0xD800 + (c.toNat - 0x10000) / 0x400) = true := by
  have hvalid := toNat_valid c
  simp only [Utf16.isHigh, Bool.and_eq_true, decide_eq_true_eq]
  omega

theorem join_halves {c : Char} (h : 0x10000 ≤ c.toNat) :
    Utf16.join (0xD800 + (c.toNat - 0x10000) / 0x400) (0xDC00 + (c.toNat - 0x10000) % 0x400) =
      c := by
  have hvalue : 0x10000 + 0x400 * (0xD800 + (c.toNat - 0x10000) / 0x400 - 0xD800) +
      (0xDC00 + (c.toNat - 0x10000) % 0x400 - 0xDC00) = c.toNat := by omega
  rw [Utf16.join, hvalue, Char.ofNat_toNat]

/-! ### The forms of a character -/

/-- The four ways to write a character inside a JSON string. -/
inductive Form (c : Char) : Text → Prop
  | named {x : Char} (hx : x ≠ 'u') (hplain : isPlain x = true) (hc : named? x = some c) :
      Form c ['\\', x]
  | plain (hquote : c ≠ '"') (hslash : c ≠ '\\') (hplain : isPlain c = true) : Form c [c]
  | unit (h : c.toNat < 0x10000) : Form c (unitEscape c.toNat)
  | pair (h : 0x10000 ≤ c.toNat) : Form c
      (unitEscape (0xD800 + (c.toNat - 0x10000) / 0x400) ++
        unitEscape (0xDC00 + (c.toNat - 0x10000) % 0x400))

theorem form_escapeChar (c : Char) : Form c (escapeChar c) := by
  have heq {d : Char} (h : c.toNat = d.toNat) : d = c := by
    rw [← Char.ofNat_toNat d, ← h, Char.ofNat_toNat]
  simp only [escapeChar]
  split
  · next h => exact .named (by decide) rfl (congrArg some h.symm)
  split
  · next h => exact .named (by decide) rfl (congrArg some h.symm)
  split
  · next h => exact .named (by decide) rfl (congrArg some h.symm)
  split
  · next h => exact .named (by decide) rfl (congrArg some h.symm)
  split
  · next h => exact .named (by decide) rfl (congrArg some h.symm)
  split
  · next h => exact .named (by decide) rfl (congrArg some (heq (d := '\x08') h))
  split
  · next h => exact .named (by decide) rfl (congrArg some (heq (d := '\x0c') h))
  split
  · next hquote hslash _ _ _ _ _ hplain => exact .plain hquote hslash hplain
  split
  · next h => exact .unit h
  · next h => exact .pair (Nat.le_of_not_lt h)

theorem Form.readChar?_eq {c : Char} {u : Text} (hu : Form c u) (t : Text) :
    readChar? (u ++ t) = some (c, t) := by
  cases hu with
  | named hx _ hc => exact readChar?_of_named hx hc t
  | plain hquote hslash _ => exact readChar?_of_plain hquote hslash t
  | unit h =>
    rw [readChar?_of_unit (readUnit?_unitEscape h t) (isHigh_toNat c), Char.ofNat_toNat]
  | pair h =>
    have hvalid := toNat_valid c
    have hfirst : 0xD800 + (c.toNat - 0x10000) / 0x400 < 0x10000 := by omega
    have hsecond : 0xDC00 + (c.toNat - 0x10000) % 0x400 < 0x10000 := by omega
    rw [List.append_assoc, readChar?_of_units (readUnit?_unitEscape hfirst _) (isHigh_firstHalf c)
      (readUnit?_unitEscape hsecond t), join_halves h]

/-- However a character is written inside a JSON string, it is read back. -/
theorem readChar?_escapeChar (c : Char) (t : Text) :
    readChar? (escapeChar c ++ t) = some (c, t) := (form_escapeChar c).readChar?_eq t

/-- A JSON string and what follows it determine its text. -/
theorem escaped_append_inj {s s' x y : Text} (h : escaped s ++ x = escaped s' ++ y) :
    s = s' ∧ x = y := by
  simp only [escaped, List.cons_append, List.append_assoc, List.cons.injEq, true_and,
    List.nil_append] at h
  -- at each place both sides are read: either both end or both have the same character
  have hchar (c : Char) (s u : Text) : readChar? ((c :: s).flatMap escapeChar ++ '"' :: u) =
      some (c, s.flatMap escapeChar ++ '"' :: u) := by
    rw [List.flatMap_cons, List.append_assoc, readChar?_escapeChar]
  induction s generalizing s' with
  | nil =>
    cases s' with
    | nil => exact ⟨rfl, (List.cons.inj h).2⟩
    | cons c s' =>
      have hread := congrArg readChar? h
      rw [hchar] at hread
      cases hread
  | cons c s ih =>
    have hread := congrArg readChar? h
    rw [hchar] at hread
    cases s' with
    | nil => cases hread
    | cons c' s' =>
      rw [hchar] at hread
      obtain ⟨rfl, hrest⟩ := Prod.mk.inj (Option.some.inj hread)
      obtain ⟨rfl, hxy⟩ := ih hrest
      exact ⟨rfl, hxy⟩

/-! ### Printable ASCII -/

theorem isPlain_of_mem_unitEscape {n : Nat} {x : Char} (hx : x ∈ unitEscape n) :
    isPlain x = true := by
  rw [unitEscape, List.leftpad] at hx
  rcases List.mem_cons.1 hx with rfl | hx
  · rfl
  rcases List.mem_cons.1 hx with rfl | hx
  · rfl
  rcases List.mem_append.1 hx with hx | hx
  · rw [List.eq_of_mem_replicate hx]
    rfl
  · exact isPlain_of_mem_hex hx

theorem Form.isPlain_of_mem {c x : Char} {u : Text} (hu : Form c u) (hx : x ∈ u) :
    isPlain x = true := by
  cases hu with
  | named _ hplain _ =>
    rcases List.mem_cons.1 hx with rfl | hx
    · rfl
    · rwa [List.mem_singleton.1 hx]
  | plain _ _ hplain => rwa [List.mem_singleton.1 hx]
  | unit _ => exact isPlain_of_mem_unitEscape hx
  | pair _ => rcases List.mem_append.1 hx with hx | hx <;> exact isPlain_of_mem_unitEscape hx

theorem isPlain_of_mem_escaped {t : Text} {x : Char} (hx : x ∈ escaped t) : isPlain x = true := by
  rw [escaped] at hx
  rcases List.mem_append.1 hx with hx | hx
  · rcases List.mem_cons.1 hx with rfl | hx
    · rfl
    · obtain ⟨c, -, hc⟩ := List.mem_flatMap.1 hx
      exact (form_escapeChar c).isPlain_of_mem hc
  · rw [List.mem_singleton.1 hx]
    rfl

end OctalScan.Text
