import OctalScan.Encoding.Basic
import OctalScan.Proofs.Escaped

/-!
# Encoded texts

The bytes that a text is written as in each encoding that can hold it (`Encoding.encode?`). They are
decoded to the same text (`Encoding.decode_of_encode?`): each character is read back from its bytes,
whatever follows and whatever was read before.
-/

namespace OctalScan

theorem toNat_byte {n : Nat} (h : n < 0x100) : (UInt8.ofNat n).toNat = n :=
  UInt8.toNat_ofNat_of_lt' h

/-! ### UTF-8 -/

namespace Utf8

variable {whole bytes : List UInt8} {done : Text} {b pos : Nat}

theorem lead_one (pos : Nat) (h : b < 0x80) : lead b pos = some ⟨0, 0x80, 0xBF, b, pos⟩ := by
  rw [lead, if_pos h]

theorem lead_two (pos : Nat) (h : 0xC2 ≤ b) (h' : b < 0xE0) :
    lead b pos = some ⟨1, 0x80, 0xBF, b - 0xC0, pos⟩ := by
  rw [lead, if_neg (by omega), if_neg (by omega), if_pos h']

/-- The first of two more bytes is narrowed behind two of the lead bytes. -/
theorem lead_three (pos : Nat) (h : 0xE0 ≤ b) (h' : b < 0xF0) :
    lead b pos = some ⟨2, if b = 0xE0 then 0xA0 else 0x80, if b = 0xED then 0x9F else 0xBF,
      b - 0xE0, pos⟩ := by
  rw [lead, if_neg (by omega), if_neg (by omega), if_neg (by omega)]
  grind

theorem lead_four (pos : Nat) (h : 0xF0 ≤ b) (h' : b ≤ 0xF4) :
    lead b pos = some ⟨3, if b = 0xF0 then 0x90 else 0x80, if b = 0xF4 then 0x8F else 0xBF,
      b - 0xF0, pos⟩ := by
  rw [lead, if_neg (by omega), if_neg (by omega), if_neg (by omega), if_neg (by omega),
    if_neg (by omega), if_neg (by omega)]
  grind

/-- A code point with the six bits of one more byte. -/
def extendValue (v : Nat) (b : UInt8) : Nat := 64 * v + (b.toNat - 0x80)

theorem extendValue_eq (v : Nat) (b : UInt8) : extendValue v b = 64 * v + (b.toNat - 0x80) := rfl

section

variable {b : UInt8} {low high v first : Nat} (hb : low ≤ b.toNat ∧ b.toNat ≤ high)
include hb

theorem decodeOnto_last : decodeOnto whole done (some ⟨1, low, high, v, first⟩) pos (b :: bytes) =
    decodeOnto whole (Char.ofNat (extendValue v b) :: done) none (pos + 1) bytes := by
  rw [decodeOnto]
  simp only [hb, and_self, if_true, Pending.extend]
  rfl

theorem decodeOnto_more {n : Nat} :
    decodeOnto whole done (some ⟨n + 2, low, high, v, first⟩) pos (b :: bytes) =
      decodeOnto whole done (some ⟨n + 1, 0x80, 0xBF, extendValue v b, first⟩) (pos + 1) bytes := by
  rw [decodeOnto]
  simp only [hb, and_self, if_true, Pending.extend]
  rfl

/-- A character takes up the bytes that it still needs. Only the first of them can have a narrower
range than continuation bytes have. -/
theorem decodeOnto_needed {bs : List UInt8} (hbs : ∀ b ∈ bs, 0x80 ≤ b.toNat ∧ b.toNat ≤ 0xBF) :
    decodeOnto whole done (some ⟨bs.length + 1, low, high, v, first⟩) pos (b :: bs ++ bytes) =
      decodeOnto whole (Char.ofNat ((b :: bs).foldl extendValue v) :: done) none
        (pos + (bs.length + 1)) bytes := by
  induction bs generalizing b low high v pos with
  | nil => exact decodeOnto_last hb
  | cons b' bs ih =>
    obtain ⟨hb', hbs'⟩ := List.forall_mem_cons.1 hbs
    have hpos : pos + 1 + (bs.length + 1) = pos + ((b' :: bs).length + 1) := by
      rw [List.length_cons]
      omega
    rw [← hpos, List.cons_append, List.cons_append, List.length_cons, decodeOnto_more hb,
      ← List.cons_append, ih hb' hbs']
    simp only [List.foldl_cons]

end

/-- A lead byte and the bytes that it calls for are read as the character whose bits they hold. -/
theorem decodeOnto_lead {c : Char} {b b' : UInt8} {bs : List UInt8} {low high v : Nat}
    (hlead : lead b.toNat pos = some ⟨bs.length + 1, low, high, v, pos⟩)
    (hb' : low ≤ b'.toNat ∧ b'.toNat ≤ high)
    (hbs : ∀ b ∈ bs, 0x80 ≤ b.toNat ∧ b.toNat ≤ 0xBF)
    (hvalue : (b' :: bs).foldl extendValue v = c.toNat) :
    decodeOnto whole done none pos (b :: b' :: bs ++ bytes) =
      decodeOnto whole (c :: done) none (pos + (b :: b' :: bs).length) bytes := by
  have hstep : decodeOnto whole done none pos (b :: b' :: bs ++ bytes) =
      decodeOnto whole done (some ⟨bs.length + 1, low, high, v, pos⟩) (pos + 1)
        (b' :: bs ++ bytes) := by
    rw [List.cons_append, decodeOnto]
    simp only [hlead]
    rfl
  have hpos : pos + 1 + (bs.length + 1) = pos + (b :: b' :: bs).length := by
    simp only [List.length_cons]
    omega
  rw [hstep, decodeOnto_needed hb' hbs, hpos, hvalue, Char.ofNat_toNat]

/-- A character is read back from its bytes. -/
theorem decodeOnto_encodeChar (c : Char) :
    decodeOnto whole done none pos (String.utf8EncodeChar c ++ bytes) =
      decodeOnto whole (c :: done) none (pos + (String.utf8EncodeChar c).length) bytes := by
  have hvalid := Text.toNat_valid c
  fun_cases String.utf8EncodeChar c with
  | case1 n hone =>
    have hn : n = c.toNat := rfl
    have hbyte := toNat_byte (n := n) (by omega)
    rw [List.singleton_append, decodeOnto]
    simp only [hbyte, lead_one pos (Nat.lt_succ_of_le hone), if_true]
    rw [hn, Char.ofNat_toNat]
    rfl
  | case2 n hone htwo =>
    have hn : n = c.toNat := rfl
    have h0 := toNat_byte (n := n / 64 % 32 + 192) (by omega)
    have h1 := toNat_byte (n := n % 64 + 128) (by omega)
    have hlead := lead_two (b := n / 64 % 32 + 192) pos (by omega) (by omega)
    rw [← h0] at hlead
    refine decodeOnto_lead hlead (by omega) (List.forall_mem_nil _) ?_
    simp only [List.foldl_cons, List.foldl_nil, extendValue_eq, h0, h1]
    omega
  | case3 n hone htwo hthree =>
    have hn : n = c.toNat := rfl
    have h0 := toNat_byte (n := n / 4096 % 16 + 224) (by omega)
    have h1 := toNat_byte (n := n / 64 % 64 + 128) (by omega)
    have h2 := toNat_byte (n := n % 64 + 128) (by omega)
    have hlead := lead_three (b := n / 4096 % 16 + 224) pos (by omega) (by omega)
    rw [← h0] at hlead
    refine decodeOnto_lead hlead ?_ (List.forall_mem_singleton.2 (by omega)) ?_
    · rw [h0, h1]
      constructor <;> split <;> omega
    · simp only [List.foldl_cons, List.foldl_nil, extendValue_eq, h0, h1, h2]
      omega
  | case4 n hone htwo hthree =>
    have hn : n = c.toNat := rfl
    have h0 := toNat_byte (n := n / 262144 % 8 + 240) (by omega)
    have h1 := toNat_byte (n := n / 4096 % 64 + 128) (by omega)
    have h2 := toNat_byte (n := n / 64 % 64 + 128) (by omega)
    have h3 := toNat_byte (n := n % 64 + 128) (by omega)
    have hlead := lead_four (b := n / 262144 % 8 + 240) pos (by omega) (by omega)
    rw [← h0] at hlead
    refine decodeOnto_lead hlead ?_ (List.forall_mem_cons.2 ⟨by omega,
      List.forall_mem_singleton.2 (by omega)⟩) ?_
    · rw [h0, h1]
      constructor <;> split <;> omega
    · simp only [List.foldl_cons, List.foldl_nil, extendValue_eq, h0, h1, h2, h3]
      omega

def encode (t : Text) : List UInt8 := t.flatMap String.utf8EncodeChar

theorem decodeOnto_encode (t : Text) :
    decodeOnto whole done none pos (encode t) = .ok (done.reverse ++ t) := by
  induction t generalizing done pos with
  | nil => simp [encode, decodeOnto]
  | cons c t ih =>
    have hcons : encode (c :: t) = String.utf8EncodeChar c ++ encode t := List.flatMap_cons
    rw [hcons, decodeOnto_encodeChar, ih, List.reverse_cons, List.append_assoc,
      List.singleton_append]

theorem decode_encode (t : Text) : decode (encode t) = .ok t := decodeOnto_encode t

/-- The mark in front is no part of the text. -/
theorem decodeMarked_encode (t : Text) : decodeMarked (mark ++ encode t) = .ok t := by
  have hlength : ¬(mark ++ encode t).length < mark.length := by
    rw [List.length_append]
    omega
  have hmark : mark.isPrefixOf (mark ++ encode t) = true :=
    List.isPrefixOf_iff_prefix.2 (List.prefix_append _ _)
  rw [decodeMarked, if_neg fun h => hlength h.1, if_pos hmark, List.drop_left, decode_encode]

end Utf8

/-! ### UTF-16 -/

namespace Utf16

/-- The two bytes of a unit. -/
def ByteOrder.bytes (o : ByteOrder) (u : Nat) : List UInt8 :=
  match o with
  | little => [UInt8.ofNat (u % 0x100), UInt8.ofNat (u / 0x100)]
  | big => [UInt8.ofNat (u / 0x100), UInt8.ofNat (u % 0x100)]

variable {o : ByteOrder} {whole bytes : List UInt8} {done : Text} {pos : Nat}

/-- The units of a character: one, or two halves. -/
def units (c : Char) : List Nat :=
  if c.toNat < 0x10000 then [c.toNat]
  else [0xD800 + (c.toNat - 0x10000) / 0x400, 0xDC00 + (c.toNat - 0x10000) % 0x400]

def encode (o : ByteOrder) (t : Text) : List UInt8 :=
  t.flatMap fun c => (units c).flatMap o.bytes

theorem exists_bytes (o : ByteOrder) {u : Nat} (h : u < 0x10000) :
    ∃ a b, o.bytes u = [a, b] ∧ o.unit a b = u := by
  have hlow := toNat_byte (n := u % 0x100) (by omega)
  have hhigh := toNat_byte (n := u / 0x100) (by omega)
  cases o with
  | little =>
    refine ⟨_, _, rfl, ?_⟩
    simp only [ByteOrder.unit, hlow, hhigh]
    omega
  | big =>
    refine ⟨_, _, rfl, ?_⟩
    simp only [ByteOrder.unit, hlow, hhigh]
    omega

theorem isLow_toNat (c : Char) : isLow c.toNat = false := by
  have hvalid := Text.toNat_valid c
  simp only [isLow, Bool.and_eq_false_iff, decide_eq_false_iff_not]
  omega

theorem isLow_secondHalf (n : Nat) : isLow (0xDC00 + n % 0x400) = true := by
  simp only [isLow, Bool.and_eq_true, decide_eq_true_eq]
  omega

/-- A character is read back from its units. -/
theorem decodeOnto_units (c : Char) :
    decodeOnto o whole done none pos ((units c).flatMap o.bytes ++ bytes) =
      decodeOnto o whole (c :: done) none (pos + 2 * (units c).length) bytes := by
  have hvalid := Text.toNat_valid c
  rw [units]
  split
  · next h =>
    obtain ⟨a, b, hbytes, hunit⟩ := exists_bytes o h
    simp [hbytes, decodeOnto, hunit, Text.isHigh_toNat, isLow_toNat]
  · next h =>
    obtain ⟨a, b, hbytes, hunit⟩ :=
      exists_bytes o (u := 0xD800 + (c.toNat - 0x10000) / 0x400) (by omega)
    obtain ⟨a', b', hbytes', hunit'⟩ :=
      exists_bytes o (u := 0xDC00 + (c.toNat - 0x10000) % 0x400) (by omega)
    simp [hbytes, hbytes', decodeOnto, hunit, hunit', Text.isHigh_firstHalf, isLow_secondHalf,
      Text.join_halves (Nat.le_of_not_lt h)]

theorem decodeOnto_encode (t : Text) :
    decodeOnto o whole done none pos (encode o t) = .ok (done.reverse ++ t) := by
  induction t generalizing done pos with
  | nil => simp [encode, decodeOnto]
  | cons c t ih =>
    have hcons : encode o (c :: t) = (units c).flatMap o.bytes ++ encode o t := List.flatMap_cons
    rw [hcons, decodeOnto_units, ih, List.reverse_cons, List.append_assoc, List.singleton_append]

end Utf16

/-! ### Encodings -/

namespace Encoding

variable {t : Text} {bytes : List UInt8}

/-- Whether all characters of a text are below a bound. -/
def isBelow (n : Nat) (t : Text) : Bool := t.all fun c => decide (c.toNat < n)

theorem isBelow_iff {n : Nat} : isBelow n t = true ↔ ∀ c ∈ t, c.toNat < n := by
  simp only [isBelow, List.all_eq_true, decide_eq_true_eq]

/-- The bytes of a text in which each character is a byte. -/
def oneByteEach (t : Text) : List UInt8 := t.map fun c => UInt8.ofNat c.toNat

/-- The bytes that a text is written as, if the encoding has any for it. A mark in UTF-16 tells that
the low byte of a unit comes first. -/
def encode? (e : Encoding) (t : Text) : Option (List UInt8) :=
  match e with
  | utf8 => some (Utf8.encode t)
  | utf8Marked => some (Utf8.mark ++ Utf8.encode t)
  | ascii => if isBelow 0x80 t then some (oneByteEach t) else none
  | latin1 => if isBelow 0x100 t then some (oneByteEach t) else none
  | utf16 => some (0xFF :: 0xFE :: Utf16.encode .little t)
  | utf16Little => some (Utf16.encode .little t)
  | rot13 => none

theorem map_oneByteEach (h : ∀ c ∈ t, c.toNat < 0x100) :
    (oneByteEach t).map (fun b => Char.ofNat b.toNat) = t := by
  rw [oneByteEach, List.map_map]
  refine (List.map_congr_left fun c hc => ?_).trans (List.map_id t)
  rw [Function.comp_apply, toNat_byte (h c hc), Char.ofNat_toNat, id]

theorem decodeAscii_oneByteEach (h : ∀ c ∈ t, c.toNat < 0x80) :
    decodeAscii (oneByteEach t) = .ok t := by
  have hbyte : ∀ c ∈ t, c.toNat < 0x100 := fun c hc => Nat.lt_trans (h c hc) (by decide)
  have hnone : (oneByteEach t).findIdx? (fun b => decide (0x80 ≤ b.toNat)) = none := by
    rw [List.findIdx?_eq_none_iff]
    intro b hb
    obtain ⟨c, hc, rfl⟩ := List.mem_map.1 hb
    rw [toNat_byte (hbyte c hc)]
    exact decide_eq_false (Nat.not_le_of_lt (h c hc))
  rw [decodeAscii, hnone]
  exact congrArg Except.ok (map_oneByteEach hbyte)

/-- What is written in an encoding is read in it as the same text. -/
theorem decode_of_encode? {e : Encoding} (h : e.encode? t = some bytes) : e.decode bytes = .ok t := by
  cases e with
  | utf8 =>
    cases h
    rw [decode, Utf8.decode_encode]
    rfl
  | utf8Marked =>
    cases h
    rw [decode, Utf8.decodeMarked_encode]
    rfl
  | ascii =>
    obtain ⟨hbelow, hbytes⟩ := Option.ite_none_right_eq_some.1 h
    cases hbytes
    rw [decode, decodeAscii_oneByteEach (isBelow_iff.1 hbelow)]
    rfl
  | latin1 =>
    obtain ⟨hbelow, hbytes⟩ := Option.ite_none_right_eq_some.1 h
    cases hbytes
    rw [decode, map_oneByteEach (isBelow_iff.1 hbelow)]
  | utf16 =>
    cases h
    rw [decode, decodeUtf16, Utf16.splitMark]
    simp only [Utf16.decodeOnto_encode]
    rfl
  | utf16Little =>
    cases h
    rw [decode, Utf16.decode, Utf16.decodeOnto_encode]
    rfl
  | rot13 => cases h

end Encoding

end OctalScan
