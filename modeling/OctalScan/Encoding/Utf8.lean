import OctalScan.Encoding.Error

/-!
# UTF-8

A character is one byte, or a lead byte and one to three continuation bytes. The lead byte narrows
the range of the byte after it so that every character has one form only and surrogates have none.
A decoding error spans the longest beginning of a character that the bytes still were.
-/

namespace OctalScan.Utf8

/-- A character that is not complete: how many bytes it still needs, the range of the next one, the
value so far, and where it began. -/
structure Pending where
  needed : Nat
  low : Nat
  high : Nat
  value : Nat
  first : Nat

/-- What a byte begins: the character that it still needs bytes for, or none that is valid. -/
def lead (b pos : Nat) : Option Pending :=
  if b < 0x80 then some ⟨0, 0x80, 0xBF, b, pos⟩
  else if b < 0xC2 then none
  else if b < 0xE0 then some ⟨1, 0x80, 0xBF, b - 0xC0, pos⟩
  else if b = 0xE0 then some ⟨2, 0xA0, 0xBF, 0, pos⟩
  else if b = 0xED then some ⟨2, 0x80, 0x9F, b - 0xE0, pos⟩
  else if b < 0xF0 then some ⟨2, 0x80, 0xBF, b - 0xE0, pos⟩
  else if b = 0xF0 then some ⟨3, 0x90, 0xBF, 0, pos⟩
  else if b < 0xF4 then some ⟨3, 0x80, 0xBF, b - 0xF0, pos⟩
  else if b = 0xF4 then some ⟨3, 0x80, 0x8F, b - 0xF0, pos⟩
  else none

def Pending.extend (p : Pending) (b : Nat) : Pending :=
  ⟨p.needed - 1, 0x80, 0xBF, 64 * p.value + (b - 0x80), p.first⟩

def fault (whole : List UInt8) (first stop : Nat) (f : DecodeFault) : DecodeError :=
  ⟨"utf-8".toList, whole, first, stop, f⟩

/-- Decodes the bytes of `whole` from position `pos` on, after the characters that `done` holds in
reverse; `p` is the character that is not complete there. -/
def decodeOnto (whole : List UInt8) (done : Text) (p : Option Pending) (pos : Nat) :
    List UInt8 → Except DecodeError Text
  | [] =>
    match p with
    | none => .ok done.reverse
    | some p => .error (fault whole p.first pos .unexpectedEnd)
  | b :: bytes =>
    match p with
    | none =>
      match lead b.toNat pos with
      | none => .error (fault whole pos (pos + 1) .invalidStart)
      | some p =>
        if p.needed = 0 then decodeOnto whole (Char.ofNat p.value :: done) none (pos + 1) bytes
        else decodeOnto whole done (some p) (pos + 1) bytes
    | some p =>
      if p.low ≤ b.toNat ∧ b.toNat ≤ p.high then
        let p := p.extend b.toNat
        if p.needed = 0 then decodeOnto whole (Char.ofNat p.value :: done) none (pos + 1) bytes
        else decodeOnto whole done (some p) (pos + 1) bytes
      else .error (fault whole p.first pos .invalidContinuation)

def decode (bytes : List UInt8) : Except DecodeError Text := decodeOnto bytes [] none 0 bytes

/-- The bytes that mark a text as UTF-8 when they stand in front of it. -/
def mark : List UInt8 := [0xEF, 0xBB, 0xBF]

/-- The text that bytes encode after a mark that may be left out. A mark that breaks off is no text
yet. -/
def decodeMarked (bytes : List UInt8) : Except DecodeError Text :=
  if bytes.length < mark.length ∧ bytes.isPrefixOf mark then .ok []
  else if mark.isPrefixOf bytes then decode (bytes.drop mark.length)
  else decode bytes

/-- The beginning of a text that takes at most `n` bytes. A character that is cut in two is
replaced. -/
def clip (n : Nat) : Text → Text
  | [] => []
  | c :: t =>
    if c.utf8Size ≤ n then c :: clip (n - c.utf8Size) t
    else if n = 0 then []
    else ['\uFFFD']

end OctalScan.Utf8
