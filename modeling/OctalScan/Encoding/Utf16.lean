import OctalScan.Encoding.Error

/-!
# UTF-16

Two bytes make a unit; a unit is a character, or two surrogate units, a high one and a low one, make
one. The bytes of a unit stand in either order, which a mark at the start of the text can tell.
-/

namespace OctalScan.Utf16

/-- The order of the bytes of a unit. -/
inductive ByteOrder where
  | little
  | big
  deriving DecidableEq, Repr

/-- The name of the encoding with a given order. -/
def ByteOrder.codec : ByteOrder → Text
  | little => "utf-16-le".toList
  | big => "utf-16-be".toList

def ByteOrder.unit (o : ByteOrder) (a b : UInt8) : Nat :=
  match o with
  | little => a.toNat + 0x100 * b.toNat
  | big => 0x100 * a.toNat + b.toNat

/-- Whether a unit is the first half of a character. -/
def isHigh (u : Nat) : Bool := 0xD800 ≤ u && u < 0xDC00

/-- Whether a unit is the second half of a character. -/
def isLow (u : Nat) : Bool := 0xDC00 ≤ u && u < 0xE000

def join (high low : Nat) : Char :=
  Char.ofNat (0x10000 + 0x400 * (high - 0xD800) + (low - 0xDC00))

/-- Decodes the bytes of `whole` from position `pos` on, after the characters that `done` holds in
reverse; `half` is the first half of a character that stands right before them. -/
def decodeOnto (o : ByteOrder) (whole : List UInt8) (done : Text) (half : Option Nat) (pos : Nat) :
    List UInt8 → Except DecodeError Text
  | [] =>
    match half with
    | none => .ok done.reverse
    | some _ => .error ⟨o.codec, whole, pos - 2, pos, .unexpectedEnd⟩
  | [_] =>
    match half with
    | none => .error ⟨o.codec, whole, pos, pos + 1, .truncated⟩
    | some _ => .error ⟨o.codec, whole, pos - 2, pos + 1, .unexpectedEnd⟩
  | a :: b :: bytes =>
    let u := o.unit a b
    match half with
    | some high =>
      if isLow u then decodeOnto o whole (join high u :: done) none (pos + 2) bytes
      else .error ⟨o.codec, whole, pos - 2, pos, .unpairedSurrogate⟩
    | none =>
      if isHigh u then decodeOnto o whole done (some u) (pos + 2) bytes
      else if isLow u then .error ⟨o.codec, whole, pos, pos + 2, .loneSurrogate⟩
      else decodeOnto o whole (Char.ofNat u :: done) none (pos + 2) bytes

/-- The text that bytes encode in a given order. -/
def decode (o : ByteOrder) (bytes : List UInt8) : Except DecodeError Text :=
  decodeOnto o bytes [] none 0 bytes

/-- The order that a mark at the start of the bytes tells, and the bytes after it. -/
def splitMark : List UInt8 → Option (ByteOrder × List UInt8)
  | 0xFF :: 0xFE :: bytes => some (.little, bytes)
  | 0xFE :: 0xFF :: bytes => some (.big, bytes)
  | _ => none

end OctalScan.Utf16
