import OctalScan.Text.Basic

/-!
# Decoding errors

What is wrong with a sequence of bytes that no text encodes to, and where.
-/

namespace OctalScan

/-- The reasons for which bytes cannot be decoded. -/
inductive DecodeFault where
  | invalidStart
  | invalidContinuation
  | unexpectedEnd
  | notAscii
  | truncated
  | loneSurrogate
  | unpairedSurrogate
  | stated (reason : Text)
  deriving DecidableEq, Repr

def DecodeFault.message : DecodeFault → Text
  | invalidStart => "invalid start byte".toList
  | invalidContinuation => "invalid continuation byte".toList
  | unexpectedEnd => "unexpected end of data".toList
  | notAscii => "ordinal not in range(128)".toList
  | truncated => "truncated data".toList
  | loneSurrogate => "illegal encoding".toList
  | unpairedSurrogate => "illegal UTF-16 surrogate".toList
  | stated reason => reason

/-- Bytes that cannot be decoded: those from `first` up to but not including `stop`. Both may be any
integers in an error that was made by hand. -/
structure DecodeError where
  codec : Text
  bytes : List UInt8
  first : Int
  stop : Int
  fault : DecodeFault
  deriving DecidableEq, Repr

namespace DecodeError

/-- The byte at a position. Before the first byte all bits are set, and there is nothing behind the
last one. -/
def byteAt? (e : DecodeError) (i : Int) : Option UInt8 :=
  if i < 0 then some 0xFF else e.bytes[i.toNat]?

/-- The offending bytes: a single byte is shown, several are only located. -/
def subject (e : DecodeError) : Text :=
  match e.byteAt? e.first, decide (e.stop = e.first + 1) with
  | some byte, true =>
    "byte 0x".toList ++ (Text.hex byte.toNat).leftpad 2 '0' ++ " in position ".toList ++
      Text.ofInt e.first
  | _, _ =>
    "bytes in position ".toList ++ Text.ofInt e.first ++ '-' :: Text.ofInt (e.stop - 1)

def message (e : DecodeError) : Text :=
  '\'' :: e.codec ++ "' codec can't decode ".toList ++ e.subject ++ ": ".toList ++ e.fault.message

end DecodeError

end OctalScan
