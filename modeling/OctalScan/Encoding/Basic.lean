import OctalScan.Encoding.Utf8
import OctalScan.Encoding.Utf16

/-!
# Encodings

The encodings that a source file may have, the names that they go by, and the text that bytes mean
in each of them.
-/

namespace OctalScan

/-- The known encodings. `rot13` is known by name but does not encode texts as bytes. -/
inductive Encoding where
  | utf8
  | utf8Marked
  | ascii
  | latin1
  | utf16
  | utf16Little
  | rot13
  deriving DecidableEq, Repr

/-- Why bytes yield no text. -/
inductive Unreadable where
  | bytes (e : DecodeError)
  | unmarked
  | notText
  deriving DecidableEq, Repr

namespace Encoding

def all : List Encoding := [utf8, utf8Marked, ascii, latin1, utf16, utf16Little, rot13]

/-- The proper name of an encoding, in the plain form that names are brought to before they are
compared. -/
def name : Encoding → Text
  | utf8 => "utf_8".toList
  | utf8Marked => "utf_8_sig".toList
  | ascii => "ascii".toList
  | latin1 => "latin_1".toList
  | utf16 => "utf_16".toList
  | utf16Little => "utf_16_le".toList
  | rot13 => "rot_13".toList

/-- The other names of an encoding, in plain form. -/
def aliases : Encoding → List Text
  | utf8 => ["utf8", "u8", "utf", "utf8_ucs2", "utf8_ucs4", "cp65001"].map String.toList
  | utf8Marked => []
  | ascii =>
    ["us_ascii", "us", "646", "ansi_x3.4_1968", "ansi_x3_4_1968", "ansi_x3.4_1986", "cp367",
      "csascii", "ibm367", "iso646_us", "iso_646.irv_1991", "iso_ir_6"].map String.toList
  | latin1 =>
    ["latin1", "latin", "l1", "iso_8859_1", "iso8859_1", "iso8859", "8859", "cp819",
      "csisolatin1", "ibm819", "iso_8859_1_1987", "iso_ir_100"].map String.toList
  | utf16 => ["utf16", "u16"].map String.toList
  | utf16Little => ["utf_16le", "unicodelittleunmarked"].map String.toList
  | rot13 => ["rot13"].map String.toList

/-- Whether a character of an encoding's name counts when names are compared. -/
def isNameChar (c : Char) : Bool := c.isAlphanum || c == '.'

/-- Brings a name to its plain form: lower case, with one underscore for every run of other
characters that stands between two that count. `gap` says whether such a run came last. -/
def plainOnto (done : Text) (gap : Bool) : Text → Text
  | [] => done.reverse
  | c :: t =>
    if isNameChar c then
      plainOnto (c.toLower :: (if gap && !done.isEmpty then '_' :: done else done)) false t
    else plainOnto done true t

def undotted (t : Text) : Text := t.map fun c => if c = '.' then '_' else c

/-- Whether an encoding has a given name in plain form. The dots in the name stand for themselves
or, in a name that is not the proper one, for underscores. -/
def isNamed (plain : Text) (e : Encoding) : Bool :=
  decide (e.name = plain) || e.aliases.contains plain || e.aliases.contains (undotted plain)

/-- The encoding with a given name. -/
def ofName? (name : Text) : Option Encoding := all.find? (isNamed (plainOnto [] false name))

/-- The text of bytes each of which is a character below 128. -/
def decodeAscii (bytes : List UInt8) : Except DecodeError Text :=
  match bytes.findIdx? fun b => decide (0x80 ≤ b.toNat) with
  | some i => .error ⟨"ascii".toList, bytes, i, i + 1, .notAscii⟩
  | none => .ok (bytes.map fun b => Char.ofNat b.toNat)

/-- The text of bytes in UTF-16 with a mark in front. Bytes without a mark are read in little
order to find faults, and yield a text only if there are none of them. -/
def decodeUtf16 (bytes : List UInt8) : Except Unreadable Text :=
  match Utf16.splitMark bytes with
  | some (o, rest) => (Utf16.decodeOnto o bytes [] none 2 rest).mapError .bytes
  | none =>
    match Utf16.decode .little bytes with
    | .error e => .error (.bytes e)
    | .ok t => if bytes.isEmpty then .ok t else .error .unmarked

def decode (e : Encoding) (bytes : List UInt8) : Except Unreadable Text :=
  match e with
  | utf8 => (Utf8.decode bytes).mapError .bytes
  | utf8Marked => (Utf8.decodeMarked bytes).mapError .bytes
  | ascii => (decodeAscii bytes).mapError .bytes
  | latin1 => .ok (bytes.map fun b => Char.ofNat b.toNat)
  | utf16 => decodeUtf16 bytes
  | utf16Little => (Utf16.decode .little bytes).mapError .bytes
  | rot13 => .error .notText

end Encoding

end OctalScan
