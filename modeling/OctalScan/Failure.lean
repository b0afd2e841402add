import OctalScan.Datum
import OctalScan.Diagnostic
import OctalScan.Encoding.Error

/-!
# Failures

Everything that can go wrong, as its cause, with one wording for each (`Failure.message`). What a
failure is blamed on decides the status that the command ends with (`Failure.status`).
-/

namespace OctalScan

/-- How a file can be out of reach. -/
inductive FileFault where
  | missing
  | forbidden
  | directory
  deriving DecidableEq, Repr

/-- Faults of a program, rather than of the source or the file that it works on. -/
inductive Defect where
  | value (message : Text)
  | key (name : Text)
  | index (message : Text)
  | runtime (message : Text)
  | lookup (message : Text)
  | overflow (message : Text)
  | excess (e : Excess)
  | incomparable (relation : Relation) (left right : Text)
  deriving DecidableEq, Repr

/-- A defect in words: a missing key is quoted, and values that have no order are named by their
kinds. -/
def Defect.message : Defect → Text
  | value m | index m | runtime m | lookup m | overflow m => m
  | key name => Text.quoted name
  | excess e => e.message
  | incomparable relation left right =>
    '\'' :: relation.sign ++ "' not supported between instances of '".toList ++ left ++
      "' and '".toList ++ right ++ ['\'']

/-- The causes of failure. -/
inductive Failure where
  | general (message : Text)
  | source (d : Diagnostic)
  | lexical (d : Diagnostic)
  | tooMany (message : Text)
  | wordRange (value : Datum) (bits : Nat)
  | badArgument (message : Text)
  | undecodable (e : DecodeError)
  | file (fault : FileFault) (code : Int) (message : Text) (path : Text)
  | internal (defect : Defect)

/-- How the command ends. -/
inductive Status where
  | success
  | sourceErrors
  | badInput
  | internalError
  deriving DecidableEq, Repr

/-- The number by which a shell sees how the command ended. -/
def Status.code : Status → Nat
  | success => 0
  | sourceErrors => 1
  | badInput => 2
  | internalError => 3

namespace Failure

/-- The words of a limit failure that names no limit. -/
def tooManyErrors : Text := "Too many errors".toList

def limitReached (limit : Int) : Failure :=
  .tooMany (tooManyErrors ++ " (".toList ++ Text.ofInt limit ++ "), stopping".toList)

/-- The diagnostic behind a failure that concerns source text. -/
def diagnostic? : Failure → Option Diagnostic
  | source d | lexical d => some d
  | tooMany m => some (.ofMessage m)
  | _ => none

def message : Failure → Text
  | general m | badArgument m => m
  | source d | lexical d => d.render
  | tooMany m => (Diagnostic.ofMessage m).render
  | wordRange value bits =>
    value.render ++ " does not fit in an unsigned ".toList ++ Text.ofNat bits ++
      " bit word (0..".toList ++ Text.ofNat (Nat.pow 2 bits - 1) ++ [')']
  | undecodable e => e.message
  | file _ code m path =>
    "[Errno ".toList ++ Text.ofInt code ++ "] ".toList ++ m ++ ": ".toList ++ Text.quoted path
  | internal defect => defect.message

/-- The failure of a value that does not fit in a word of a given number of bits; another failure if
there is no such number of bits, or if the greatest value of the word cannot be named. -/
def ofRange (value : Datum) (bits : Int) : Except Failure Failure :=
  if bits < 0 then .error (.internal (.value "negative shift count".toList))
  else
    match Excess.ofBits? bits.toNat with
    | some e => .error (.internal (.excess e))
    | none => .ok (.wordRange value bits.toNat)

/-- What the command answers to a failure: faults of the source are an ordinary result, bad
arguments and files that are missing, forbidden or not decodable are the caller's doing, and
everything else counts as a defect of the program, a directory in place of a file included. -/
def status : Failure → Status
  | general _ | source _ | lexical _ | tooMany _ | wordRange _ _ => .sourceErrors
  | badArgument _ | undecodable _ | file .missing _ _ _ | file .forbidden _ _ _ => .badInput
  | file .directory _ _ _ | internal _ => .internalError

end Failure

/-- The word that a datum denotes, or the reason why it denotes none. -/
def Datum.toWord (w : Width) (d : Datum) : Except Failure Word :=
  match d.toWord? w with
  | some v => .ok v
  | none => .error (.wordRange d w.bits)

/-- Whether two data are ordered as a relation says, or the failure that they have no order. -/
def Datum.compare (r : Relation) (a b : Datum) : Except Failure Bool :=
  match a.order? b with
  | some o => .ok (r.holds o)
  | none => .error (.internal (.incomparable r a.kindName b.kindName))

def Diagnostic.checked (d : Diagnostic) : Except Failure Diagnostic :=
  match d.excess? with
  | some e => .error (.internal (.excess e))
  | none => .ok d

/-- The diagnostic of an error token; other tokens have none. -/
def Diagnostic.ofErrorToken (lines : Array Text) (t : Token) : Except Failure Diagnostic :=
  if t.isError then (Diagnostic.ofToken lines t).checked
  else .error (.internal (.value ("not an error token: ".toList ++ t.render)))

end OctalScan
