import OctalScan.Command.Arguments
import OctalScan.Command.Disk
import OctalScan.Text.Numeral
import OctalScan.Text.Quoted

/-!
# Requests

What the arguments ask for: help, the version, or a file to be listed. Arguments that ask for
nothing sensible are a usage error. Of several faults the first in this order is reported: the form
of the arguments, the values of options in the order in which the options first stand, the file,
superfluous operands. A request for help or for the version is answered before any value is looked
at.
-/

namespace OctalScan.Command

/-- The forms of a listing. -/
inductive Format where
  | text
  | json
  deriving DecidableEq, Repr

/-- The options of a request to list a file. -/
structure Options where
  format : Format
  limit : Option Int
  encoding : Option Text
  verbose : Bool
  deriving DecidableEq, Repr

/-- What is asked for. -/
inductive Request where
  | help
  | version
  | list (o : Options) (file : Text) (bytes : List UInt8)
  deriving DecidableEq, Repr

/-- What can be wrong with arguments. -/
inductive UsageError where
  | form (e : ArgumentError)
  | badFormat (value : Text)
  | badLimit (value : Text)
  | lowLimit (n : Int)
  | missingFile
  | noFile (name : Text)
  | directory (name : Text)
  | extra (operands : List Text)
  deriving DecidableEq, Repr

namespace Format

def name : Format → Text
  | text => "text".toList
  | json => "json".toList

/-- A character without its case. The long s is a form of s. -/
def fold (c : Char) : Char := if c = 'ſ' then 's' else c.toLower

/-- The format with a given name, in any case. -/
def ofName? (t : Text) : Option Format :=
  [text, json].find? fun f => decide (f.name = t.map fold)

end Format

namespace Request

def valueFault? (s : Switch) (value : Text) : Option UsageError :=
  match s with
  | .format => if (Format.ofName? value).isSome then none else some (.badFormat value)
  | .maxErrors =>
    match Text.readInt? value with
    | none => some (.badLimit value)
    | some n => if n < 1 then some (.lowLimit n) else none
  | _ => none

/-- The first fault in the values of options, each of which is judged by its last value. -/
def fault? (a : Arguments) : Option UsageError :=
  a.options.findSome? fun o => (a.value? o.switch).bind (valueFault? o.switch)

/-- The options of arguments whose values are without fault. -/
def options (a : Arguments) : Options where
  format := ((a.value? .format).bind Format.ofName?).getD .text
  limit := (a.value? .maxErrors).bind Text.readInt?
  encoding := a.value? .encoding
  verbose := a.has .verbose

/-- The request for help or for the version that stands first. -/
def information? (a : Arguments) : Option Request :=
  a.options.findSome? fun o =>
    match o.switch with
    | .help => some help
    | .version => some version
    | _ => none

/-- The request to list the file that an operand names, without other operands. -/
def ofOperands (disk : Disk) (o : Options) : List Text → Except UsageError Request
  | [] => .error .missingFile
  | file :: others =>
    match disk file with
    | .nothing => .error (.noFile file)
    | .directory => .error (.directory file)
    | .file bytes =>
      if others.isEmpty then .ok (list o (Path.shown file) bytes) else .error (.extra others)

def ofArguments (disk : Disk) (args : List Text) : Except UsageError Request :=
  match Arguments.parse args with
  | .error e => .error (.form e)
  | .ok a =>
    match information? a, fault? a with
    | some r, _ => .ok r
    | none, some e => .error e
    | none, none => ofOperands disk (options a) a.operands

end Request

end OctalScan.Command
