import OctalScan.Collector
import OctalScan.Text.Numeral
import OctalScan.Text.Quoted

/-!
# Settings

The settings of the command have defaults, which environment variables may replace; options of the
command line replace both. A variable that is set to the empty text counts as not set.
-/

namespace OctalScan

/-- The values of the environment variables that are set. -/
structure Environment where
  encoding : Option Text
  maxErrors : Option Text
  verbose : Option Text
  deriving DecidableEq, Repr

/-- How the command reads and reports: the name of the encoding of source files, the number of
errors to stop at, and whether to say more than is asked for. -/
structure Settings where
  encoding : Text
  limit : Int
  verbose : Bool
  deriving DecidableEq, Repr

namespace Settings

def default : Settings := ⟨"utf-8".toList, Collector.defaultLimit, false⟩

def nonempty? (value : Option Text) : Option Text := value.filter fun t => !t.isEmpty

/-- The error limit that a text denotes: a positive integer. -/
def limit? (t : Text) : Option Int := (Text.readInt? t).filter fun n => decide (0 < n)

def trueTexts : List Text := ["1".toList, "true".toList, "yes".toList, "on".toList]

/-- Whether a text switches something on, in any case and with any blanks around it. -/
def isTrue (t : Text) : Bool := trueTexts.contains ((Text.trim t).map Char.toLower)

def ofEnvironment (env : Environment) : Settings where
  encoding := (nonempty? env.encoding).getD default.encoding
  limit := ((nonempty? env.maxErrors).bind limit?).getD default.limit
  verbose := ((nonempty? env.verbose).map isTrue).getD default.verbose

/-- The warning about a variable that is set and is no error limit. -/
def warning? (env : Environment) : Option Text :=
  match nonempty? env.maxErrors with
  | none => none
  | some t =>
    if (limit? t).isSome then none
    else some ("Ignoring OCTASM_MAX_ERRORS=".toList ++ Text.quoted t ++
      ": expected a positive integer".toList)

end Settings

end OctalScan
