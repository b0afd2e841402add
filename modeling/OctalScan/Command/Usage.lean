import OctalScan.Command.Request

/-!
# Usage

The texts by which the command explains itself: its help, its version, and its answers to arguments
that it cannot use.
-/

namespace OctalScan.Command

def helpText : Text := Text.unlines <| List.map String.toList [
  "Usage: octlex [OPTIONS] INPUT_FILE",
  "",
  "  Print the tokens of an octasm assembly source file.",
  "",
  "  INPUT_FILE is the assembly source file to tokenize.",
  "",
  "  Exits with status 1 if the file contains lexical errors; the errors are",
  "  reported on stderr after the token listing.",
  "",
  "  Examples:",
  "      octlex boot.s                 # One token per line",
  "      octlex boot.s -f json         # JSON array of tokens",
  "",
  "Options:",
  "  -f, --format [text|json]        Output format (default: text)",
  "  -e, --max-errors INTEGER RANGE  Stop after this many lexical errors",
  "                                  (default: 100)  [x>=1]",
  "  --encoding TEXT                 Source file encoding (default: utf-8)",
  "  -v, --verbose                   Verbose output",
  "  --version                       Show the version and exit.",
  "  --help                          Show this message and exit."]

def versionText : Text := "octlex, version 1.0.0\n".toList

/-- What stands above most usage errors. -/
def usageHint : Text :=
  "Usage: octlex [OPTIONS] INPUT_FILE\nTry 'octlex --help' for help.\n\n".toList

/-- Names that were perhaps meant. -/
def suggestion : List Text → Text
  | [] => []
  | [name] => " Did you mean ".toList ++ name ++ ['?']
  | names => " (Possible options: ".toList ++ List.intercalate ", ".toList names ++ [')']

/-- A fault in the form of arguments in words. -/
def ArgumentError.message : ArgumentError → Text
  | unknown name similar => "No such option: ".toList ++ name ++ suggestion similar
  | missingValue name => "Option ".toList ++ Text.quoted name ++ " requires an argument.".toList
  | unexpectedValue name =>
    "Option ".toList ++ Text.quoted name ++ " does not take a value.".toList

namespace UsageError

def message : UsageError → Text
  | form e => e.message
  | badFormat value =>
    "Invalid value for '-f' / '--format': ".toList ++ Text.quoted value ++
      " is not one of 'text', 'json'.".toList
  | badLimit value =>
    "Invalid value for '-e' / '--max-errors': ".toList ++ Text.quoted value ++
      " is not a valid integer range.".toList
  | lowLimit n =>
    "Invalid value for '-e' / '--max-errors': ".toList ++ Text.ofInt n ++
      " is not in the range x>=1.".toList
  | missingFile => "Missing argument 'INPUT_FILE'.".toList
  | noFile name =>
    "Invalid value for 'INPUT_FILE': File ".toList ++ Text.quoted name ++
      " does not exist.".toList
  | directory name =>
    "Invalid value for 'INPUT_FILE': File ".toList ++ Text.quoted name ++
      " is a directory.".toList
  | extra operands =>
    "Got unexpected extra argument".toList ++ (if operands.length = 1 then [] else ['s']) ++
      " (".toList ++ List.intercalate [' '] operands ++ [')']

/-- Whether the hint at the usage stands above the message: a lone value does not call for it. -/
def hasHint : UsageError → Bool
  | form (.missingValue _) | form (.unexpectedValue _) => false
  | _ => true

def render (e : UsageError) : Text :=
  (if e.hasHint then usageHint else []) ++ "Error: ".toList ++ e.message ++ ['\n']

end UsageError

end OctalScan.Command
