import OctalScan.Command.Usage
import OctalScan.Encoding.Basic
import OctalScan.Inspection
import OctalScan.Listing
import OctalScan.Settings
import OctalScan.Text.LineEnd
import OctalScan.Text.Style

/-!
# Runs

One run of the command, from files, environment and arguments to its status and what it prints. A
run prints a listing only if it could read the whole source. What is printed loses its style
sequences; only the records of the log, which are warnings and debug lines, keep them.
-/

namespace OctalScan.Command

/-- What a run leaves behind. -/
structure Outcome where
  status : Status
  output : Text
  errors : Text
  deriving DecidableEq, Repr

/-- The line that stands for the trace of a defect. -/
def traceLine : Text := "<traceback>\n".toList

/-- How a run ends that fails during an activity. Defects come with a trace if more is said than is
asked for. -/
def failureOutcome (e : Failure) (verbose : Bool) (activity : Option Text) : Outcome :=
  let said (lead : Text) : Text := Text.unstyled (lead ++ e.message) ++ ['\n']
  match e.status with
  | .internalError =>
    ⟨.internalError, [], said "Internal error: ".toList ++ if verbose then traceLine else []⟩
  | .sourceErrors =>
    match Settings.nonempty? activity with
    | some a => ⟨.sourceErrors, [], said (a ++ " error: ".toList)⟩
    | none => ⟨.sourceErrors, [], said "Error: ".toList⟩
  | status => ⟨status, [], said "Error: ".toList⟩

/-- The encoding with a given name, or the failure that there is none. A name holds no null
characters. -/
def encodingNamed (name : Text) : Except Failure Encoding :=
  if name.contains '\x00' then .error (.internal (.value "embedded null character".toList))
  else
    match Encoding.ofName? name with
    | some e => .ok e
    | none => .error (.badArgument ("unknown encoding '".toList ++ name ++ ['\'']))

/-- The most bytes of the name of an encoding that a message shows. -/
def shownNameSize : Nat := 400

/-- The failure of reading a file in the encoding with a given name. -/
def unreadable (name : Text) : Unreadable → Failure
  | .bytes e => .undecodable e
  | .unmarked => .internal (.value "UTF-16 stream does not start with BOM".toList)
  | .notText =>
    .internal (.lookup ('\'' :: Utf8.clip shownNameSize name ++
      "' is not a text encoding; use codecs.open() to handle arbitrary codecs".toList))

/-- The source text in the bytes of a file, in the encoding with a given name. -/
def readSource (name : Text) (bytes : List UInt8) : Except Failure Text :=
  match encodingNamed name with
  | .error e => .error e
  | .ok encoding =>
    match encoding.decode bytes with
    | .error e => .error (unreadable name e)
    | .ok t => .ok (Text.unifyLineEnds t)

/-- Settings with the options that were given in their place. -/
def Options.override (o : Options) (s : Settings) : Settings where
  encoding := o.encoding.getD s.encoding
  limit := o.limit.getD s.limit
  verbose := o.verbose || s.verbose

def Format.listing : Format → List Token → Text
  | text, ts => textListing ts
  | json, ts => jsonDocument ts ++ ['\n']

def debugLine (t : Token) : Text :=
  "DEBUG: ".toList ++ t.file ++ ':' :: t.position ++ ": ".toList ++ t.payload.message

def tokenCount (i : Inspection) : Text := Text.ofNat i.tokens.length ++ " tokens".toList

def debugSummary (file : Text) (i : Inspection) : Text :=
  "DEBUG: ".toList ++ file ++ ": ".toList ++ tokenCount i ++ ", ".toList ++
    Text.ofNat i.collector.errorCount ++ " errors".toList

/-- What is said beyond what is asked for: every error token, and how many tokens and errors there
are. -/
def chatter (file : Text) (i : Inspection) : Text :=
  Text.unlines
    ((i.tokens.filter Token.isError).map debugLine ++
      [debugSummary file i, Text.unstyled (tokenCount i ++ " from ".toList ++ file)])

def reportText (i : Inspection) : Text :=
  if i.collector.hasErrors then Text.unstyled i.collector.report ++ ['\n'] else []

def inspectionOutcome (file : Text) (format : Format) (verbose : Bool) (i : Inspection) :
    Outcome where
  status := if i.collector.hasErrors then .sourceErrors else .success
  output := Text.unstyled (format.listing i.tokens)
  errors := (if verbose then chatter file i else []) ++ reportText i

def warnings (env : Environment) : Text := Text.unlines (Settings.warning? env).toList

def listFile (env : Environment) (o : Options) (file : Text) (bytes : List UInt8) : Outcome :=
  let s := o.override (.ofEnvironment env)
  let outcome := match readSource s.encoding bytes with
    | .error e => failureOutcome e s.verbose (some "Lexing".toList)
    | .ok source => inspectionOutcome file o.format s.verbose (.ofSource source file s.limit)
  { outcome with errors := warnings env ++ outcome.errors }

/-- One run of the command. -/
def run (disk : Disk) (env : Environment) (args : List Text) : Outcome :=
  match Request.ofArguments disk args with
  | .error e => ⟨.badInput, [], Text.unstyled e.render⟩
  | .ok .help => ⟨.success, helpText, []⟩
  | .ok .version => ⟨.success, versionText, []⟩
  | .ok (.list o file bytes) => listFile env o file bytes

end OctalScan.Command
