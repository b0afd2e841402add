import OctalScan.Text.Similarity

/-!
# Arguments

The arguments of the command line are options and operands in any order. An option is a word after
two dashes, or a letter after one; letters may be joined, and the last of them may be followed by
its value at once. The argument `--` ends the options.
-/

namespace OctalScan.Command

/-- The options of the command. -/
inductive Switch where
  | format
  | maxErrors
  | encoding
  | verbose
  | version
  | help
  deriving DecidableEq, Repr

namespace Switch

/-- All options, in the order in which help lists them. -/
def all : List Switch := [format, maxErrors, encoding, verbose, version, help]

def long : Switch → Text
  | format => "--format".toList
  | maxErrors => "--max-errors".toList
  | encoding => "--encoding".toList
  | verbose => "--verbose".toList
  | version => "--version".toList
  | help => "--help".toList

def letter? : Switch → Option Char
  | format => some 'f'
  | maxErrors => some 'e'
  | verbose => some 'v'
  | _ => none

def takesValue : Switch → Bool
  | format | maxErrors | encoding => true
  | verbose | version | help => false

def ofLong? (name : Text) : Option Switch := all.find? fun s => decide (s.long = name)

def ofLetter? (c : Char) : Option Switch := all.find? fun s => decide (s.letter? = some c)

end Switch

/-- An option as it was given; the value is empty for an option without one. -/
structure Occurrence where
  switch : Switch
  value : Text
  deriving DecidableEq, Repr

/-- What can be wrong with the form of the arguments. -/
inductive ArgumentError where
  | unknown (name : Text) (similar : List Text)
  | missingValue (name : Text)
  | unexpectedValue (name : Text)
  deriving DecidableEq, Repr

/-- Arguments sorted into options and operands, each in the order in which they were given. -/
structure Arguments where
  options : List Occurrence
  operands : List Text
  deriving DecidableEq, Repr

namespace Arguments

/-- Whether an argument is an option: a dash and something after it. -/
def isOption : Text → Bool
  | '-' :: _ :: _ => true
  | _ => false

/-- Reads letters that are joined after one dash, `next` being the argument after them. Says
whether that argument was used as a value. -/
def readLetters (next : Option Text) : Text → Except ArgumentError (List Occurrence × Bool)
  | [] => .ok ([], false)
  | c :: t =>
    match Switch.ofLetter? c with
    | none => .error (.unknown ['-', c] [])
    | some s =>
      if s.takesValue then
        match t, next with
        | _ :: _, _ => .ok ([⟨s, t⟩], false)
        | [], some value => .ok ([⟨s, value⟩], true)
        | [], none => .error (.missingValue ['-', c])
      else
        match readLetters next t with
        | .ok (os, used) => .ok (⟨s, []⟩ :: os, used)
        | .error e => .error e

/-- The value after the first equals sign of an argument. -/
def attachedValue? (arg : Text) : Option Text :=
  match arg.dropWhile (· != '=') with
  | _ :: value => some value
  | [] => none

/-- Reads the options that stand in one argument, `next` being the argument after it. Says whether
that argument was used as a value. -/
def readOption (arg : Text) (next : Option Text) :
    Except ArgumentError (List Occurrence × Bool) :=
  let name := arg.takeWhile (· != '=')
  match Switch.ofLong? name with
  | some s =>
    match s.takesValue, attachedValue? arg, next with
    | true, some value, _ => .ok ([⟨s, value⟩], false)
    | true, none, some value => .ok ([⟨s, value⟩], true)
    | true, none, none => .error (.missingValue name)
    | false, some _, _ => .error (.unexpectedValue name)
    | false, none, _ => .ok ([⟨s, []⟩], false)
  | none =>
    if arg.take 2 = ['-', '-'] then
      .error (.unknown name (Text.closeNames (Switch.all.map Switch.long) name))
    else readLetters next (arg.drop 1)

def parseOnto (done : Arguments) (args : List Text) : Except ArgumentError Arguments :=
  match args with
  | [] => .ok done
  | arg :: args =>
    if arg = ['-', '-'] then .ok { done with operands := done.operands ++ args }
    else if isOption arg then
      match readOption arg args.head? with
      | .error e => .error e
      | .ok (os, used) =>
        parseOnto { done with options := done.options ++ os } (args.drop (if used then 1 else 0))
    else parseOnto { done with operands := done.operands ++ [arg] } args
termination_by args.length
decreasing_by
  · simp only [List.length_drop, List.length_cons]
    omega
  · simp

def parse (args : List Text) : Except ArgumentError Arguments := parseOnto ⟨[], []⟩ args

/-- The value that counts for an option: the last one given. -/
def value? (a : Arguments) (s : Switch) : Option Text :=
  (a.options.reverse.find? fun o => decide (o.switch = s)).map Occurrence.value

def has (a : Arguments) (s : Switch) : Bool := (a.value? s).isSome

end Arguments

end OctalScan.Command
