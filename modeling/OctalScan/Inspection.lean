import OctalScan.Collector

/-!
# Inspections

An inspection reads a source token by token and collects the diagnostic of every error token. It
ends at the end of the source or at the error with which the collector is full; then a warning says
where it stopped.
-/

namespace OctalScan

/-- What an inspection found. -/
structure Inspection where
  tokens : List Token
  collector : Collector

namespace Inspection

/-- The warning of an inspection that ended before the end of the source. -/
def stopped (limit line : Int) : Text :=
  "stopped after ".toList ++ Text.ofInt limit ++ " errors at line ".toList ++ Text.ofInt line

/-- Goes through the steps of a source with the given lines, after the tokens `seen`. -/
def onto (lines : Array Text) (seen : Array Token) (c : Collector) : List Step → Inspection
  | [] => ⟨seen.toList, c⟩
  | s :: steps =>
    if s.token.isError then
      match c.add (.lexical (.ofToken lines s.token)) with
      | (.ok (), c') => onto lines (seen.push s.token) c' steps
      | (.error _, c') =>
        ⟨(seen.push s.token).toList, c'.addWarning (stopped c.limit s.cursor.line)⟩
    else onto lines (seen.push s.token) c steps

/-- Inspects a source, up to a number of errors. -/
def ofSource (source file : Text) (limit : Int) : Inspection :=
  let lexer := Lexer.ofSource source file
  onto lexer.sourceLines #[] (.withLimit limit) lexer.steps

end Inspection

end OctalScan
