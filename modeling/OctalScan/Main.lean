import OctalScan.Command.Run

/-!
# The command

Hands the environment, the arguments and the files that they name to `Command.run`, prints what
that says, and ends with its status.
-/

open OctalScan OctalScan.Command

/-- What stands on the real disk at a path. -/
def entryOnDisk (path : String) : IO Entry := do
  try
    let place ← IO.FS.realPath path
    if ← place.isDir then return .directory
    return .file (← IO.FS.readBinFile place).toList
  catch _ => return .nothing

def entriesOnDisk (args : List String) : IO (List (Text × Entry)) :=
  args.mapM fun path => return (path.toList, ← entryOnDisk path)

def variableNamed (name : String) : IO (Option Text) := return (← IO.getEnv name).map String.toList

def environmentOfProcess : IO Environment :=
  return ⟨← variableNamed "OCTASM_ENCODING", ← variableNamed "OCTASM_MAX_ERRORS",
    ← variableNamed "OCTASM_VERBOSE"⟩

def main (args : List String) : IO UInt32 := do
  let entries ← entriesOnDisk args
  let disk : Disk := fun path => (entries.lookup path).getD .nothing
  let outcome := run disk (← environmentOfProcess) (args.map String.toList)
  (← IO.getStdout).putStr (String.ofList outcome.output)
  (← IO.getStderr).putStr (String.ofList outcome.errors)
  return outcome.status.code.toUInt32
