import OctalScan.Text.Basic

/-!
# Disks

What the command can see of files: at each path there is a file, a directory or nothing. A disk can
be made from a list of named files, in which paths are followed from one root directory.
-/

namespace OctalScan.Command

/-- What stands at a path. -/
inductive Entry where
  | nothing
  | directory
  | file (bytes : List UInt8)
  deriving DecidableEq, Repr

abbrev Disk := Text → Entry

namespace Path

/-- The names in a path; empty names and single dots lead nowhere. -/
def names (path : Text) : List Text :=
  (path.splitOn '/').filter fun n => decide (n ≠ [] ∧ n ≠ ['.'])

/-- The slashes that a path starts with: two mean something of their own, and more mean one. -/
def root (path : Text) : Text :=
  match path.takeWhile (· == '/') with
  | [] => []
  | ['/', '/'] => ['/', '/']
  | _ => ['/']

/-- A path as it is shown, without names that lead nowhere. -/
def shown (path : Text) : Text :=
  match root path ++ List.intercalate ['/'] (names path) with
  | [] => ['.']
  | p => p

/-- Whether a path can lead to a directory only, because of how it ends. -/
def endsInDirectory (path : Text) : Bool :=
  match path.reverse with
  | '/' :: _ => true
  | '.' :: '/' :: _ => true
  | _ => false

/-- Whether a path that starts at the root stays there. The way up from the root leads to itself. -/
def staysAtRoot (path : Text) : Bool := (names path).all fun n => decide (n = ['.', '.'])

end Path

/-- Files and directories by the names on the way to them. -/
abbrev Tree := List (List Text × Entry)

namespace Tree

def ofList (entries : List (Text × Entry)) : Tree := entries.map fun e => (Path.names e.1, e.2)

/-- What stands at the end of some names that are followed from the root. -/
def entryAt (t : Tree) (way : List Text) : Entry :=
  if way.isEmpty then .directory
  else
    match t.find? fun e => decide (e.1 = way) with
    | some e => e.2
    | none => if t.any fun e => way.isPrefixOf e.1 then .directory else .nothing

/-- A place in or above a tree. -/
inductive Place where
  | inside (way : List Text)
  | above
  | nowhere
  deriving DecidableEq, Repr

/-- Follows one more name. Only a directory can be left, and only the way up is known above the
tree. -/
def follow (t : Tree) (p : Place) (name : Text) : Place :=
  match p with
  | .nowhere => .nowhere
  | .above => if name = ['.', '.'] then .above else .nowhere
  | .inside way =>
    if t.entryAt way = .directory then
      if name = ['.', '.'] then (if way.isEmpty then .above else .inside way.dropLast)
      else .inside (way ++ [name])
    else .nowhere

/-- The disk on which a tree is the current directory. -/
def disk (t : Tree) : Disk := fun path =>
  if path.isEmpty then .nothing
  else if ¬ (Path.root path).isEmpty then
    if Path.staysAtRoot path then .directory else .nothing
  else
    match (Path.names path).foldl t.follow (.inside []) with
    | .nowhere => .nothing
    | .above => .directory
    | .inside way =>
      match t.entryAt way with
      | .file bytes => if Path.endsInDirectory path then .nothing else .file bytes
      | e => e

end Tree

end OctalScan.Command
