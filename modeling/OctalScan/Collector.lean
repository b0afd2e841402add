import OctalScan.Failure

/-!
# Collectors

A collector stores errors and warnings and reports them together. It takes every error that it is
given, and says so when it holds as many as its limit, so that the error that reaches the limit is
reported too.
-/

namespace OctalScan

/-- Errors and warnings in the order in which they came, and the number of errors to stop at. -/
structure Collector where
  errors : Array Failure
  warnings : Array Text
  limit : Int

namespace Collector

/-- The limit of a collector for which none is given. -/
def defaultLimit : Int := 100

/-- A collector that holds nothing. -/
def withLimit (limit : Int) : Collector := ⟨#[], #[], limit⟩

/-- Whether the collector holds as many errors as its limit. -/
def isFull (c : Collector) : Bool := decide (c.limit ≤ c.errors.size)

/-- Stores an error; fails if the collector is full then, and stores it all the same. -/
def add (c : Collector) (e : Failure) : Except Failure Unit × Collector :=
  let c' := { c with errors := c.errors.push e }
  (if c'.isFull then .error (.limitReached c.limit) else .ok (), c')

def addWarning (c : Collector) (message : Text) : Collector :=
  { c with warnings := c.warnings.push message }

def errorCount (c : Collector) : Nat := c.errors.size

def warningCount (c : Collector) : Nat := c.warnings.size

def hasErrors (c : Collector) : Bool := decide (0 < c.errors.size)

def clear (c : Collector) : Collector := { c with errors := #[], warnings := #[] }

/-- A number of things: the noun stands in the plural unless there is exactly one. -/
def counted (n : Nat) (noun : Text) : Text :=
  Text.ofNat n ++ ' ' :: noun ++ (if n = 1 then [] else ['s'])

def summary (c : Collector) : Text :=
  counted c.errorCount "error".toList ++ ", ".toList ++ counted c.warningCount "warning".toList

/-- The lines about warnings, of which there are none without a warning. -/
def warningLines (c : Collector) : List Text :=
  if c.warnings.isEmpty then []
  else "Warnings:".toList :: c.warnings.toList.map fun w => "  ".toList ++ w

/-- All errors, each followed by an empty line, then the warnings, an empty line and the summary. -/
def report (c : Collector) : Text :=
  Text.joinLines
    (c.errors.toList.flatMap (fun e => [e.message, []]) ++ c.warningLines ++ [[], c.summary])

end Collector

end OctalScan
