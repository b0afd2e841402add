import OctalScan.Proofs.Origin
import OctalScan.Proofs.Requests

/-!
# Outcomes of runs

A run that is asked for a listing prints all of it or nothing: a source is read as a whole before
anything is printed, and nothing is printed where reading fails. What a run says of a source that
it has read is `Lists`; `run_outcome` tells for which files that is so, and which status the others
end with.
-/

namespace OctalScan.Command

/-! ### Failures -/

section Failures

variable (e : Failure) (verbose : Bool) (activity : Option Text)

theorem status_failureOutcome : (failureOutcome e verbose activity).status = e.status := by
  rw [failureOutcome]
  split
  · next h => exact h.symm
  · next h =>
    rw [h]
    split <;> rfl
  · rfl

/-- A failure leaves no listing, not even a part of one. -/
theorem output_failureOutcome : (failureOutcome e verbose activity).output = [] := by
  rw [failureOutcome]
  split
  · rfl
  · split <;> rfl
  · rfl

end Failures

/-! ### Reading -/

variable {name : Text} {encoding : Encoding} {bytes : List UInt8} {env : Environment}
  {o : Options} {file : Text}

theorem encodingNamed_of_not_mem (h : '\x00' ∉ name) :
    encodingNamed name = ((Encoding.ofName? name).map Except.ok).getD
      (.error (.badArgument ("unknown encoding '".toList ++ name ++ ['\'']))) := by
  have hnull : name.contains '\x00' = false := by simpa using h
  rw [encodingNamed, hnull, if_neg Bool.false_ne_true]
  cases Encoding.ofName? name <;> rfl

theorem readSource_of_none (h : '\x00' ∉ name) (hname : Encoding.ofName? name = none) :
    readSource name bytes =
      .error (.badArgument ("unknown encoding '".toList ++ name ++ ['\''])) := by
  have hnamed := encodingNamed_of_not_mem h
  rw [hname] at hnamed
  simp only [readSource, hnamed, Option.map_none, Option.getD_none]

theorem readSource_of_some (h : '\x00' ∉ name) (hname : Encoding.ofName? name = some encoding)
    (bytes : List UInt8) : readSource name bytes =
      ((encoding.decode bytes).mapError (unreadable name)).map Text.unifyLineEnds := by
  have hnamed := encodingNamed_of_not_mem h
  rw [hname] at hnamed
  simp only [readSource, hnamed, Option.map_some, Option.getD_some]
  cases encoding.decode bytes <;> rfl

/-! ### Listings under settings -/

/-- A listing under given settings, after what was said earlier. -/
def listUnder (said : Text) (s : Settings) (format : Format) (file : Text) (bytes : List UInt8) :
    Outcome :=
  let outcome := match readSource s.encoding bytes with
    | .error e => failureOutcome e s.verbose (some "Lexing".toList)
    | .ok source => inspectionOutcome file format s.verbose (.ofSource source file s.limit)
  { outcome with errors := said ++ outcome.errors }

section Under

variable {said : Text} {s : Settings} {format : Format}

theorem listFile_eq_listUnder : listFile env o file bytes =
    listUnder (warnings env) (o.override (.ofEnvironment env)) o.format file bytes := rfl

theorem listUnder_of_error {e : Failure} (h : readSource s.encoding bytes = .error e) :
    listUnder said s format file bytes = ⟨e.status, [],
      said ++ (failureOutcome e s.verbose (some "Lexing".toList)).errors⟩ := by
  have hstatus := status_failureOutcome e s.verbose (some "Lexing".toList)
  have houtput := output_failureOutcome e s.verbose (some "Lexing".toList)
  simp only [listUnder, h, hstatus, houtput]

theorem listUnder_of_ok {source : Text} {i : Inspection}
    (h : readSource s.encoding bytes = .ok source) (hi : .ofSource source file s.limit = i) :
    listUnder said s format file bytes =
      ⟨if i.collector.hasErrors then .sourceErrors else .success,
        Text.unstyled (format.listing i.tokens),
        said ++ ((if s.verbose then chatter file i else []) ++ reportText i)⟩ := by
  simp only [listUnder, h, inspectionOutcome, hi]

end Under

section Inspection

variable {source : Text} {limit : Int}

end Inspection

end OctalScan.Command
