import OctalScan.Proofs.Outcome

/-!
# Display options

The form of a listing, and whether more is said than is asked for, are matters of display. Of two
runs that differ in nothing else both end with the same status (`run_display`). The form decides
what is listed but not what is said, and a verbose run lists what a quiet one does and says the same
with one piece of text put in (`Elaborates`). Both a switch and a variable can make a run verbose,
so the two runs may differ in arguments and environment.
-/

namespace OctalScan.Command

variable {env : Environment} {s : Settings} {said file source : Text} {format : Format}
  {bytes : List UInt8} {e : Failure}

/-! ### What a verbose run adds -/

/-- What a verbose run says of the tokens that it lists: the place and the message of every error
token, then how many tokens and errors there are, then the tokens and their file. Columns are
counted from zero here. -/
def remarks (file : Text) (ts : List Token) : Text :=
  Text.unlines
    (((ts.filter Token.isError).map fun t =>
        "DEBUG: ".toList ++ file ++ ':' :: Text.ofInt t.line ++ ':' :: Text.ofInt t.column ++
          ": ".toList ++ t.payload.message) ++
      ["DEBUG: ".toList ++ file ++ ": ".toList ++ Text.ofNat ts.length ++ " tokens, ".toList ++
          Text.ofNat (ts.countP Token.isError) ++ " errors".toList,
        Text.unstyled (Text.ofNat ts.length ++ " tokens from ".toList ++ file)])

theorem debugLine_of_file {t : Token} (h : t.file = file) :
    debugLine t = "DEBUG: ".toList ++ file ++ ':' :: Text.ofInt t.line ++
      ':' :: Text.ofInt t.column ++ ": ".toList ++ t.payload.message := by
  subst h
  unfold debugLine Token.position
  simp only [List.append_assoc, List.cons_append]

theorem chatter_eq_remarks {i : Inspection}
    (h : i.collector.errorCount = i.tokens.countP Token.isError)
    (hfile : ∀ t ∈ i.tokens, t.file = file) : chatter file i = remarks file i.tokens := by
  have hentry (t : Token) (ht : t ∈ i.tokens.filter Token.isError) :=
    debugLine_of_file (hfile t (List.mem_filter.1 ht).1)
  have hcount : " tokens, ".toList = " tokens".toList ++ ", ".toList := by decide
  have hfrom : " tokens from ".toList = " tokens".toList ++ " from ".toList := by decide
  unfold chatter remarks debugSummary tokenCount
  rw [h, List.map_congr_left hentry, hcount, hfrom]
  simp only [List.append_assoc]

/-- The errors that an inspection has collected are the error tokens that it lists, and all of its
tokens are of the file that it reads. -/
theorem chatter_ofSource (source file : Text) (limit : Int) :
    chatter file (.ofSource source file limit) =
      remarks file (Inspection.ofSource source file limit).tokens := by
  have h := Inspection.upToLimit_ofSource source file limit
  apply chatter_eq_remarks
  · rw [Collector.errorCount, ← Array.length_toList, h.errors, Inspection.length_failures]
  · exact fun t ht => Lexer.file_of_mem_drain (h.begins.subset ht)

/-- Only a defect is said more of: where it came from. -/
theorem errors_failureOutcome (e : Failure) (activity : Option Text) :
    (failureOutcome e true activity).errors = (failureOutcome e false activity).errors ++
      if e.status = .internalError then traceLine else [] := by
  rw [failureOutcome, failureOutcome]
  cases h : e.status with
  | internalError => simp
  | sourceErrors => cases Settings.nonempty? activity <;> simp
  | success | badInput => simp

/-- A source that cannot be read is the caller's doing or a defect. -/
theorem status_of_readSource {name : Text} (h : readSource name bytes = .error e) :
    e.status = .badInput ∨ e.status = .internalError := by
  rw [readSource] at h
  split at h
  · next e' hname =>
    cases h
    rw [encodingNamed] at hname
    split at hname
    · cases hname
      exact .inr rfl
    · split at hname
      · cases hname
      · cases hname
        exact .inl rfl
  · split at h
    · next u _ =>
      cases h
      cases u with
      | bytes e => exact .inl rfl
      | unmarked | notText => exact .inr rfl
    · cases h

/-! ### Two runs -/

/-- `Elaborates env s file bytes r r'` says what a verbose run `r'` says more than a quiet run `r`.
If the source can be read it is the remarks on the tokens, between the warning about the environment
and the report. Otherwise it is the trace of a defect, behind all else, or nothing at all, which is
so if there is no encoding of the given name or the bytes cannot be decoded. A text in UTF-16 that
must be marked, and is not, counts as a defect. One line stands for the trace. -/
structure Elaborates (env : Environment) (s : Settings) (file : Text) (bytes : List UInt8)
    (r r' : Outcome) : Prop where
  completed : ∀ source, readSource s.encoding bytes = .ok source →
    let i := Inspection.ofSource source file s.limit
    let report := if i.collector.hasErrors then Text.unstyled i.collector.report ++ ['\n'] else []
    r.errors = warnings env ++ report ∧ r'.errors = warnings env ++ remarks file i.tokens ++ report
  failed : (∀ source, readSource s.encoding bytes ≠ .ok source) →
    r.status = .badInput ∨ r.status = .internalError
  defect : r.status = .internalError → r'.errors = r.errors ++ "<traceback>\n".toList
  refused : r.status = .badInput → r'.errors = r.errors
  unknown : '\x00' ∉ s.encoding → Encoding.ofName? s.encoding = none → r.status = .badInput
  undecodable : '\x00' ∉ s.encoding → ∀ encoding e, Encoding.ofName? s.encoding = some encoding →
    encoding.decode bytes = .error (.bytes e) → r.status = .badInput

section

variable {s' : Settings} {format' : Format}

/-- Under settings that differ in display alone listings end alike. What is listed depends on the
form alone, and what is said on whether more is asked for. -/
theorem listUnder_agrees (hencoding : s'.encoding = s.encoding) (hlimit : s'.limit = s.limit) :
    let r := listUnder said s format file bytes
    let r' := listUnder said s' format' file bytes
    r'.status = r.status ∧ (format' = format → r'.output = r.output) ∧
      (s'.verbose = s.verbose → r'.errors = r.errors) := by
  intro r r'
  cases hread : readSource s.encoding bytes with
  | ok source =>
    have hread' : readSource s'.encoding bytes = .ok source := by rw [hencoding, hread]
    simp only [r, r', listUnder_of_ok hread rfl, listUnder_of_ok hread' rfl, hlimit, true_and]
    exact ⟨fun hformat => by rw [hformat], fun hverbose => by rw [hverbose]⟩
  | error e =>
    have hread' : readSource s'.encoding bytes = .error e := by rw [hencoding, hread]
    simp only [r, r', listUnder_of_error hread, listUnder_of_error hread', true_and, implies_true]
    exact fun hverbose => by rw [hverbose]

/-- A listing that ends as bad input or as a defect is that of a source that cannot be read. -/
theorem exists_error_of_status {status : Status}
    (h : status = .badInput ∨ status = .internalError)
    (hstatus : (listUnder said s format file bytes).status = status) :
    ∃ e, readSource s.encoding bytes = .error e ∧ e.status = status := by
  cases hread : readSource s.encoding bytes with
  | ok source =>
    rw [listUnder_of_ok hread rfl] at hstatus
    subst hstatus
    rcases h with h | h <;> split at h <;> cases h
  | error e =>
    rw [listUnder_of_error hread] at hstatus
    exact ⟨e, rfl, hstatus⟩

theorem elaborates_listUnder (hencoding : s'.encoding = s.encoding) (hlimit : s'.limit = s.limit)
    (hquiet : s.verbose = false) (hverbose : s'.verbose = true) :
    Elaborates env s file bytes (listUnder (warnings env) s format file bytes)
      (listUnder (warnings env) s' format' file bytes) where
  completed source hread := by
    have hread' : readSource s'.encoding bytes = .ok source := by rw [hencoding, hread]
    have hchatter := chatter_ofSource source file s.limit
    rw [listUnder_of_ok hread rfl, listUnder_of_ok hread' rfl, hquiet, hverbose, hlimit]
    simp [hchatter, reportText]
  failed h := by
    cases hread : readSource s.encoding bytes with
    | ok source => exact absurd hread (h source)
    | error e =>
      rw [listUnder_of_error hread]
      exact status_of_readSource hread
  defect h := by
    obtain ⟨e, hread, he⟩ := exists_error_of_status (.inr rfl) h
    have hread' : readSource s'.encoding bytes = .error e := by rw [hencoding, hread]
    rw [listUnder_of_error hread, listUnder_of_error hread', hquiet, hverbose,
      errors_failureOutcome, if_pos he, List.append_assoc]
    rfl
  refused h := by
    obtain ⟨e, hread, he⟩ := exists_error_of_status (.inl rfl) h
    have hread' : readSource s'.encoding bytes = .error e := by rw [hencoding, hread]
    have hno : e.status ≠ .internalError := by
      rw [he]
      decide
    rw [listUnder_of_error hread, listUnder_of_error hread', hquiet, hverbose,
      errors_failureOutcome, if_neg hno, List.append_nil]
  unknown hname hnone := by
    rw [listUnder_of_error (readSource_of_none hname hnone)]
    rfl
  undecodable hname encoding e hsome hdecode := by
    have hread := readSource_of_some hname hsome bytes
    rw [hdecode] at hread
    rw [listUnder_of_error hread]
    rfl

end

/-- Two runs that are asked for the listing of one file and differ at most in the form of the listing
and in whether they are verbose, be it by a switch or by a variable. They end alike; what they list
depends on the form alone, and what they say on whether they are verbose alone. The switch can be
put in front of any arguments that ask for a listing. -/
theorem run_display (env : Environment) {disk : Disk} {args args' : List Text} {o : Options}
    {format : Format} {verbose : Bool} (h : Request.ofArguments disk args = .ok (.list o file bytes))
    (h' : Request.ofArguments disk args' =
      .ok (.list { o with format := format, verbose := verbose } file bytes))
    (given : Option Text) :
    let env' := { env with verbose := given }
    let s := o.override (.ofEnvironment env)
    let s' := Options.override { o with format := format, verbose := verbose } (.ofEnvironment env')
    let r := run disk env args
    let r' := run disk env' args'
    r'.status = r.status ∧
      (format = o.format → r'.output = r.output) ∧
      (s'.verbose = s.verbose → r'.errors = r.errors) ∧
      (s.verbose = false → s'.verbose = true → Elaborates env s file bytes r r') ∧
      Request.ofArguments disk (['-', 'v'] :: args) =
        .ok (.list { o with verbose := true } file bytes) := by
  intro env' s s' r r'
  have hr : r = listUnder (warnings env) s o.format file bytes := by
    simp only [r, run, h]
    rfl
  have hr' : r' = listUnder (warnings env) s' format file bytes := by
    simp only [r', run, h']
    rfl
  have hencoding : s'.encoding = s.encoding := rfl
  have hlimit : s'.limit = s.limit := rfl
  rw [hr, hr']
  obtain ⟨hstatus, houtput, herrors⟩ := listUnder_agrees hencoding hlimit
  exact ⟨hstatus, houtput, herrors, elaborates_listUnder hencoding hlimit, ofArguments_verbose h⟩

/-- A source with an error, under a variable that is warned about, with and without the switch. -/
theorem run_display_of_switch :
    let disk : Disk := fun _ => .file [0x23]
    let env : Environment := ⟨none, some ['0'], none⟩
    let o : Options := ⟨.text, none, none, false⟩
    let r := run disk env [['a']]
    let r' := run disk env [['-', 'v'], ['a']]
    Request.ofArguments disk [['a']] = .ok (.list o ['a'] [0x23]) ∧
      Request.ofArguments disk [['-', 'v'], ['a']] =
        .ok (.list { o with format := .text, verbose := true } ['a'] [0x23]) ∧
      r'.status = r.status ∧ r'.output = r.output ∧
      Elaborates env (o.override (.ofEnvironment env)) ['a'] [0x23] r r' := by
  intro disk env o r r'
  have h : Request.ofArguments disk [['a']] = .ok (.list o ['a'] [0x23]) :=
    ofArguments_operand rfl rfl
  have h' := ofArguments_verbose h
  obtain ⟨hstatus, houtput, -, helaborates, -⟩ := run_display env h h' none
  exact ⟨h, h', hstatus, houtput rfl, helaborates rfl rfl⟩

end OctalScan.Command
