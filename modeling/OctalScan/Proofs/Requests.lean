import OctalScan.Command.Request

/-!
# What arguments ask for

Arguments that ask for a listing are sorted without fault and have one operand, the name of a file
(`ofArguments_eq_list_iff`). What they ask for depends on nothing else, and on the disk only through
that name. Each option counts by its last value, so a switch that is put in front of other arguments
takes nothing from them (`ofArguments_verbose`).
-/

namespace OctalScan.Command

/-! ### Arguments without fault -/

/-- `Asks args a name` says that arguments, sorted into `a`, ask to list the file with a given
name. -/
structure Asks (args : List Text) (a : Arguments) (name : Text) : Prop where
  parsed : Arguments.parse args = .ok a
  plain : Request.information? a = none
  sound : Request.fault? a = none
  operand : a.operands = [name]

variable {disk : Disk} {args : List Text} {a : Arguments} {o : Options} {file name : Text}
  {bytes : List UInt8}

/-- Information about the command is never a listing. -/
theorem information?_ne_list : Request.information? a ≠ some (.list o file bytes) := by
  intro h
  obtain ⟨occ, -, hocc⟩ := List.exists_of_findSome?_eq_some h
  split at hocc <;> cases hocc

theorem ofOperands_eq_list_iff {o' : Options} {operands : List Text} :
    Request.ofOperands disk o operands = .ok (.list o' file bytes) ↔
      ∃ name, operands = [name] ∧ disk name = .file bytes ∧ o' = o ∧ file = Path.shown name := by
  constructor
  · intro h
    cases operands with
    | nil => cases h
    | cons name others =>
      rw [Request.ofOperands] at h
      split at h
      · cases h
      · cases h
      · next content hdisk =>
        split at h
        · next hothers =>
          cases h
          exact ⟨name, by rw [List.isEmpty_iff.1 hothers], hdisk, rfl, rfl⟩
        · cases h
  · rintro ⟨name, rfl, hdisk, rfl, rfl⟩
    rw [Request.ofOperands, hdisk]
    rfl

theorem ofArguments_eq_list_iff :
    Request.ofArguments disk args = .ok (.list o file bytes) ↔
      ∃ a name, Asks args a name ∧ disk name = .file bytes ∧ o = Request.options a ∧
        file = Path.shown name := by
  constructor
  · intro h
    rw [Request.ofArguments] at h
    split at h
    · cases h
    · next a hparse =>
      split at h
      · next r hr =>
        cases h
        exact absurd hr information?_ne_list
      · cases h
      · next hplain hsound =>
        obtain ⟨name, hoperand, hfile⟩ := ofOperands_eq_list_iff.1 h
        exact ⟨a, name, ⟨hparse, hplain, hsound, hoperand⟩, hfile⟩
  · rintro ⟨a, name, h, hfile⟩
    rw [Request.ofArguments, h.parsed]
    simp only [h.plain, h.sound]
    exact ofOperands_eq_list_iff.2 ⟨name, h.operand, hfile⟩

/-- No value that counts is at fault. -/
theorem Asks.valueFault?_eq_none (h : Asks args a name) {s : Switch} {value : Text}
    (hv : a.value? s = some value) : Request.valueFault? s value = none := by
  obtain ⟨occ, hfind, -⟩ := Option.map_eq_some_iff.1 hv
  have hmem : occ ∈ a.options := List.mem_reverse.1 (List.mem_of_find?_eq_some hfind)
  have hswitch : occ.switch = s := by simpa using List.find?_some hfind
  have hnone := List.findSome?_eq_none_iff.1 h.sound occ hmem
  rw [hswitch, hv] at hnone
  exact hnone

/-- A single argument that is no option is the name of the file. -/
theorem asks_operand (h : Arguments.isOption name = false) : Asks [name] ⟨[], [name]⟩ name where
  parsed := by
    have hdashes : name ≠ ['-', '-'] := by
      rintro rfl
      cases h
    rw [Arguments.parse, Arguments.parseOnto, if_neg hdashes, h, if_neg Bool.false_ne_true,
      Arguments.parseOnto]
    rfl
  plain := rfl
  sound := rfl
  operand := rfl

theorem ofArguments_operand (hname : Arguments.isOption name = false)
    (h : disk name = .file bytes) : Request.ofArguments disk [name] =
      .ok (.list ⟨.text, none, none, false⟩ (Path.shown name) bytes) :=
  ofArguments_eq_list_iff.2 ⟨_, _, asks_operand hname, h, rfl, rfl⟩

/-! ### Arguments in front -/

namespace Arguments

/-- Sorted arguments with others behind them. -/
def followedBy (a b : Arguments) : Arguments := ⟨a.options ++ b.options, a.operands ++ b.operands⟩

/-- What was sorted earlier stands in front and changes nothing. -/
theorem parseOnto_followedBy (earlier done : Arguments) (args : List Text) :
    parseOnto (earlier.followedBy done) args = (parseOnto done args).map earlier.followedBy := by
  fun_induction parseOnto done args with
  | case1 done => rw [parseOnto, Except.map]
  | case2 done args =>
    rw [parseOnto, if_pos rfl, Except.map]
    simp [followedBy]
  | case3 done arg args hdashes hoption e hread =>
    rw [parseOnto, if_neg hdashes, if_pos hoption, hread]
    rfl
  | case4 done arg args hdashes hoption os used hread ih =>
    rw [parseOnto, if_neg hdashes, if_pos hoption, hread]
    simpa [followedBy] using ih
  | case5 done arg args hdashes hoption ih =>
    rw [parseOnto, if_neg hdashes, if_neg hoption]
    simpa [followedBy] using ih

/-- A value given earlier counts only if none is given later. -/
theorem value?_cons (occ : Occurrence) (os : List Occurrence) (operands : List Text) (s : Switch) :
    value? ⟨occ :: os, operands⟩ s =
      (value? ⟨os, operands⟩ s).or (if occ.switch = s then some occ.value else none) := by
  simp only [value?, List.reverse_cons, List.find?_append, Option.map_or]
  by_cases h : occ.switch = s <;> simp [h]

end Arguments

/-- Sorted arguments with the switch for more words in front. -/
def Arguments.withVerbose (a : Arguments) : Arguments :=
  followedBy ⟨[⟨.verbose, []⟩], []⟩ a

theorem value?_withVerbose {s : Switch} (hs : s ≠ .verbose) :
    a.withVerbose.value? s = a.value? s := by
  have h := Arguments.value?_cons ⟨.verbose, []⟩ a.options a.operands s
  rw [if_neg hs.symm, Option.or_none] at h
  exact h

theorem has_withVerbose : a.withVerbose.has .verbose = true := by
  have h := Arguments.value?_cons ⟨.verbose, []⟩ a.options a.operands .verbose
  rw [if_pos rfl] at h
  have hvalue : a.withVerbose.value? .verbose = (a.value? .verbose).or (some []) := h
  rw [Arguments.has, hvalue]
  cases a.value? .verbose <;> rfl

theorem options_withVerbose :
    Request.options a.withVerbose = { Request.options a with verbose := true } := by
  simp only [Request.options, has_withVerbose]
  rw [value?_withVerbose (by decide), value?_withVerbose (by decide),
    value?_withVerbose (by decide)]

theorem parse_verbose (args : List Text) :
    Arguments.parse (['-', 'v'] :: args) = (Arguments.parse args).map Arguments.withVerbose := by
  have hread : Arguments.readOption ['-', 'v'] args.head? = .ok ([⟨.verbose, []⟩], false) := rfl
  have hoption : Arguments.isOption ['-', 'v'] = true := rfl
  rw [Arguments.parse, Arguments.parseOnto, if_neg (by decide), if_pos hoption, hread]
  exact Arguments.parseOnto_followedBy ⟨[⟨.verbose, []⟩], []⟩ ⟨[], []⟩ args

theorem fault?_withVerbose : Request.fault? a.withVerbose = Request.fault? a := by
  have hverbose (v : Option Text) : v.bind (Request.valueFault? .verbose) = none := by
    cases v <;> rfl
  have hsame (occ : Occurrence) :
      (a.withVerbose.value? occ.switch).bind (Request.valueFault? occ.switch) =
        (a.value? occ.switch).bind (Request.valueFault? occ.switch) := by
    by_cases hs : occ.switch = .verbose
    · rw [hs, hverbose, hverbose]
    · rw [value?_withVerbose hs]
  rw [Request.fault?, Request.fault?]
  simp only [hsame]
  rw [Arguments.withVerbose, Arguments.followedBy, List.findSome?_append]
  simp only [List.findSome?_cons, List.findSome?_nil, hverbose, Option.none_or]

theorem Asks.withVerbose (h : Asks args a name) : Asks (['-', 'v'] :: args) a.withVerbose name where
  parsed := by rw [parse_verbose, h.parsed, Except.map]
  plain := h.plain
  sound := by rw [fault?_withVerbose, h.sound]
  operand := h.operand

/-- The switch for more words, put in front of arguments that ask for a listing, changes what they
ask for in this alone. -/
theorem ofArguments_verbose (h : Request.ofArguments disk args = .ok (.list o file bytes)) :
    Request.ofArguments disk (['-', 'v'] :: args) =
      .ok (.list { o with verbose := true } file bytes) := by
  obtain ⟨a, name, hasks, hdisk, rfl, rfl⟩ := ofArguments_eq_list_iff.1 h
  exact ofArguments_eq_list_iff.2
    ⟨a.withVerbose, name, hasks.withVerbose, hdisk, options_withVerbose.symm, rfl⟩

end OctalScan.Command
