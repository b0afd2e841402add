import OctalScan.Proofs.Integer
import OctalScan.Proofs.Outcome

/-!
# Effective settings

A run lists under settings that are put together from its options, the environment and the defaults,
in this order (`Effective`). What the environment says of the error limit counts only if it is a
positive integer, and is warned about if it is another text (`Warns`); so the limit is always
positive (`Command.run_settings`).
-/

namespace OctalScan

/-! ### Values of variables -/

namespace Settings

variable {t : Text} {n : Int} {env : Environment}

theorem limit?_eq_some_iff : limit? t = some n ↔ t.IsInteger n ∧ 0 < n := by
  rw [limit?, Option.filter_eq_some_iff, Text.readInt?_eq_some_iff, decide_eq_true_eq]

theorem limit?_eq_none_iff : limit? t = none ↔ ∀ n, t.IsInteger n → n ≤ 0 := by
  simp only [Option.eq_none_iff_forall_ne_some, ne_eq, limit?_eq_some_iff, not_and, Int.not_lt]

/-- The empty text is no integer, so nothing is lost if it counts as not set. -/
theorem bind_nonempty? (value : Option Text) :
    (nonempty? value).bind limit? = value.bind limit? := by
  match value with
  | none | some [] | some (_ :: _) => rfl

theorem limit_ofEnvironment (env : Environment) :
    (ofEnvironment env).limit = (env.maxErrors.bind limit?).getD 100 := by
  rw [← bind_nonempty?]
  rfl

theorem limit_ofEnvironment_pos (env : Environment) : 0 < (ofEnvironment env).limit := by
  rw [limit_ofEnvironment]
  cases h : env.maxErrors.bind limit? with
  | none => decide
  | some n =>
    obtain ⟨t, -, ht⟩ := Option.bind_eq_some_iff.1 h
    exact (limit?_eq_some_iff.1 ht).2

/-- No blank is a capital letter. -/
theorem toLower_of_isBlank {c : Char} (h : Text.isBlank c = true) : c.toLower = c := by
  simp only [Text.isBlank, Bool.or_eq_true, Bool.and_eq_true, decide_eq_true_eq, beq_iff_eq] at h
  have hcapital : ¬(c.val ≥ 'A'.val ∧ c.val ≤ 'Z'.val) := by
    simp only [ge_iff_le, UInt32.le_iff_toNat_le]
    change ¬(0x41 ≤ c.toNat ∧ c.toNat ≤ 0x5A)
    omega
  exact dif_neg hcapital

/-- A text switches something on if it is one of some words, in any case, with blanks around it. -/
theorem isTrue_iff : isTrue t = true ↔
    ∃ u, Text.Padded Text.isBlank u t ∧ u.map Char.toLower ∈ trueTexts := by
  have hwords : trueTexts.all (fun w => w.all fun c => !Text.isBlank c) = true := by decide
  rw [isTrue, List.contains_iff_mem]
  constructor
  · intro h
    exact ⟨Text.trim t, Text.padded_trimBy Text.isBlank t, h⟩
  · rintro ⟨u, hpadded, hu⟩
    have hplain : ∀ c ∈ u, Text.isBlank c = false := by
      intro c hc
      have hletter := List.all_eq_true.1 (List.all_eq_true.1 hwords _ hu) _
        (List.mem_map_of_mem (f := Char.toLower) hc)
      rw [← Bool.not_eq_true]
      intro hblank
      rw [toLower_of_isBlank hblank, hblank] at hletter
      exact absurd hletter Bool.false_ne_true
    rwa [Text.trim, hpadded.trimBy_eq hplain]

theorem verbose_ofEnvironment (env : Environment) : (ofEnvironment env).verbose = true ↔
    ∃ t u, env.verbose = some t ∧ Text.Padded Text.isBlank u t ∧ u.map Char.toLower ∈ trueTexts := by
  have hvalue : (ofEnvironment env).verbose = (env.verbose.map isTrue).getD false := by
    rw [ofEnvironment]
    match env.verbose with
    | none | some [] | some (_ :: _) => rfl
  rw [hvalue]
  cases env.verbose with
  | none => simp
  | some t => simp [isTrue_iff]

theorem warning?_of_not_isInteger (h : env.maxErrors = some t) (hne : t ≠ [])
    (hn : ∀ n, t.IsInteger n → n ≤ 0) : warning? env = some ("Ignoring OCTASM_MAX_ERRORS=".toList ++
      Text.quoted t ++ ": expected a positive integer".toList) := by
  have hvalue : nonempty? env.maxErrors = some t :=
    Option.filter_eq_some_iff.2 ⟨h, by simpa using hne⟩
  simp only [warning?, hvalue, limit?_eq_none_iff.2 hn]
  rfl

theorem warning?_of_isInteger (h : ∀ t, env.maxErrors = some t → t = [] ∨ ∃ n, t.IsInteger n ∧ 0 < n) :
    warning? env = none := by
  rw [warning?]
  split
  · rfl
  · next t ht =>
    obtain ⟨hvalue, hne⟩ := Option.filter_eq_some_iff.1 ht
    rcases h t hvalue with rfl | ⟨n, hn⟩
    · cases hne
    · rw [limit?_eq_some_iff.2 hn]
      rfl

end Settings

namespace Command

/-! ### Settings of a run -/

/-- `Effective a env s` says that `s` are the settings under which a run with the sorted arguments
`a` lists in the environment `env`. -/
structure Effective (a : Arguments) (env : Environment) (s : Settings) : Prop where
  given : ∀ v, a.value? .maxErrors = some v → v.IsInteger s.limit
  found : a.value? .maxErrors = none →
    ∀ t n, env.maxErrors = some t → t.IsInteger n → 0 < n → s.limit = n
  default : a.value? .maxErrors = none →
    (∀ t n, env.maxErrors = some t → t.IsInteger n → n ≤ 0) → s.limit = 100
  positive : 1 ≤ s.limit
  encoding : s.encoding =
    ((a.value? .encoding).or (env.encoding.filter fun t => decide (t ≠ []))).getD "utf-8".toList
  verbose : s.verbose = true ↔ a.has .verbose = true ∨
    ∃ t u, env.verbose = some t ∧ Text.Padded Text.isBlank u t ∧
      u.map Char.toLower ∈ ["1", "true", "yes", "on"].map String.toList

/-- `Warns env said` says that `said` is the one warning about the error limit of the environment if
this is a text, but no positive integer, and is nothing otherwise. -/
structure Warns (env : Environment) (said : Text) : Prop where
  unusable : ∀ t, env.maxErrors = some t → t ≠ [] → (∀ n, t.IsInteger n → n ≤ 0) →
    said = "Ignoring OCTASM_MAX_ERRORS=".toList ++ Text.quoted t ++
      ": expected a positive integer\n".toList
  usable : (∀ t, env.maxErrors = some t → t = [] ∨ ∃ n, t.IsInteger n ∧ 0 < n) → said = []

variable {disk : Disk} {args : List Text} {a : Arguments} {o : Options} {file name : Text}
  {bytes : List UInt8}

theorem warns_warnings (env : Environment) : Warns env (warnings env) where
  unusable t ht hne hn := by
    rw [warnings, Settings.warning?_of_not_isInteger ht hne hn, Option.toList_some, Text.unlines_cons,
      List.append_assoc]
    rfl
  usable h := by
    rw [warnings, Settings.warning?_of_isInteger h]
    rfl

/-- The value of an option that limits the errors is a positive integer. -/
theorem Asks.limit_pos (h : Asks args a name) {v : Text} (hv : a.value? .maxErrors = some v) :
    ∃ n, v.IsInteger n ∧ 1 ≤ n ∧ (Request.options a).limit = some n := by
  have hfault := h.valueFault?_eq_none hv
  rw [Request.valueFault?] at hfault
  split at hfault
  · cases hfault
  · next n hn =>
    have hlimit : (Request.options a).limit = some n := by
      simp only [Request.options, hv, Option.bind_some, hn]
    split at hfault
    · cases hfault
    · next hlow => exact ⟨n, Text.readInt?_eq_some_iff.1 hn, Int.not_lt.1 hlow, hlimit⟩

theorem limit_override_of_none (h : a.value? .maxErrors = none) (s : Settings) :
    ((Request.options a).override s).limit = s.limit := by
  rw [Options.override, Request.options, h]
  rfl

theorem effective_override (h : Asks args a name) (env : Environment) :
    Effective a env ((Request.options a).override (.ofEnvironment env)) where
  given v hv := by
    obtain ⟨n, hn, -, hlimit⟩ := h.limit_pos hv
    rwa [Options.override, hlimit]
  found hnone t n ht hn hpos := by
    rw [limit_override_of_none hnone, Settings.limit_ofEnvironment, ht, Option.bind_some,
      Settings.limit?_eq_some_iff.2 ⟨hn, hpos⟩]
    rfl
  default hnone hvariable := by
    have hvalue : env.maxErrors.bind Settings.limit? = none := by
      rw [Option.bind_eq_none_iff]
      exact fun t ht => Settings.limit?_eq_none_iff.2 fun n => hvariable t n ht
    rw [limit_override_of_none hnone, Settings.limit_ofEnvironment, hvalue]
    rfl
  positive := by
    cases hv : a.value? .maxErrors with
    | none =>
      rw [limit_override_of_none hv]
      exact Settings.limit_ofEnvironment_pos env
    | some v =>
      obtain ⟨n, -, hn, hlimit⟩ := h.limit_pos hv
      rwa [Options.override, hlimit]
  encoding := by
    have hvariable : (Settings.ofEnvironment env).encoding =
        (env.encoding.filter fun t => decide (t ≠ [])).getD "utf-8".toList := by
      rw [Settings.ofEnvironment]
      match env.encoding with
      | none | some [] | some (_ :: _) => rfl
    rw [Option.getD_or, ← hvariable]
    rfl
  verbose := by
    rw [Options.override, Bool.or_eq_true, Settings.verbose_ofEnvironment]
    rfl

/-- What a run that is asked for a listing says of the environment, and the settings under which it
lists. -/
theorem run_settings (env : Environment) : Warns env (warnings env) ∧
    ∀ {disk : Disk} {args : List Text} {o : Options} {file : Text} {bytes : List UInt8},
      Request.ofArguments disk args = .ok (.list o file bytes) →
        ∃ a s, Arguments.parse args = .ok a ∧ Effective a env s ∧
          run disk env args = listUnder (warnings env) s o.format file bytes := by
  refine ⟨warns_warnings env, fun h => ?_⟩
  obtain ⟨a, name, hasks, -, rfl, -⟩ := ofArguments_eq_list_iff.1 h
  refine ⟨a, _, hasks.parsed, effective_override hasks env, ?_⟩
  rw [run, h]
  exact listFile_eq_listUnder

/-- A limit in digits of another script, with a sign and white space, and no option. -/
theorem run_settings_of_variable :
    let env : Environment := ⟨none, some ['\t', '+', '٧'], none⟩
    Text.IsInteger ['\t', '+', '٧'] 7 ∧
      Request.ofArguments (fun _ => .file []) [['a']] =
        .ok (.list ⟨.text, none, none, false⟩ ['a'] []) ∧
      ∃ s : Settings, s.limit = 7 ∧
        run (fun _ => .file []) env [['a']] = listUnder [] s .text ['a'] [] := by
  intro env
  have hlimit : Text.IsInteger ['\t', '+', '٧'] 7 := Text.readInt?_eq_some_iff.1 (by decide)
  have hrequest : Request.ofArguments (fun _ => .file []) [['a']] =
      .ok (.list ⟨.text, none, none, false⟩ ['a'] []) := ofArguments_operand rfl rfl
  obtain ⟨hwarns, hruns⟩ := run_settings env
  obtain ⟨a, s, hparse, heffective, hrun⟩ := hruns hrequest
  have hasks : Asks [['a']] ⟨[], [['a']]⟩ ['a'] := asks_operand rfl
  cases hasks.parsed.symm.trans hparse
  rw [hwarns.usable fun t ht => .inr ⟨7, by cases ht; exact hlimit, by decide⟩] at hrun
  exact ⟨hlimit, hrequest, s, heffective.found rfl _ 7 rfl hlimit (by decide), hrun⟩

end Command

end OctalScan
