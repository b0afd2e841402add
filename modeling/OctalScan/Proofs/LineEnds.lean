import OctalScan.Proofs.Encoded
import OctalScan.Proofs.Outcome

/-!
# Line ends do not matter

A text that is written with either of the other line ends is read as the same text
(`Text.unifyLineEnds_withLineEnds`), in whatever encoding, so a run does the same with both files
(`Command.run_withLineEnds`). All positions are those in the text with newlines.
-/

namespace OctalScan

namespace Text

/-- The ways to end a line. -/
inductive LineEnd where
  | newline
  | pair
  | carriageReturn
  deriving DecidableEq, Repr

def LineEnd.text : LineEnd → Text
  | newline => ['\n']
  | pair => ['\r', '\n']
  | carriageReturn => ['\r']

/-- A text with every newline written as a given line end. -/
def withLineEnds (l : LineEnd) (t : Text) : Text :=
  t.flatMap fun c => if c = '\n' then l.text else [c]

variable {l : LineEnd} {t : Text} {c : Char}

theorem withLineEnds_newline_cons : withLineEnds l ('\n' :: t) = l.text ++ withLineEnds l t := rfl

theorem withLineEnds_cons (hc : c ≠ '\n') : withLineEnds l (c :: t) = c :: withLineEnds l t := by
  rw [withLineEnds, List.flatMap_cons, if_neg hc]
  rfl

theorem withLineEnds_newline : withLineEnds .newline t = t := by
  have hsame (c : Char) : (if c = '\n' then LineEnd.newline.text else [c]) = [c] := by
    split
    · next h => rw [h, LineEnd.text]
    · rfl
  simp [withLineEnds, hsame]

theorem mem_withLineEnds (h : c ∈ withLineEnds l t) : c ∈ t ∨ c ∈ l.text := by
  obtain ⟨d, hd, hc⟩ := List.mem_flatMap.1 h
  split at hc
  · exact .inr hc
  · rw [List.mem_singleton.1 hc]
    exact .inl hd

theorem not_mem_withLineEnds (hl : '\n' ∉ l.text) : '\n' ∉ withLineEnds l t := by
  intro h
  obtain ⟨d, -, hc⟩ := List.mem_flatMap.1 h
  split at hc
  · exact hl hc
  · next hd => exact hd (List.mem_singleton.1 hc).symm

theorem unifyOnto_cons {done : Text} (hc : c ≠ '\r') :
    unifyOnto done (c :: t) = unifyOnto (c :: done) t := by
  rw [unifyOnto]
  · rintro _ rfl
    exact absurd rfl hc
  · rintro rfl
    exact hc rfl

theorem unifyLineEnds_cons (hc : c ≠ '\r') : unifyLineEnds (c :: t) = c :: unifyLineEnds t := by
  rw [unifyLineEnds, unifyOnto_cons hc]
  exact unifyOnto_append [] [c] t

/-- A line end is read as one newline, a carriage return only if no newline stands behind it. -/
theorem unifyLineEnds_append (h : '\n' ∈ l.text ∨ '\n' ∉ t) :
    unifyLineEnds (l.text ++ t) = '\n' :: unifyLineEnds t := by
  have hstep : unifyLineEnds (l.text ++ t) = unifyOnto ['\n'] t := by
    cases l with
    | newline => exact unifyOnto_cons (by decide)
    | pair => rfl
    | carriageReturn =>
      rw [LineEnd.text, List.singleton_append, unifyLineEnds, unifyOnto]
      rintro u rfl
      simp [LineEnd.text] at h
  rw [hstep]
  exact unifyOnto_append [] ['\n'] t

theorem unifyLineEnds_withLineEnds (h : '\r' ∉ t) (l : LineEnd) :
    unifyLineEnds (withLineEnds l t) = t := by
  induction t with
  | nil => rfl
  | cons c t ih =>
    obtain ⟨hc, ht⟩ := List.ne_and_not_mem_of_not_mem_cons h
    by_cases hnewline : c = '\n'
    · subst hnewline
      -- where line ends are carriage returns no newline is left that could join one of them
      have hstop : '\n' ∈ l.text ∨ '\n' ∉ withLineEnds l t := by
        by_cases hl : '\n' ∈ l.text
        · exact .inl hl
        · exact .inr (not_mem_withLineEnds hl)
      rw [withLineEnds_newline_cons, unifyLineEnds_append hstop, ih ht]
    · rw [withLineEnds_cons hnewline, unifyLineEnds_cons (Ne.symm hc), ih ht]

end Text

namespace Encoding

variable {e : Encoding} {t : Text} {bytes : List UInt8}

/-- An encoding that can hold a text can hold it with other line ends. -/
theorem exists_encode?_withLineEnds (l : Text.LineEnd) (h : e.encode? t = some bytes) :
    ∃ bytes', e.encode? (t.withLineEnds l) = some bytes' := by
  have hbelow {n : Nat} (hn : 0x80 ≤ n) (ht : isBelow n t = true) :
      isBelow n (t.withLineEnds l) = true := by
    have hend : isBelow 0x80 l.text = true := by cases l <;> rfl
    rw [isBelow_iff] at ht hend ⊢
    intro c hc
    rcases Text.mem_withLineEnds hc with hc | hc
    · exact ht c hc
    · exact Nat.lt_of_lt_of_le (hend c hc) hn
  cases e with
  | utf8 | utf8Marked | utf16 | utf16Little => exact ⟨_, rfl⟩
  | ascii =>
    obtain ⟨ht, -⟩ := Option.ite_none_right_eq_some.1 h
    exact ⟨_, if_pos (hbelow (Nat.le_refl _) ht)⟩
  | latin1 =>
    obtain ⟨ht, -⟩ := Option.ite_none_right_eq_some.1 h
    exact ⟨_, if_pos (hbelow (by decide) ht)⟩
  | rot13 => cases h

end Encoding

namespace Command

variable {file name source : Text} {bytes bytes' : List UInt8}

theorem readSource_of_decode {encoding : Encoding} {t : Text}
    (hname : Encoding.ofName? name = some encoding) (h : encoding.decode bytes = .ok t) :
    readSource name bytes = (encodingNamed name).map fun _ => Text.unifyLineEnds t := by
  cases hnull : name.contains '\x00' with
  | true => simp only [readSource, encodingNamed, hnull, if_true, Except.map]
  | false =>
    simp only [readSource, encodingNamed, hnull, Bool.false_eq_true, if_false, hname, h, Except.map]

/-- A listing depends on the bytes of a file only through the source that is read from them. -/
theorem listUnder_congr {said : Text} {s : Settings} {format : Format}
    (h : readSource s.encoding bytes' = readSource s.encoding bytes) :
    listUnder said s format file bytes' = listUnder said s format file bytes := by
  simp only [listUnder, h]

/-- Two runs with the same arguments and environment, on files that hold the same source with
newlines and with other line ends, in the encoding that the runs read. What is read is the source
with newlines, so all that is said of it is the same. Every text that an encoding can hold it can
hold with other line ends, and reads back. -/
theorem run_withLineEnds (hsource : '\r' ∉ source) (l : Text.LineEnd) (e : Encoding) :
    (∀ bytes, e.encode? source = some bytes → e.decode bytes = .ok source ∧
      ∃ bytes', e.encode? (source.withLineEnds l) = some bytes' ∧
        e.decode bytes' = .ok (source.withLineEnds l)) ∧
    ∀ bytes bytes', e.decode bytes = .ok source → e.decode bytes' = .ok (source.withLineEnds l) →
      ∀ env args a name, Asks args a name →
        let s := (Request.options a).override (.ofEnvironment env)
        Encoding.ofName? s.encoding = some e →
          ('\x00' ∉ s.encoding → readSource s.encoding bytes' = .ok source) ∧
            ∀ disk disk' : Disk, disk name = .file bytes → disk' name = .file bytes' →
              run disk' env args = run disk env args := by
  constructor
  · intro bytes hbytes
    obtain ⟨bytes', hbytes'⟩ := Encoding.exists_encode?_withLineEnds l hbytes
    exact ⟨Encoding.decode_of_encode? hbytes, bytes', hbytes', Encoding.decode_of_encode? hbytes'⟩
  · intro bytes bytes' hdecode hdecode' env args a name hasks s hname
    have hread : readSource s.encoding bytes = (encodingNamed s.encoding).map fun _ => source := by
      have hplain := Text.unifyLineEnds_withLineEnds hsource .newline
      rw [Text.withLineEnds_newline] at hplain
      rw [readSource_of_decode hname hdecode, hplain]
    have hread' : readSource s.encoding bytes' =
        (encodingNamed s.encoding).map fun _ => source := by
      rw [readSource_of_decode hname hdecode', Text.unifyLineEnds_withLineEnds hsource]
    refine ⟨fun hnull => ?_, fun disk disk' hdisk hdisk' => ?_⟩
    · rw [hread', encodingNamed_of_not_mem hnull, hname]
      rfl
    · have hlist := ofArguments_eq_list_iff.2 ⟨a, name, hasks, hdisk, rfl, rfl⟩
      have hlist' := ofArguments_eq_list_iff.2 ⟨a, name, hasks, hdisk', rfl, rfl⟩
      simp only [run, hlist, hlist', listFile_eq_listUnder]
      exact listUnder_congr (hread'.trans hread.symm)

/-- A literal and a comment, each with a line end, in a file with newlines and in one with pairs. -/
theorem run_withLineEnds_of_pairs :
    let source : Text := ['"', '\n', '"', ';', '\n', '#']
    let bytes : List UInt8 := [0x22, 0x0A, 0x22, 0x3B, 0x0A, 0x23]
    let bytes' : List UInt8 := [0x22, 0x0D, 0x0A, 0x22, 0x3B, 0x0D, 0x0A, 0x23]
    '\r' ∉ source ∧ Encoding.utf8.decode bytes = .ok source ∧
      Encoding.utf8.decode bytes' = .ok (source.withLineEnds .pair) ∧
      run (fun _ => .file bytes') ⟨none, none, none⟩ [['a']] =
        run (fun _ => .file bytes) ⟨none, none, none⟩ [['a']] := by
  intro source bytes bytes'
  have hsource : '\r' ∉ source := by decide
  obtain ⟨hencodes, hruns⟩ := run_withLineEnds hsource .pair .utf8
  obtain ⟨hdecode, bytes'', hbytes, hdecode'⟩ := hencodes bytes rfl
  cases hbytes
  exact ⟨hsource, hdecode, hdecode',
    (hruns _ _ hdecode hdecode' _ _ _ _ (asks_operand rfl) rfl).2 _ _ rfl rfl⟩

end Command

end OctalScan
