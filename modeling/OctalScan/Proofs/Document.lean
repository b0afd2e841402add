import OctalScan.Command.Run
import OctalScan.Proofs.Numeral
import OctalScan.Proofs.Payload

/-!
# Documents lose nothing

A JSON document determines all that its tokens say but the name of the file
(`document_determines`). It is read from the left: a text ends at its closing quote, a numeral
where no digit follows, and everything between them is fixed, so equal documents agree field by
field and token by token. A number in place of a payload is a word, whose width the kind tells.
As a document consists of printable ASCII and newlines, nothing is taken out of it when it is
printed.
-/

namespace OctalScan

/-! ### Kinds and payloads -/

theorem Kind.name_injective {k k' : Kind} (h : k.name = k'.name) : k = k' := by
  have hfind (k : Kind) : all.find? (fun k' => decide (k'.name = k.name)) = some k := by
    cases k <;> rfl
  have hk := hfind k
  rw [h, hfind k'] at hk
  exact (Option.some.inj hk).symm

theorem Text.Stops.append {w : Text} {c : Char} (hw : w.head? = some c) (hc : c.isDigit = false)
    (t : Text) : Stops (w ++ t) := by
  obtain ⟨w, rfl⟩ := List.head?_eq_some_iff.1 hw
  exact .cons hc _

/-- A fixed text is seen to be printable by looking at it. -/
theorem Text.forall_mem_of_all {t : Text} (h : t.all (fun c => c == '\n' || isPlain c) = true) :
    ∀ c ∈ t, c = '\n' ∨ isPlain c = true := by
  intro c hc
  simpa using List.all_eq_true.1 h c hc

namespace Token

/-- All that a token says but the name of its file. -/
def entry (t : Token) : Kind × Payload × Nat × Int × Int :=
  (t.kind, t.payload, t.offset, t.line, t.column)

variable {t t' : Token} {x y : Text}

/-- Tokens of one kind have payloads of one form, so the text of the payload tells which it is. -/
theorem payloadJson_append_inj (ht : t.kind.Carries t.payload) (ht' : t'.kind.Carries t'.payload)
    (hkind : t.kind = t'.kind) (hx : Text.Stops x) (hy : Text.Stops y)
    (h : t.payloadJson ++ x = t'.payloadJson ++ y) : t.payload = t'.payload ∧ x = y := by
  have hform : t.payload.form = t'.payload.form := by rw [ht.form_eq, ht'.form_eq, hkind]
  unfold payloadJson at h
  match hp : t.payload, hp' : t'.payload with
  | .empty, .empty =>
    rw [hp, hp'] at h
    exact ⟨rfl, List.append_cancel_left h⟩
  | .text s, .text s' =>
    rw [hp, hp'] at h
    obtain ⟨rfl, hxy⟩ := Text.escaped_append_inj h
    exact ⟨rfl, hxy⟩
  | .word w, .word w' =>
    rw [hp, hp'] at h hform
    obtain ⟨hvalue, hxy⟩ := Text.ofNat_append_inj hx hy h
    exact ⟨congrArg _ (Word.ext (Payload.Form.word.inj hform) hvalue), hxy⟩
  | .empty, .text _ | .empty, .word _ | .text _, .empty | .text _, .word _ | .word _, .empty
  | .word _, .text _ =>
    rw [hp, hp'] at hform
    cases hform

theorem json_append_inj (ht : t.kind.Carries t.payload) (ht' : t'.kind.Carries t'.payload)
    (h : t.json ++ x = t'.json ++ y) : t.entry = t'.entry ∧ x = y := by
  -- the equation lemma of `json` is dear because of its long texts, so the definition is unfolded
  unfold json at h
  simp only [List.append_assoc] at h
  obtain ⟨hname, h⟩ := Text.escaped_append_inj (List.append_cancel_left h)
  have hkind := Kind.name_injective hname
  obtain ⟨hpayload, h⟩ := payloadJson_append_inj ht ht' hkind
    (.append rfl rfl _) (.append rfl rfl _)
    (List.append_cancel_left h)
  obtain ⟨hoffset, h⟩ := Text.ofNat_append_inj
    (.append rfl rfl _) (.append rfl rfl _)
    (List.append_cancel_left h)
  obtain ⟨hline, h⟩ := Text.ofInt_append_inj
    (.append rfl rfl _) (.append rfl rfl _)
    (List.append_cancel_left h)
  obtain ⟨hcolumn, h⟩ := Text.ofInt_append_inj
    (.append rfl rfl _) (.append rfl rfl _)
    (List.append_cancel_left h)
  simp only [entry, hkind, hpayload, hoffset, hline, hcolumn, true_and]
  exact List.append_cancel_left h

/-- What stands in a document besides newlines is printable ASCII. -/
theorem isPlain_of_mem_json (t : Token) : ∀ c ∈ t.json, c = '\n' ∨ Text.isPlain c = true := by
  have hpayload : ∀ c ∈ t.payloadJson, Text.isPlain c = true := by
    unfold payloadJson
    split
    · exact List.all_eq_true.1 rfl
    · exact fun c hc => Text.isPlain_of_mem_escaped hc
    · exact fun c hc => Text.isPlain_of_mem_ofNat hc
  unfold json
  simp only [List.append_assoc, List.forall_mem_append]
  refine ⟨Text.forall_mem_of_all rfl, fun c hc => .inr ?_, Text.forall_mem_of_all rfl,
    fun c hc => .inr ?_, Text.forall_mem_of_all rfl, fun c hc => .inr ?_,
    Text.forall_mem_of_all rfl, fun c hc => .inr ?_, Text.forall_mem_of_all rfl,
    fun c hc => .inr ?_, Text.forall_mem_of_all rfl⟩
  · exact Text.isPlain_of_mem_escaped hc
  · exact hpayload c hc
  · exact Text.isPlain_of_mem_ofNat hc
  · exact Text.isPlain_of_mem_ofInt hc
  · exact Text.isPlain_of_mem_ofInt hc

end Token

/-! ### Rows of tokens -/

/-- Equal rows of tokens, with a separator between them and a bracket behind them, agree token by
token: a comma tells that a token follows. -/
theorem entries_eq_of_rows_eq {t t' : Token} {ts ts' : List Token}
    (ht : ∀ u ∈ t :: ts, u.kind.Carries u.payload) (ht' : ∀ u ∈ t' :: ts', u.kind.Carries u.payload)
    (h : List.intercalate ",\n".toList ((t :: ts).map Token.json) ++ "\n]".toList =
      List.intercalate ",\n".toList ((t' :: ts').map Token.json) ++ "\n]".toList) :
    (t :: ts).map Token.entry = (t' :: ts').map Token.entry := by
  have hrow (u u' : Token) (us : List Token) :
      List.intercalate ",\n".toList ((u :: u' :: us).map Token.json) ++ "\n]".toList =
        u.json ++ (",\n".toList ++
          (List.intercalate ",\n".toList ((u' :: us).map Token.json) ++ "\n]".toList)) := by
    simp only [List.map_cons, List.intercalate_cons_cons, List.append_assoc]
  have hlast (u : Token) : List.intercalate ",\n".toList ([u].map Token.json) ++ "\n]".toList =
      u.json ++ "\n]".toList := by
    rw [List.map_singleton, List.intercalate_singleton]
  -- behind the first tokens either both rows go on or both end
  have hcomma (z : Text) : ",\n".toList ++ z ≠ "\n]".toList := by
    intro hz
    exact absurd (List.cons.inj hz).1 (by decide)
  have hfirst {u : Token} {us : List Token} (h : ∀ v ∈ u :: us, v.kind.Carries v.payload) :
      u.kind.Carries u.payload := h u List.mem_cons_self
  induction ts generalizing t t' ts' with
  | nil =>
    cases ts' with
    | nil =>
      rw [hlast, hlast] at h
      have hentry := (Token.json_append_inj (hfirst ht) (hfirst ht') h).1
      exact congrArg (fun e => [e]) hentry
    | cons u' ts' =>
      rw [hlast, hrow] at h
      exact absurd (Token.json_append_inj (hfirst ht) (hfirst ht') h).2.symm (hcomma _)
  | cons u ts ih =>
    cases ts' with
    | nil =>
      rw [hlast, hrow] at h
      exact absurd (Token.json_append_inj (hfirst ht) (hfirst ht') h).2 (hcomma _)
    | cons u' ts' =>
      rw [hrow, hrow] at h
      obtain ⟨hentry, hrest⟩ := Token.json_append_inj (hfirst ht) (hfirst ht') h
      have htail := ih (fun v hv => ht v (List.mem_cons_of_mem _ hv))
        (fun v hv => ht' v (List.mem_cons_of_mem _ hv)) (List.append_cancel_left hrest)
      exact List.cons_eq_cons.2 ⟨hentry, htail⟩

/-! ### Whole documents -/

theorem jsonDocument_of_ne_nil {ts : List Token} (h : ts ≠ []) : jsonDocument ts =
    "[\n".toList ++ (List.intercalate ",\n".toList (ts.map Token.json) ++ "\n]".toList) := by
  rw [jsonDocument, if_neg (by simpa using h), List.append_assoc]

theorem entries_eq_of_jsonDocument_eq {ts ts' : List Token}
    (ht : ∀ u ∈ ts, u.kind.Carries u.payload) (ht' : ∀ u ∈ ts', u.kind.Carries u.payload)
    (h : jsonDocument ts = jsonDocument ts') : ts.map Token.entry = ts'.map Token.entry := by
  have hopen (z : Text) : "[]".toList ≠ "[\n".toList ++ z := by
    intro hz
    exact absurd (List.cons.inj (List.cons.inj hz).2).1 (by decide)
  match ts, ts' with
  | [], [] => rfl
  | [], t' :: ts' =>
    rw [jsonDocument_of_ne_nil (List.cons_ne_nil t' ts')] at h
    exact absurd h (hopen _)
  | t :: ts, [] =>
    rw [jsonDocument_of_ne_nil (List.cons_ne_nil t ts)] at h
    exact absurd h.symm (hopen _)
  | t :: ts, t' :: ts' =>
    rw [jsonDocument_of_ne_nil (List.cons_ne_nil t ts),
      jsonDocument_of_ne_nil (List.cons_ne_nil t' ts')] at h
    exact entries_eq_of_rows_eq ht ht' (List.append_cancel_left h)

theorem forall_mem_intercalate {p : Char → Prop} {sep : Text} {ls : List Text}
    (hsep : ∀ c ∈ sep, p c) (hls : ∀ l ∈ ls, ∀ c ∈ l, p c) :
    ∀ c ∈ List.intercalate sep ls, p c := by
  match ls with
  | [] => simp
  | [l] =>
    rw [List.intercalate_singleton]
    exact hls l List.mem_cons_self
  | l :: l' :: ls =>
    have hrest := forall_mem_intercalate hsep fun m hm => hls m (List.mem_cons_of_mem l hm)
    rw [List.intercalate_cons_cons]
    simp only [List.forall_mem_append]
    exact ⟨⟨hls l List.mem_cons_self, hsep⟩, hrest⟩

theorem isPlain_of_mem_jsonDocument (ts : List Token) :
    ∀ c ∈ jsonDocument ts, c = '\n' ∨ Text.isPlain c = true := by
  by_cases h : ts = []
  · subst h
    exact Text.forall_mem_of_all rfl
  · rw [jsonDocument_of_ne_nil h]
    simp only [List.forall_mem_append]
    refine ⟨Text.forall_mem_of_all rfl, forall_mem_intercalate (Text.forall_mem_of_all rfl)
      fun row hrow => ?_, Text.forall_mem_of_all rfl⟩
    obtain ⟨t, -, rfl⟩ := List.mem_map.1 hrow
    exact t.isPlain_of_mem_json

/-- There is nothing in a document that printing takes out. -/
theorem unstyled_listing_json (ts : List Token) :
    Text.unstyled (Command.Format.json.listing ts) = jsonDocument ts ++ ['\n'] := by
  refine Text.unstyled_of_not_mem fun hmem => ?_
  rcases List.mem_append.1 hmem with hmem | hmem
  · rcases isPlain_of_mem_jsonDocument ts _ hmem with hc | hc
    · exact absurd hc (by decide)
    · exact absurd hc (by decide)
  · exact absurd (List.mem_singleton.1 hmem) (by decide)

/-- If two lists of tokens, whatever lexers have read them, are printed as the same document, they
agree token by token in kind, payload, offset, line and column. What is printed is ASCII that can be
printed, and newlines. -/
theorem document_determines {ts ts' : List Token} (hts : ∀ t ∈ ts, ∃ l : Lexer, l.peek = some t)
    (hts' : ∀ t ∈ ts', ∃ l : Lexer, l.peek = some t) :
    (Text.unstyled (Command.Format.json.listing ts) =
        Text.unstyled (Command.Format.json.listing ts') →
      ts.map Token.entry = ts'.map Token.entry) ∧
    ∀ c ∈ Text.unstyled (Command.Format.json.listing ts),
      c = '\n' ∨ (0x20 ≤ c.toNat ∧ c.toNat < 0x7F) := by
  have hcarries {us : List Token} (hus : ∀ t ∈ us, ∃ l : Lexer, l.peek = some t) :
      ∀ t ∈ us, t.kind.Carries t.payload := by
    intro t ht
    obtain ⟨l, hl⟩ := hus t ht
    exact Lexer.carries_of_peek hl
  rw [unstyled_listing_json, unstyled_listing_json]
  constructor
  · intro h
    exact entries_eq_of_jsonDocument_eq (hcarries hts) (hcarries hts') (List.append_cancel_right h)
  · intro c hc
    rcases List.mem_append.1 hc with hc | hc
    · refine (isPlain_of_mem_jsonDocument ts c hc).imp_right fun hplain => ?_
      simpa only [Text.isPlain, Bool.and_eq_true, decide_eq_true_eq] using hplain
    · exact .inl (List.mem_singleton.1 hc)

/-- The tokens of one source under two file names are printed as the same document. The source has
a literal and a string with a backslash, a newline and a character beyond the first plane. -/
theorem document_determines_two_files :
    let ts := (Lexer.ofSource ['7', '"', '\\', '\n', '😀', '"'] ['a']).drain.1
    let ts' := (Lexer.ofSource ['7', '"', '\\', '\n', '😀', '"'] ['b']).drain.1
    (∀ t ∈ ts, ∃ l : Lexer, l.peek = some t) ∧ (∀ t ∈ ts', ∃ l : Lexer, l.peek = some t) ∧
      Text.unstyled (Command.Format.json.listing ts) =
        Text.unstyled (Command.Format.json.listing ts') ∧
      ts.map Token.entry = ts'.map Token.entry := by
  intro ts ts'
  have hts : ∀ t ∈ ts, ∃ l : Lexer, l.peek = some t := fun _ => Lexer.exists_peek_of_mem_drain
  have hts' : ∀ t ∈ ts', ∃ l : Lexer, l.peek = some t := fun _ => Lexer.exists_peek_of_mem_drain
  have hsteps (file : Text) :
      (Lexer.ofSource ['7', '"', '\\', '\n', '😀', '"'] file).steps = [_, _] :=
    (Lexer.steps_of_next_some rfl).1.trans (congrArg (_ :: ·)
      ((Lexer.steps_of_next_some rfl).1.trans (congrArg (_ :: ·)
        (Lexer.steps_of_next_none rfl).1)))
  have hprinted : Text.unstyled (Command.Format.json.listing ts) =
      Text.unstyled (Command.Format.json.listing ts') := by
    rw [unstyled_listing_json, unstyled_listing_json]
    simp only [ts, ts', Lexer.drain_fst, hsteps]
    rfl
  exact ⟨hts, hts', hprinted, (document_determines hts hts').1 hprinted⟩

end OctalScan
