import OctalScan.Text.Basic

/-!
# Style sequences

A terminal takes an escape character, an opening bracket, some parameters and a letter for an order
about colour or place. Such sequences are taken out of what is printed to a file or a pipe. Text
without an escape character is printed as it is (`unstyled_of_not_mem`).
-/

namespace OctalScan.Text

def escape : Char := '\x1b'

/-- Whether a character can stand between the bracket and the letter of a style sequence. -/
def isParameter (c : Char) : Bool := c.isDigit || c == ';' || c == '?'

/-- What follows the parameters and the letter that end a style sequence. -/
def afterParameters? (t : Text) : Option Text :=
  match t.dropWhile isParameter with
  | x :: rest => if x.isAlpha then some rest else none
  | [] => none

/-- What follows the style sequence that a character begins, if it begins one. -/
def afterStyle? (c : Char) (t : Text) : Option Text :=
  match decide (c = escape), t with
  | true, '[' :: t => afterParameters? t
  | _, _ => none

theorem length_afterParameters?_lt {t rest : Text} (h : afterParameters? t = some rest) :
    rest.length < t.length := by
  have hle := (List.dropWhile_sublist isParameter (l := t)).length_le
  rw [afterParameters?] at h
  split at h
  · next x rest' hd =>
    rw [hd, List.length_cons] at hle
    split at h
    · cases h
      omega
    · cases h
  · cases h

theorem length_afterStyle?_lt {c : Char} {t rest : Text} (h : afterStyle? c t = some rest) :
    rest.length < (c :: t).length := by
  unfold afterStyle? at h
  split at h
  · have := length_afterParameters?_lt h
    simp only [List.length_cons]
    omega
  · cases h

/-- Puts a text without its style sequences after what `done` holds in reverse. -/
def unstyledOnto (done : Text) (t : Text) : Text :=
  match t with
  | [] => done.reverse
  | c :: t =>
    match _h : afterStyle? c t with
    | some rest => unstyledOnto done rest
    | none => unstyledOnto (c :: done) t
termination_by t.length
decreasing_by
  · exact length_afterStyle?_lt _h
  · simp

/-- A text without its style sequences. -/
def unstyled (t : Text) : Text := unstyledOnto [] t

/-- Without an escape character there is nothing to take out. -/
theorem unstyledOnto_of_not_mem {done t : Text} (h : escape ∉ t) :
    unstyledOnto done t = done.reverse ++ t := by
  induction t generalizing done with
  | nil => simp [unstyledOnto]
  | cons c t ih =>
    have hc : c ≠ escape := fun hc => h (by simp [hc])
    have hs : afterStyle? c t = none := by simp [afterStyle?, hc]
    have ht : escape ∉ t := fun ht => h (by simp [ht])
    rw [unstyledOnto]
    split
    · next rest hr => rw [hs] at hr; cases hr
    · rw [ih ht]; simp

theorem unstyled_of_not_mem {t : Text} (h : escape ∉ t) : unstyled t = t := by
  simpa [unstyled] using @unstyledOnto_of_not_mem [] t h

end OctalScan.Text
