import OctalScan.Cursor
import OctalScan.Lexeme

/-!
# Lexers

A lexer is a text buffer with a cursor. Reading a token skips the gap at the cursor, reads one
lexeme and moves the cursor behind it. The buffer of a source is the source and one blank that
marks its end.

`Step.all` lists every token from a cursor to the end of a text together with the cursor after it.
It is computed in one pass, and `Step.all_eq` is its equation: read one token, then the others from
where that one ended.
-/

namespace OctalScan

/-- The cursor after a lexeme. Only a newline token starts a new line: the newlines inside a string
count as characters of its line. -/
def Cursor.past (c : Cursor) (l : Lexeme) : Cursor :=
  if l.kind = .newline then c.nextLine else c.right l.span.length

/-- The token of a lexeme that begins at a cursor. -/
def Lexeme.toToken (l : Lexeme) (file : Text) (c : Cursor) : Token :=
  ⟨l.kind, l.payload, c.offset, c.line, c.column, file⟩

/-- A token that was read, the cursor after it, and the text that is left. -/
structure Reading where
  token : Token
  cursor : Cursor
  rest : Text

/-- Reads one token from a text that stands at a cursor, or finds that only a gap is left and moves
the cursor past it. -/
def Reading.first (file : Text) (c : Cursor) (t : Text) : Except Cursor Reading :=
  match c.skipGap false t with
  | (c, []) => .error c
  | (c, x :: t) => .ok ⟨(Lexeme.read x t).1.toToken file c, c.past (Lexeme.read x t).1,
      (Lexeme.read x t).2⟩

theorem Reading.length_rest_lt {file : Text} {c : Cursor} {t : Text} {r : Reading}
    (h : Reading.first file c t = .ok r) : r.rest.length < t.length := by
  have hgap := Cursor.length_skipGap_le false c t
  rw [Reading.first] at h
  split at h
  · cases h
  · next c' x t' hs =>
    cases h
    rw [hs] at hgap
    exact Nat.lt_of_lt_of_le (Lexeme.length_read_lt x t') hgap

/-- A token and the cursor after it. -/
structure Step where
  token : Token
  cursor : Cursor
  deriving DecidableEq, Repr

namespace Step

/-- Adds to `done` the steps from a cursor to the end of the text that stands there, and finds the
cursor at that end. -/
def allOnto (done : Array Step) (file : Text) (c : Cursor) (t : Text) : Array Step × Cursor :=
  match _h : Reading.first file c t with
  | .error c => (done, c)
  | .ok r => allOnto (done.push ⟨r.token, r.cursor⟩) file r.cursor r.rest
termination_by t.length
decreasing_by exact Reading.length_rest_lt _h

/-- The steps from a cursor to the end of the text that stands there, and the cursor at that
end. -/
def all (file : Text) (c : Cursor) (t : Text) : List Step × Cursor :=
  let (steps, finish) := allOnto #[] file c t
  (steps.toList, finish)

/-- What was done earlier stands in front and changes nothing. -/
theorem allOnto_append (earlier done : Array Step) (file : Text) (c : Cursor) (t : Text) :
    allOnto (earlier ++ done) file c t =
      (earlier ++ (allOnto done file c t).1, (allOnto done file c t).2) := by
  fun_induction allOnto done file c t with
  | case1 done c t c' h => rw [allOnto, h]
  | case2 done c t r h ih => rw [allOnto, h, ← ih, Array.append_push]

/-- All steps are the first step and the steps after it. -/
theorem all_eq (file : Text) (c : Cursor) (t : Text) :
    all file c t =
      match Reading.first file c t with
      | .error c => ([], c)
      | .ok r => (⟨r.token, r.cursor⟩ :: (all file r.cursor r.rest).1,
          (all file r.cursor r.rest).2) := by
  unfold all
  rw [allOnto]
  cases h : Reading.first file c t with
  | error c => rfl
  | ok r =>
    have := allOnto_append #[⟨r.token, r.cursor⟩] #[] file r.cursor r.rest
    simp only [Array.append_empty] at this
    simp [this]

end Step

/-- A text buffer with a cursor. `file` is the name that is attached to every token. -/
structure Lexer where
  file : Text
  buffer : Text
  cursor : Cursor
  deriving DecidableEq, Repr

namespace Lexer

/-- The file name of a source that has none. -/
def defaultFile : Text := "<input>".toList

/-- A lexer over a buffer that is taken as it is. -/
def ofBuffer (buffer : Text) (file : Text) : Lexer := ⟨file, buffer, .start⟩

/-- A lexer over a source: the buffer ends in a blank that ends every open symbol or literal. -/
def ofSource (source : Text) (file : Text) : Lexer := ofBuffer (source ++ [' ']) file

/-- The text from the cursor on. -/
def remaining (l : Lexer) : Text := l.buffer.drop l.cursor.offset

def moveTo (l : Lexer) (c : Cursor) : Lexer := { l with cursor := c }

/-- Reads the next token, if there is one, and moves the cursor. -/
def next (l : Lexer) : Option Token × Lexer :=
  match Reading.first l.file l.cursor l.remaining with
  | .error c => (none, l.moveTo c)
  | .ok r => (some r.token, l.moveTo r.cursor)

def peek (l : Lexer) : Option Token := l.next.1

/-- The steps from the cursor to the end of the buffer. -/
def steps (l : Lexer) : List Step := (Step.all l.file l.cursor l.remaining).1

/-- Reads all remaining tokens. -/
def drain (l : Lexer) : List Token × Lexer :=
  let (steps, finish) := Step.all l.file l.cursor l.remaining
  (steps.map Step.token, l.moveTo finish)

/-- Whether the cursor is at the end of the buffer. The blank that ends a source is still before
the end. -/
def atEnd (l : Lexer) : Bool := decide (l.buffer.length ≤ l.cursor.offset)

/-- The lines of the source. The last character of the buffer is its end mark and belongs to
none. -/
def sourceLines (l : Lexer) : Array Text := (Text.lines l.buffer.dropLast).toArray

end Lexer

/-- The line with a given number, counted from one; there is nothing on a line that does not
exist. -/
def lineAt (lines : Array Text) (n : Int) : Text :=
  if 1 ≤ n then lines.getD (n - 1).toNat [] else []

def Lexer.sourceLine (l : Lexer) (n : Int) : Text := lineAt l.sourceLines n

end OctalScan
