import OctalScan.Lexer

/-!
# Sessions

A parser that tries one production after another looks ahead, marks places, returns to them, and
hands out streams of tokens that all read from the one cursor. A session is a lexer with those
marks and streams; an action is one thing that the parser does to it.
-/

namespace OctalScan

/-- A lexer with named marks and named streams. A stream is finished once it has met the end. -/
structure Session where
  lexer : Lexer
  marks : List (Text × Cursor)
  finished : List (Text × Bool)

/-- What can be done in a session. -/
inductive Action where
  | next
  | peek
  | drain
  | openStream (name : Text)
  | pull (name : Text)
  | save (name : Text)
  | returnTo (name : Text)
  | moveTo (c : Cursor)
  | atEnd
  | line

/-- What an action answers; `unknown` if it names a mark or a stream that does not exist. -/
inductive Answer where
  | token (t : Option Token)
  | tokens (ts : List Token)
  | cursor (c : Cursor)
  | truth (b : Bool)
  | number (n : Int)
  | done
  | unknown (name : Text)

namespace Session

def start (l : Lexer) : Session := ⟨l, [], []⟩

def next (s : Session) : Answer × Session :=
  (.token s.lexer.next.1, { s with lexer := s.lexer.next.2 })

/-- Takes the next token of a stream. A finished stream stays finished and leaves the cursor
alone. -/
def pull (s : Session) (name : Text) : Answer × Session :=
  match s.finished.lookup name with
  | some false =>
    match s.lexer.next with
    | (some t, l) => (.token (some t), { s with lexer := l })
    | (none, l) => (.token none, { s with lexer := l, finished := (name, true) :: s.finished })
  | some true => (.token none, s)
  | none => (.unknown name, s)

def returnTo (s : Session) (name : Text) : Answer × Session :=
  match s.marks.lookup name with
  | some c => (.done, { s with lexer := s.lexer.moveTo c })
  | none => (.unknown name, s)

/-- Performs one action. -/
def perform (s : Session) : Action → Answer × Session
  | .next => s.next
  | .peek => (.token s.lexer.peek, s)
  | .drain => (.tokens s.lexer.drain.1, { s with lexer := s.lexer.drain.2 })
  | .openStream name => (.done, { s with finished := (name, false) :: s.finished })
  | .pull name => s.pull name
  | .save name =>
    (.cursor s.lexer.cursor, { s with marks := (name, s.lexer.cursor) :: s.marks })
  | .returnTo name => s.returnTo name
  | .moveTo c => (.done, { s with lexer := s.lexer.moveTo c })
  | .atEnd => (.truth s.lexer.atEnd, s)
  | .line => (.number s.lexer.cursor.line, s)

end Session

end OctalScan
