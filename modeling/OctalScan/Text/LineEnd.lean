import OctalScan.Text.Basic

/-!
# Line ends

Files end their lines by a newline, a carriage return, or the two together. Reading turns each of
them into one newline.
-/

namespace OctalScan.Text

/-- Puts the text with every line end written as a newline after what `done` holds in reverse. -/
def unifyOnto (done : Text) : Text → Text
  | [] => done.reverse
  | '\r' :: '\n' :: t => unifyOnto ('\n' :: done) t
  | '\r' :: t => unifyOnto ('\n' :: done) t
  | c :: t => unifyOnto (c :: done) t

/-- A text with every line end written as a newline. -/
def unifyLineEnds (t : Text) : Text := unifyOnto [] t

/-- What was done earlier stands in front and changes nothing. -/
theorem unifyOnto_append (done earlier t : Text) :
    unifyOnto (done ++ earlier) t = earlier.reverse ++ unifyOnto done t := by
  fun_induction unifyOnto done t with
  | case1 done => simp [unifyOnto]
  | case2 done t ih => simpa [unifyOnto] using ih
  | case3 done t h ih => simpa [unifyOnto] using ih
  | case4 done c t h h2 ih => simpa [unifyOnto] using ih

end OctalScan.Text
