/-!
# Positions in a stylesheet

A position is a line and a column, both counted from 1. A line ends at a line feed, a form feed, a
carriage return or a carriage return with its line feed. Columns count UTF-16 units.
-/

namespace PageLint.Stylesheet

structure Position where
  line : Nat := 1
  column : Nat := 1
  deriving DecidableEq, Repr, Inhabited

def isNewline (c : Char) : Bool :=
  c == '\n' || c == '\x0c' || c == '\r'

/-- The length of the line end that a text starts with, at least 1. -/
def newlineLength : List Char → Nat
  | '\r' :: '\n' :: _ => 2
  | _ => 1

/-- The number of UTF-16 units of a character. -/
def units16 (c : Char) : Nat :=
  if c.toNat < 0x10000 then 1 else 2

/-- The position after a text that starts at `p`. -/
def Position.advance (p : Position) : List Char → Position
  | [] => p
  | '\r' :: '\n' :: rest => advance ⟨p.line + 1, 1⟩ rest
  | c :: rest =>
    advance (if isNewline c then ⟨p.line + 1, 1⟩ else ⟨p.line, p.column + units16 c⟩) rest

end PageLint.Stylesheet
