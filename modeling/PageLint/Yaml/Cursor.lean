import PageLint.Text.Letters

/-!
# Places in a YAML text

YAML is read from a cursor, which knows the column: nesting shows in columns.
-/

namespace PageLint.Yaml

open Text

def isBreak (c : Char) : Bool :=
  c == '\n' || c == '\r' || c == '\u0085' || c == '\u2028' || c == '\u2029'

/-- Space and tab. -/
def isBlank (c : Char) : Bool :=
  c == ' ' || c == '\t'

/-- The characters of anchors, directives and the handles of tags. -/
def isWordChar (c : Char) : Bool :=
  isLetter c || isDigit c || c == '_' || c == '-'

def atBreak (text : List Char) : Bool :=
  text.head?.all isBreak

def atGap (text : List Char) : Bool :=
  text.head?.all fun c => isBlank c || isBreak c

def isAllowed (c : Char) : Bool :=
  let n := c.toNat
  n == 0x09 || n == 0x0A || n == 0x0D || (0x20 ≤ n && n ≤ 0x7E) || n == 0x85 ||
    (0xA0 ≤ n && n ≤ 0xFFFD) || 0x10000 ≤ n

/-- A place: the text from there on, and how far it is from the start and from the start of its
line. -/
structure Cursor where
  text : List Char
  index : Nat := 0
  line : Nat := 0
  column : Nat := 0
  deriving Repr

namespace Cursor

def startsWith (c : Cursor) (char : Char) : Bool :=
  c.text.head? == some char

/-- The place after one character, which is no line end. -/
def skip (c : Cursor) : Cursor :=
  { c with text := c.text.tail, index := c.index + 1, column := c.column + 1 }

def skipMany (c : Cursor) (n : Nat) : Cursor :=
  { c with text := c.text.drop n, index := c.index + n, column := c.column + n }

/-- The length of the line end that a text starts with. -/
def breakLength : List Char → Nat
  | '\r' :: '\n' :: _ => 2
  | _ => 1

def skipBreak (c : Cursor) : Cursor :=
  let n := breakLength c.text
  { text := c.text.drop n, index := c.index + n, line := c.line + 1, column := 0 }

/-- A line end as it is kept: the line and the paragraph separator stay, any other is a line
feed. -/
def breakText (c : Cursor) : List Char :=
  match c.text with
  | ch :: _ => if ch == '\u2028' || ch == '\u2029' then [ch] else ['\n']
  | [] => []

/-- The place after the characters of a kind, none of which is a line end. -/
def skipWhile (c : Cursor) (p : Char → Bool) : Cursor :=
  c.skipMany (c.text.takeWhile p).length

/-- The place after a byte order mark at the start of a line, if there is one. -/
def skipMark (c : Cursor) : Cursor :=
  if c.column == 0 && c.startsWith '\uFEFF' then c.skip else c

def skipComment (c : Cursor) : Cursor :=
  if c.startsWith '#' then c.skipWhile (!isBreak ·) else c

/-- Whether a document starts or ends here: three hyphens or points at the start of a line. -/
def atDocumentMark (c : Cursor) : Bool :=
  c.column == 0 && (c.text.take 3 == ['-', '-', '-'] || c.text.take 3 == ['.', '.', '.']) &&
    atGap (c.text.drop 3)

theorem breakLength_pos (text : List Char) : 0 < breakLength text := by
  unfold breakLength
  split <;> decide

theorem length_skip_lt {c : Cursor} {ch : Char} {rest : List Char} (h : c.text = ch :: rest) :
    c.skip.text.length < c.text.length := by
  simp [skip, h]

theorem length_skipBreak_lt {c : Cursor} {ch : Char} {rest : List Char} (h : c.text = ch :: rest) :
    c.skipBreak.text.length < c.text.length := by
  have := breakLength_pos (ch :: rest)
  simp only [skipBreak, h, List.length_drop, List.length_cons]
  omega

theorem length_skipMany_le (c : Cursor) (n : Nat) :
    (c.skipMany n).text.length ≤ c.text.length := by
  simp only [skipMany, List.length_drop]
  omega

theorem length_skip_le (c : Cursor) : c.skip.text.length ≤ c.text.length := by
  simp only [skip, List.length_tail]
  omega

theorem length_skipMark_le (c : Cursor) : c.skipMark.text.length ≤ c.text.length := by
  unfold skipMark
  split
  · exact length_skip_le c
  · exact Nat.le_refl _

theorem length_skipWhile_le (c : Cursor) (p : Char → Bool) :
    (c.skipWhile p).text.length ≤ c.text.length :=
  length_skipMany_le c _

theorem length_skipComment_le (c : Cursor) : c.skipComment.text.length ≤ c.text.length := by
  unfold skipComment
  split
  · exact length_skipWhile_le c _
  · exact Nat.le_refl _

end Cursor

end PageLint.Yaml
