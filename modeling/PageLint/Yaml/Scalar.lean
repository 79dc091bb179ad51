import PageLint.Yaml.Cursor

/-!
# Scalars

A scalar is plain, in quotes, or a block of lines. Between the lines of a plain or quoted scalar a
single line end is read as a space, and of several the first is left out.
-/

namespace PageLint.Yaml

open Text

inductive ScalarStyle where
  | plain
  | quoted
  | literal
  | folded
  deriving DecidableEq, Repr

structure Gap where
  /-- the blanks before any line end -/
  blanks : List Char := []
  /-- whether there is a line end -/
  broken : Bool := false
  /-- the first line end -/
  first : List Char := []
  /-- the other line ends -/
  later : List Char := []
  deriving Repr

def Gap.fold (g : Gap) : List Char :=
  if !g.broken then g.blanks
  else if g.first == ['\n'] then (if g.later.isEmpty then [' '] else g.later)
  else g.first ++ g.later

/-- Reads a gap. After a line end a tab before column `column` is refused. -/
def Gap.read? (column : Nat) (g : Gap) (c : Cursor) : Option (Gap × Cursor) :=
  match _h : c.text with
  | [] => some (g, c)
  | ch :: _ =>
    if isBlank ch then
      if !g.broken then read? column { g with blanks := g.blanks ++ [ch] } c.skip
      else if ch == '\t' && c.column < column then none
      else read? column g c.skip
    else if isBreak ch then
      let g := if g.broken then { g with later := g.later ++ c.breakText }
        else { broken := true, first := c.breakText }
      read? column g c.skipBreak
    else some (g, c)
termination_by c.text.length
decreasing_by
  · exact Cursor.length_skip_lt _h
  · exact Cursor.length_skip_lt _h
  · exact Cursor.length_skipBreak_lt _h

/-! ### Plain scalars -/

/-- Whether a plain scalar ends before a text, blanks aside. -/
def endsPlain (inFlow : Bool) : List Char → Bool
  | [] => true
  | ':' :: rest => atGap rest
  | c :: _ => inFlow && [',', '[', ']', '\x7b', '\x7d'].contains c

/-- Whether a colon stands where it may not in a plain scalar. -/
def hasStrayColon : List Char → Bool
  | ':' :: c :: _ => [',', '?', '[', ']', '\x7b', '\x7d'].contains c
  | _ => false

/-- Reads the rest of a plain scalar: what it stands for, the place after it and whether that is
on another line. A line of it stands at column `column` or after. `fuel` bounds the number of
characters. -/
def readPlain? (inFlow : Bool) (column : Nat) (fuel : Nat) (g : Gap) (c : Cursor) :
    Option (List Char × Cursor × Bool) :=
  match fuel with
  | 0 => none
  | fuel + 1 =>
    let finished := some ([], c, g.broken)
    if c.text.head?.any fun ch => isBlank ch || isBreak ch then
      match g.read? column c with
      | none => none
      | some (g, c) =>
        if (!inFlow && c.column < column) || c.atDocumentMark || c.startsWith '#' then
          some ([], c, g.broken)
        else readPlain? inFlow column fuel g c
    else if inFlow && hasStrayColon c.text then none
    else if endsPlain inFlow c.text then finished
    else
      match c.text with
      | [] => finished
      | ch :: _ =>
        (readPlain? inFlow column fuel {} c.skip).map fun (rest, after) =>
          (g.fold ++ ch :: rest, after)

/-! ### Quoted scalars -/

def escapedChar? : Char → Option Char
  | '0' => some '\x00'
  | 'a' => some '\x07'
  | 'b' => some '\x08'
  | 't' => some '\t'
  | '\t' => some '\t'
  | 'n' => some '\n'
  | 'v' => some '\x0b'
  | 'f' => some '\x0c'
  | 'r' => some '\r'
  | 'e' => some '\x1b'
  | ' ' => some ' '
  | '"' => some '"'
  | '/' => some '/'
  | '\\' => some '\\'
  | 'N' => some '\u0085'
  | '_' => some '\u00a0'
  | 'L' => some '\u2028'
  | 'P' => some '\u2029'
  | _ => none

/-- The number of hexadecimal digits that follow a letter after a backslash. -/
def codeLength? : Char → Option Nat
  | 'x' => some 2
  | 'u' => some 4
  | 'U' => some 8
  | _ => none

def readEscape? (text : List Char) : Option (Char × Nat) :=
  match text with
  | [] => none
  | letter :: rest =>
    match escapedChar? letter, codeLength? letter with
    | some c, _ => some (c, 1)
    | none, some n =>
      let digits := rest.take n
      let code := hexNumber digits
      if digits.length = n && digits.all isHexDigit && Nat.isValidChar code then
        some (Char.ofNat code, n + 1)
      else none
    | none, none => none

/-- Reads the rest of a quoted scalar up to its closing quote. `fuel` bounds the number of
characters. -/
def readQuoted? (quote : Char) (fuel : Nat) (c : Cursor) : Option (List Char × Cursor) :=
  match fuel with
  | 0 => none
  | fuel + 1 =>
    let take (char : Char) (n : Nat) :=
      (readQuoted? quote fuel (c.skipMany n)).map fun (rest, after) => (char :: rest, after)
    let gap (g : Gap) (c : Cursor) :=
      match g.read? 0 c with
      | none => none
      | some (g, c) =>
        (readQuoted? quote fuel c).map fun (rest, after) => (g.fold ++ rest, after)
    if c.atDocumentMark then none
    else
      match c.text with
      | [] => none
      | ch :: rest =>
        if ch == quote then
          if quote == '\'' && rest.head? == some '\'' then take '\'' 2 else some ([], c.skip)
        else if quote == '"' && ch == '\\' then
          -- An escaped line end stands for nothing, but empty lines after it are kept.
          if rest.head?.any isBreak then gap { broken := true } c.skip.skipBreak
          else
            match readEscape? rest with
            | some (char, n) => take char (n + 1)
            | none => none
        else if isBlank ch || isBreak ch then gap {} c
        else take ch 1

/-! ### Blocks -/

/-- What becomes of the line ends at the end of a block. -/
inductive Chomping where
  | strip
  | clip
  | keep
  deriving DecidableEq, Repr

/-- The header of a block: how its end is treated and how far it is indented, if given. -/
structure BlockHeader where
  chomping : Chomping := .clip
  increment : Option Nat := none
  deriving Repr

def readChomping? : List Char → Option Chomping
  | '+' :: _ => some .keep
  | '-' :: _ => some .strip
  | _ => none

/-- Reads the digit of a block's header, which is not 0. -/
def readIncrement? : List Char → Option Nat
  | c :: _ => if isDigit c then some (c.toNat - '0'.toNat) else none
  | [] => none

/-- Reads a block's header after its first character: a sign and a digit in either order, and
nothing else but a comment on that line. -/
def readHeader? (c : Cursor) : Option (BlockHeader × Cursor) :=
  let (header, c) : BlockHeader × Cursor :=
    match readChomping? c.text, readIncrement? c.text with
    | some chomping, _ =>
      match readIncrement? c.skip.text with
      | some n => ({ chomping, increment := some n }, c.skipMany 2)
      | none => ({ chomping }, c.skip)
    | none, some n =>
      match readChomping? c.skip.text with
      | some chomping => ({ chomping, increment := some n }, c.skipMany 2)
      | none => ({ increment := some n }, c.skip)
    | none, none => ({}, c)
  let c := (c.skipWhile isBlank).skipComment
  if header.increment = some 0 || !atBreak c.text then none
  else some (header, if c.text.isEmpty then c else c.skipBreak)

/-- Reads empty lines and the indentation of the line after them: the line ends, the widest
indentation, and the place. Indentation of `indent` columns is skipped, or all of it if `indent` is
0; a tab in it is refused. `fuel` bounds the number of lines. -/
def readEmptyLines? (indent widest : Nat) (fuel : Nat) (c : Cursor) :
    Option (List Char × Nat × Cursor) :=
  match fuel with
  | 0 => none
  | fuel + 1 =>
    let spaces := (c.text.takeWhile (· == ' ')).length
    let c := c.skipMany (if indent = 0 then spaces else min spaces (indent - c.column))
    let widest := max widest c.column
    if (indent = 0 || c.column < indent) && c.startsWith '\t' then none
    else if c.text.head?.any isBreak then
      (readEmptyLines? indent widest fuel c.skipBreak).map fun (breaks, widest, after) =>
        (c.breakText ++ breaks, widest, after)
    else some ([], widest, c)

/-- The end of a block as it is kept: `last` is the end of its last line and `breaks` are the
line ends after that. -/
def Chomping.ending (chomping : Chomping) (last breaks : List Char) : List Char :=
  match chomping with
  | .strip => []
  | .clip => last
  | .keep => last ++ breaks

/-- Reads the lines of a block. `last` is the end of the line before, `breaks` are the empty lines
after it, and `indented` says that it began with a blank. `fuel` bounds the number of lines. -/
def readLines? (folds : Bool) (chomping : Chomping) (indent : Nat) (fuel : Nat)
    (last breaks : List Char) (indented : Bool) (c : Cursor) : Option (List Char × Cursor) :=
  match fuel with
  | 0 => none
  | fuel + 1 =>
    if c.column ≠ indent || c.text.isEmpty then some (chomping.ending last breaks, c)
    else
      let blank := c.text.head?.any isBlank
      -- A line end is folded only between two lines that do not begin with a blank.
      let gap := if folds && last == ['\n'] && !indented && !blank then
        (if breaks.isEmpty then [' '] else breaks) else last ++ breaks
      let line := c.text.takeWhile (!isBreak ·)
      let c := c.skipMany line.length
      let last := c.breakText
      let c := if c.text.isEmpty then c else c.skipBreak
      match readEmptyLines? indent 0 (c.text.length + 1) c with
      | none => none
      | some (breaks, _, c) =>
        (readLines? folds chomping indent fuel last breaks blank c).map fun (rest, after) =>
          (gap ++ line ++ rest, after)

/-- Reads a block after its first character, where `outer` is the column of the collection that it
stands in, if there is one. -/
def readBlock? (folds : Bool) (outer : Option Nat) (c : Cursor) : Option (List Char × Cursor) :=
  match readHeader? c with
  | none => none
  | some (header, c) =>
    let indent := (header.increment.map fun n => outer.getD 0 + n).getD 0
    match readEmptyLines? indent 0 (c.text.length + 1) c with
    | none => none
    | some (breaks, widest, c) =>
      let least := (outer.map (· + 1)).getD 0
      -- Without a digit in the header the lines up to the first with text tell the indentation.
      let indent := if indent = 0 then max (max widest least) 1 else indent
      readLines? folds header.chomping indent (c.text.length + 1) [] breaks false c

end PageLint.Yaml
