import PageLint.Stylesheet.Extent

/-!
# Tokens of a stylesheet

A token is a piece of the source with the position of its first character. `tokens_text` says that
the pieces, put together again, are the source.
-/

namespace PageLint.Stylesheet

open Text

inductive Bracket where
  | paren
  | square
  | brace
  deriving DecidableEq, Repr

def Bracket.opening : Bracket → Char
  | paren => '('
  | square => '['
  | brace => '\x7b'

def Bracket.closing : Bracket → Char
  | paren => ')'
  | square => ']'
  | brace => '\x7d'

/-- What a token is. Numbers, strings, URLs, hashes and single characters are all `other`: no rule
of this library looks inside them. Names are held without their escapes. -/
inductive TokenKind where
  | blank
  | comment
  | ident (name : List Char)
  | atKeyword (name : List Char)
  | function (name : List Char)
  | opens (bracket : Bracket)
  | closes (bracket : Bracket)
  | colon
  | semicolon
  /-- `<!--` or `-->`, which stand around a stylesheet that is part of a page -/
  | pageComment
  | other
  deriving DecidableEq, Repr

/-- A token: what it is, its source text and where it starts. -/
structure Token where
  kind : TokenKind
  text : List Char
  start : Position
  deriving DecidableEq, Repr

/-- The bracket that a token opens. A function opens its parenthesis. -/
def TokenKind.opened? : TokenKind → Option Bracket
  | opens b => some b
  | function _ => some .paren
  | _ => none

def Token.stop (t : Token) : Position :=
  t.start.advance t.text

def replacement : Char := '\ufffd'

/-- The character of an escape, given as its text without the backslash. -/
def escapedChar (text : List Char) : Char :=
  let digits := (text.take 6).takeWhile isHexDigit
  if digits.isEmpty then
    match text with
    | [] => replacement
    | c :: _ => if c = '\x00' then replacement else c
  else
    let n := hexNumber digits
    if n ≠ 0 && (n < 0xD800 || (0xDFFF < n && n < 0x110000)) then Char.ofNat n else replacement

def unescape (text : List Char) : List Char :=
  match text with
  | [] => []
  | c :: rest =>
    if c = '\\' then escapedChar rest :: unescape (rest.drop (escapeLength rest))
    else (if c = '\x00' then replacement else c) :: unescape rest
termination_by text.length
decreasing_by all_goals (simp only [List.length_cons, List.length_drop]; omega)

/-- The kind and length of a token that starts with a name: a URL, a function or an identifier. -/
def nameToken (text : List Char) : TokenKind × Nat :=
  let n := nameLength text
  let name := unescape (text.take n)
  match text.drop n with
  | '(' :: rest =>
    if agree name ['u', 'r', 'l'] then
      match urlLength? rest with
      | some m => (.other, n + 1 + m)
      | none => (.function name, n + 1)
    else (.function name, n + 1)
  | _ => (.ident name, n)

/-- The kind and length of a token that starts with `c`, where `rest` follows. -/
def tokenAt (c : Char) (rest : List Char) : TokenKind × Nat :=
  let text := c :: rest
  if isBlank c then (.blank, (text.takeWhile isBlank).length)
  else if c = '"' || c = '\'' then (.other, 1 + stringLength c rest)
  else if c = '#' then
    let hash := startsName rest || match rest with
      | d :: _ => isDigit d || d = '-'
      | [] => false
    (.other, if hash then 1 + nameLength rest else 1)
  else if c = '(' then (.opens .paren, 1)
  else if c = ')' then (.closes .paren, 1)
  else if c = '[' then (.opens .square, 1)
  else if c = ']' then (.closes .square, 1)
  else if c = '\x7b' then (.opens .brace, 1)
  else if c = '\x7d' then (.closes .brace, 1)
  else if c = ':' then (.colon, 1)
  else if c = ';' then (.semicolon, 1)
  else if c = '+' || c = '-' then
    if startsNumber rest then (.other, 1 + numberLength rest)
    else if (afterPrefix? ['-', '-', '>'] text).isSome then (.pageComment, 3)
    else if c = '-' && startsName text then nameToken text
    else (.other, 1)
  else if c = '.' then
    if startsNumber text then (.other, numberLength text) else (.other, 1)
  else if c = '/' then
    match rest with
    | '*' :: inside => (.comment, 2 + commentLength inside)
    | _ => (.other, 1)
  else if isDigit c then (.other, numberLength text)
  else if c = '<' then
    if (afterPrefix? ['<', '!', '-', '-'] text).isSome then (.pageComment, 4) else (.other, 1)
  else if c = '@' then
    if startsName rest then
      (.atKeyword (unescape (rest.take (nameLength rest))), 1 + nameLength rest)
    else (.other, 1)
  else if c = '$' || c = '*' || c = '^' || c = '|' || c = '~' then
    match rest with
    | '=' :: _ => (.other, 2)
    | _ => (.other, 1)
  else if startsName text then nameToken text
  else (.other, 1)

/-- The tokens of a text that starts at `p`. -/
def tokens (p : Position) (text : List Char) : List Token :=
  match text with
  | [] => []
  | c :: rest =>
    let (kind, length) := tokenAt c rest
    -- No token is empty, whatever `length` is, so the text that is left grows shorter.
    let taken := c :: rest.take (length - 1)
    ⟨kind, taken, p⟩ :: tokens (p.advance taken) (rest.drop (length - 1))
termination_by text.length
decreasing_by simp only [List.length_cons, List.length_drop]; omega

/-- The tokens of a text are pieces of it, in order and without a gap. -/
theorem tokens_text (p : Position) (text : List Char) :
    (tokens p text).flatMap Token.text = text := by
  fun_induction tokens p text with
  | case1 => rfl
  | case2 p c rest kind length h taken ih =>
    simp only [List.flatMap_cons, ih, taken, List.cons_append, List.take_append_drop]

end PageLint.Stylesheet
