import PageLint.Yaml.Scalar

/-!
# Tokens

The parts of a YAML text, and how those with a name are read: anchors, aliases, tags and
directives.
-/

namespace PageLint.Yaml

open Text

/-- A part of a YAML text. That a block collection begins or ends is seen from columns. -/
inductive Token where
  /-- the version of the language -/
  | version (major minor : Nat)
  /-- what a handle stands for in tags -/
  | tagHandle (handle stem : String)
  | documentStart
  | documentEnd
  | blockSequence
  | blockMapping
  | blockEnd
  | flowSequence
  | flowSequenceEnd
  | flowMapping
  | flowMappingEnd
  /-- the hyphen of a block sequence -/
  | item
  | comma
  | key
  | value
  | alias (name : String)
  | anchor (name : String)
  | tag (handle suffix : String)
  | scalar (value : String) (style : ScalarStyle)
  deriving DecidableEq, Repr

/-! ### Anchors -/

def endsAnchor : List Char → Bool
  | [] => true
  | c :: _ => isBlank c || isBreak c ||
    ['?', ':', ',', ']', '\x7d', '%', '@', '\x60'].contains c

def readAnchor? (c : Cursor) : Option (String × Cursor) :=
  let name := c.text.takeWhile isWordChar
  let after := c.skipMany name.length
  if name.isEmpty || !endsAnchor after.text then none else some (String.ofList name, after)

/-! ### Tags -/

def isTagChar (c : Char) : Bool :=
  isWordChar c ||
    [';', '/', '?', ':', '@', '&', '=', '+', '$', '.', '!', '~', '*', '\'', '(', ')'].contains c

def isFullTagChar (c : Char) : Bool :=
  isTagChar c || c == ',' || c == '[' || c == ']'

/-- Reads bytes that are written as a percent sign and two digits each. -/
def readBytes? : Nat → List Char → Option (List Nat × List Char)
  | 0, text => some ([], text)
  | n + 1, '%' :: a :: b :: text =>
    if isHexDigit a && isHexDigit b then
      (readBytes? n text).map fun (bytes, rest) => (hexNumber [a, b] :: bytes, rest)
    else none
  | _ + 1, _ => none

def encodedLength? (byte : Nat) : Option Nat :=
  if byte < 0x80 then some 1
  else if 0xC0 ≤ byte && byte < 0xE0 then some 2
  else if 0xE0 ≤ byte && byte < 0xF0 then some 3
  else if 0xF0 ≤ byte && byte < 0xF8 then some 4
  else none

def isContinuation (byte : Nat) : Bool :=
  0x80 ≤ byte && byte < 0xC0

/-- The character that bytes stand for, or the replacement character if there is none. -/
def decodeBytes (bytes : List Nat) : Char :=
  match String.fromUTF8? ⟨(bytes.map fun b => UInt8.ofNat b).toArray⟩ with
  | some s => s.toList.head?.getD '\uFFFD'
  | none => '\uFFFD'

def readEncoded? (text : List Char) : Option (Char × List Char) :=
  match readBytes? 1 text with
  | some ([first], _) =>
    match encodedLength? first with
    | none => none
    | some n =>
      match readBytes? n text with
      | some (bytes, rest) =>
        if bytes.tail.all isContinuation then some (decodeBytes bytes, rest) else none
      | none => none
  | _ => none

def readTagChars? (allowed : Char → Bool) : Nat → List Char → Option (List Char × List Char)
  | 0, _ => none
  | fuel + 1, text =>
    match text with
    | [] => some ([], [])
    | c :: rest =>
      if c == '%' then
        match readEncoded? text with
        | some (decoded, rest) =>
          (readTagChars? allowed fuel rest).map fun (cs, rest) => (decoded :: cs, rest)
        | none => none
      else if allowed c then
        (readTagChars? allowed fuel rest).map fun (cs, rest) => (c :: cs, rest)
      else some ([], text)

/-- The place where a text that is left over from one line starts. -/
def Cursor.toRest (c : Cursor) (rest : List Char) : Cursor :=
  c.skipMany (c.text.length - rest.length)

def readTagText? (allowed : Char → Bool) (c : Cursor) : Option (List Char × Cursor) :=
  (readTagChars? allowed (c.text.length + 1) c.text).map fun (cs, rest) => (cs, c.toRest rest)

/-- Reads a handle: an exclamation mark, or a word between two of them. The second one may be
missing where a tag without a handle is meant. -/
def readHandle? (c : Cursor) : Option (List Char × Cursor) :=
  if c.startsWith '!' then
    let name := c.skip.text.takeWhile isWordChar
    let after := c.skip.skipMany name.length
    if after.startsWith '!' then some ('!' :: name ++ ['!'], after.skip)
    else some ('!' :: name, after)
  else none

def isClosedHandle (handle : List Char) : Bool :=
  1 < handle.length && handle.getLast? == some '!'

def readFullTag? (c : Cursor) : Option (Token × Cursor) :=
  match readTagText? isFullTagChar c with
  | some (name, after) =>
    if !name.isEmpty && after.startsWith '>' then
      some (.tag "" (String.ofList name), after.skip)
    else none
  | none => none

/-- Reads a tag with a handle or without. A single exclamation mark is a tag of its own. -/
def readShortTag? (c : Cursor) : Option (Token × Cursor) :=
  match readHandle? c with
  | none => none
  | some (handle, after) =>
    match readTagText? isTagChar after with
    | none => none
    | some (text, after) =>
      if isClosedHandle handle then
        if text.isEmpty then none
        else some (.tag (String.ofList handle) (String.ofList text), after)
      else
        let suffix := handle.tail ++ text
        if suffix.isEmpty then some (.tag "" "!", after)
        else some (.tag "!" (String.ofList suffix), after)

/-- Reads a tag. It ends before a blank or a line end, or before a comma in a flow collection. -/
def readTag? (inFlow : Bool) (c : Cursor) : Option (Token × Cursor) :=
  let found := if c.text.take 2 == ['!', '<'] then readFullTag? (c.skipMany 2) else readShortTag? c
  found.filter fun (_, after) => atGap after.text || (inFlow && after.startsWith ',')

/-! ### Directives -/

def readNumber? (c : Cursor) : Option (Nat × Cursor) :=
  let digits := c.text.takeWhile isDigit
  if digits.isEmpty || 9 < digits.length then none
  else some (digits.foldl (fun n d => 10 * n + (d.toNat - '0'.toNat)) 0, c.skipMany digits.length)

def readVersion? (c : Cursor) : Option (Token × Cursor) :=
  match readNumber? (c.skipWhile isBlank) with
  | none => none
  | some (major, c) =>
    if c.startsWith '.' then
      (readNumber? c.skip).map fun (minor, c) => (.version major minor, c)
    else none

def readTagHandle? (c : Cursor) : Option (Token × Cursor) :=
  match readHandle? (c.skipWhile isBlank) with
  | none => none
  | some (handle, c) =>
    if (handle == ['!'] || isClosedHandle handle) && c.text.head?.any isBlank then
      match readTagText? isFullTagChar (c.skipWhile isBlank) with
      | some (stem, c) =>
        if stem.isEmpty || !atGap c.text then none
        else some (.tagHandle (String.ofList handle) (String.ofList stem), c)
      | none => none
    else none

/-- Reads a directive after its percent sign, and the rest of its line, where only a comment may
follow. -/
def readDirective? (c : Cursor) : Option (Token × Cursor) :=
  let name := c.text.takeWhile isWordChar
  let after := c.skipMany name.length
  let found :=
    if !atGap after.text then none
    else if name == ['Y', 'A', 'M', 'L'] then readVersion? after
    else if name == ['T', 'A', 'G'] then readTagHandle? after
    else none
  match found with
  | none => none
  | some (token, c) =>
    let c := (c.skipWhile isBlank).skipComment
    if !atBreak c.text then none
    else some (token, if c.text.isEmpty then c else c.skipBreak)

end PageLint.Yaml
