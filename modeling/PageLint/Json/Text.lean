import PageLint.Text.Letters

/-!
# Strings in JSON

`escape` writes the inside of a string literal and `readString` reads it back, with the quote that
ends it. `readString_escape` says that reading undoes writing.
-/

namespace PageLint.Json

open Text

def hexDigit (n : Nat) : Char :=
  if n < 10 then Char.ofNat ('0'.toNat + n) else Char.ofNat ('a'.toNat + (n - 10))

def escapeChar (c : Char) : List Char :=
  if c = '"' then ['\\', '"']
  else if c = '\\' then ['\\', '\\']
  else if c = '\x08' then ['\\', 'b']
  else if c = '\x0c' then ['\\', 'f']
  else if c = '\n' then ['\\', 'n']
  else if c = '\r' then ['\\', 'r']
  else if c = '\t' then ['\\', 't']
  else if c.toNat < 0x20 then
    ['\\', 'u', '0', '0', hexDigit (c.toNat / 16), hexDigit (c.toNat % 16)]
  else [c]

/-- The inside of the string literal for a text. -/
def escape (text : List Char) : List Char :=
  text.flatMap escapeChar

/-- What a string literal spells: a character, or half of a surrogate pair. -/
inductive Unit where
  | char (c : Char)
  | surrogate (code : Nat)
  deriving DecidableEq, Repr

/-- The unit with a given code of at most four hexadecimal digits. -/
def Unit.ofCode (n : Nat) : Unit :=
  if 0xD800 ≤ n ∧ n ≤ 0xDFFF then surrogate n else char (Char.ofNat n)

def escapedLetter? : Char → Option Char
  | '"' => some '"'
  | '\\' => some '\\'
  | '/' => some '/'
  | 'b' => some '\x08'
  | 'f' => some '\x0c'
  | 'n' => some '\n'
  | 'r' => some '\r'
  | 't' => some '\t'
  | _ => none

/-- Reads the inside of a string literal and the quote after it. -/
def readUnits : List Char → Option (List Unit × List Char)
  | [] => none
  | '"' :: rest => some ([], rest)
  | '\\' :: 'u' :: a :: b :: c :: d :: rest =>
    if [a, b, c, d].all isHexDigit then
      (readUnits rest).map fun (units, rest) =>
        (Unit.ofCode (hexNumber [a, b, c, d]) :: units, rest)
    else none
  | '\\' :: c :: rest =>
    match escapedLetter? c with
    | some e => (readUnits rest).map fun (units, rest) => (.char e :: units, rest)
    | none => none
  | c :: rest =>
    if c.toNat < 0x20 then none
    else (readUnits rest).map fun (units, rest) => (.char c :: units, rest)

/-- The text that units spell, if every half of a surrogate pair stands next to its other half. -/
def joinUnits : List Unit → Option (List Char)
  | [] => some []
  | .char c :: rest => (joinUnits rest).map (c :: ·)
  | .surrogate high :: .surrogate low :: rest =>
    if high < 0xDC00 ∧ 0xDC00 ≤ low then
      (joinUnits rest).map
        (Char.ofNat (0x10000 + (high - 0xD800) * 0x400 + (low - 0xDC00)) :: ·)
    else none
  | .surrogate _ :: _ => none

/-- Reads a string literal after its opening quote: the text, if the literal spells one, and what
follows the closing quote. -/
def readString (text : List Char) : Option (Option String × List Char) :=
  (readUnits text).map fun (units, rest) => ((joinUnits units).map String.ofList, rest)

/-! ### Reading what was written -/

theorem hexNumber_hexDigit :
    ∀ n < 0x20, let digits := ['0', '0', hexDigit (n / 16), hexDigit (n % 16)]
      digits.all isHexDigit = true ∧ hexNumber digits = n := by
  decide

theorem ofCode_toNat {c : Char} (h : c.toNat < 0x20) : Unit.ofCode c.toNat = .char c := by
  rw [Unit.ofCode, if_neg (by omega), Char.ofNat_toNat]

theorem readUnits_escapeChar (c : Char) (text : List Char) :
    readUnits (escapeChar c ++ text) =
      (readUnits text).map fun (units, rest) => (.char c :: units, rest) := by
  unfold escapeChar
  split
  · subst c; rfl
  split
  · subst c; rfl
  split
  · subst c; rfl
  split
  · subst c; rfl
  split
  · subst c; rfl
  split
  · subst c; rfl
  split
  · subst c; rfl
  split
  · rename_i small
    have digits := hexNumber_hexDigit c.toNat small
    simp only [List.cons_append, List.nil_append, readUnits]
    rw [if_pos digits.1, digits.2, ofCode_toNat small]
  · rename_i quote backslash _ _ _ _ _ small
    rw [List.singleton_append, readUnits, if_neg small]
    all_goals simp_all

theorem readUnits_escape (text rest : List Char) :
    readUnits (escape text ++ '"' :: rest) = some (text.map .char, rest) := by
  induction text with
  | nil => rfl
  | cons c text ih =>
    rw [escape, List.flatMap_cons, List.append_assoc, readUnits_escapeChar, ← escape, ih]
    rfl

theorem joinUnits_char (text : List Char) : joinUnits (text.map .char) = some text := by
  induction text with
  | nil => rfl
  | cons c text ih => simp [joinUnits, ih]

/-- Reading a string literal gives back the text that was written. -/
theorem readString_escape (text rest : List Char) :
    readString (escape text ++ '"' :: rest) = some (some (String.ofList text), rest) := by
  simp only [readString, readUnits_escape, Option.map_some, joinUnits_char]

end PageLint.Json
