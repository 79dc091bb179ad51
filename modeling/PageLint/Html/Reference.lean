import Std.Data.HashMap
import PageLint.Html.Reference.Names
import PageLint.Html.Token
import PageLint.Text.Letters

/-!
# Character references

After an ampersand a character may be given by a name or by its number. `read?` reads such a
reference, and `decode` replaces all of those in an attribute value.
-/

namespace PageLint.Html

open Text

/-- A character reference as read, the ampersand left out. -/
structure Reference where
  characters : List Char
  /-- the number of characters that spell it -/
  length : Nat
  /-- whether its semicolon is missing -/
  unfinished : Bool
  deriving DecidableEq, Repr

namespace Reference

def readEntry (written : String) : String × List Char :=
  let name := written.toList.takeWhile (· ≠ '=')
  let codes := (String.ofList (written.toList.drop (name.length + 1))).splitOn "+"
  (String.ofList name, codes.map fun code => Char.ofNat (hexNumber code.toList))

def names : Std.HashMap String (List Char) :=
  Std.HashMap.ofList ((table.flatMap (·.splitOn " ")).map readEntry)

def longestName : Nat := 32

/-- The longest name of at most `n` characters that a text starts with: the characters that it
stands for and its length. -/
def longest? (text : List Char) : Nat → Option (List Char × Nat)
  | 0 => none
  | n + 1 =>
    match names[String.ofList (text.take (n + 1))]? with
    | some characters => some (characters, min (n + 1) text.length)
    | none => longest? text n

/-- Reads a reference by name. In an attribute a name without its semicolon is plain text if a
letter, a digit or an equals sign follows. -/
def readNamed? (inAttribute : Bool) (text : List Char) : Option Reference :=
  match longest? text longestName with
  | none => none
  | some (characters, length) =>
    let unfinished := (text.take length).getLast? ≠ some ';'
    let goesOn := (text.drop length).head?.any fun c => c == '=' || isLetter c || isDigit c
    if inAttribute && unfinished && goesOn then none else some ⟨characters, length, unfinished⟩

/-- What the numbers 80 to 9F stand for, in hexadecimal. -/
def windowsCodes : List Nat :=
  [0x20AC, 0x81, 0x201A, 0x0192, 0x201E, 0x2026, 0x2020, 0x2021, 0x02C6, 0x2030, 0x0160, 0x2039,
    0x0152, 0x8D, 0x017D, 0x8F, 0x90, 0x2018, 0x2019, 0x201C, 0x201D, 0x2022, 0x2013, 0x2014,
    0x02DC, 0x2122, 0x0161, 0x203A, 0x0153, 0x9D, 0x017E, 0x0178]

/-- The replacement character, which stands for what is no character. -/
def replacement : Char := '\ufffd'

def ofCode (n : Nat) : Char :=
  if n = 0 || (0xD800 ≤ n && n ≤ 0xDFFF) || 0x10FFFF < n then replacement
  else if 0x80 ≤ n && n ≤ 0x9F then Char.ofNat (windowsCodes.getD (n - 0x80) n)
  else Char.ofNat n

def decimalNumber (digits : List Char) : Nat :=
  digits.foldl (fun n c => 10 * n + (c.toNat - '0'.toNat)) 0

/-- Reads a reference by number, of which `digits` and what follows them are given; `skipped`
characters stand before the digits. -/
def ofDigits? (skipped value : Nat) (digits rest : List Char) : Option Reference :=
  if digits.isEmpty then none
  else
    let finished := rest.head? = some ';'
    some ⟨[ofCode value], skipped + digits.length + (if finished then 1 else 0), !finished⟩

def readNumber? (text : List Char) : Option Reference :=
  let hexadecimal (text : List Char) :=
    let digits := text.takeWhile isHexDigit
    ofDigits? 2 (hexNumber digits) digits (text.drop digits.length)
  match text with
  | 'x' :: rest => hexadecimal rest
  | 'X' :: rest => hexadecimal rest
  | text =>
    let digits := text.takeWhile isDigit
    ofDigits? 1 (decimalNumber digits) digits (text.drop digits.length)

/-- Reads the reference at the start of a text that stands after an ampersand. -/
def read? (inAttribute : Bool) (text : List Char) : Option Reference :=
  match text with
  | '#' :: rest => readNumber? rest
  | text => readNamed? inAttribute text

/-- An attribute value with its references replaced. A NUL is no character. -/
def decode (text : List Char) : List Char :=
  match text with
  | [] => []
  | '&' :: rest =>
    match read? true rest with
    | some r => r.characters ++ decode (rest.drop r.length)
    | none => '&' :: decode rest
  | c :: rest => (if c = '\x00' then replacement else c) :: decode rest
termination_by text.length
decreasing_by all_goals (simp only [List.length_cons, List.length_drop]; omega)

end Reference

end PageLint.Html
