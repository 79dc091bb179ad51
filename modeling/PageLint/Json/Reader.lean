import PageLint.Json.Basic
import PageLint.Json.Text

/-!
# Reading JSON

`read?` takes a text that is one JSON value with blanks around it, and no other.
-/

namespace PageLint.Json

open Text

/-- Space, tab, line feed and carriage return. -/
def isBlank (c : Char) : Bool :=
  c == ' ' || c == '\t' || c == '\n' || c == '\r'

def skipBlanks (text : List Char) : List Char :=
  text.dropWhile isBlank

def numberLength? (text : List Char) : Option Nat :=
  let sign := if text.head? = some '-' then 1 else 0
  let text := text.drop sign
  let digits (text : List Char) := (text.takeWhile isDigit).length
  let whole := if text.head? = some '0' then 1 else digits text
  let text := text.drop whole
  let fraction? := match text with
    | '.' :: rest => if digits rest = 0 then none else some (1 + digits rest)
    | _ => some 0
  match whole, fraction? with
  | 0, _ | _, none => none
  | whole, some fraction =>
    let exponent? := match text.drop fraction with
      | e :: rest =>
        if e = 'e' || e = 'E' then
          let sign := if rest.head? = some '+' || rest.head? = some '-' then 1 else 0
          let power := digits (rest.drop sign)
          if power = 0 then none else some (1 + sign + power)
        else some 0
      | [] => some 0
    exponent?.map (sign + whole + fraction + ·)

/-- The object with these fields, if each has a text for its key. -/
def ofFields (fields : List (Option String × Json)) : Json :=
  let withKey (field : Option String × Json) := field.1.map (·, field.2)
  (fields.mapM withKey).elim broken object

mutual
/-- Reads the value at the start of a text. `fuel` bounds the number of steps; the length of the
text is enough. -/
def readValue (fuel : Nat) (text : List Char) : Option (Json × List Char) :=
  match fuel with
  | 0 => none
  | fuel + 1 =>
    match text with
    | '"' :: rest =>
      (readString rest).map fun (s, rest) => (s.elim broken string, rest)
    | '[' :: rest =>
      match skipBlanks rest with
      | ']' :: rest => some (array [], rest)
      | rest => (readItems fuel rest).map fun (items, rest) => (array items, rest)
    | '\x7b' :: rest =>
      match skipBlanks rest with
      | '\x7d' :: rest => some (object [], rest)
      | rest =>
        (readFields fuel rest).map fun (fields, rest) => (ofFields fields, rest)
    | text =>
      match afterPrefix? ['n', 'u', 'l', 'l'] text, afterPrefix? ['t', 'r', 'u', 'e'] text,
          afterPrefix? ['f', 'a', 'l', 's', 'e'] text, numberLength? text with
      | some rest, _, _, _ => some (null, rest)
      | _, some rest, _, _ => some (bool true, rest)
      | _, _, some rest, _ => some (bool false, rest)
      | _, _, _, some n => some (number (String.ofList (text.take n)), text.drop n)
      | _, _, _, none => none

/-- Reads the items of an array from the first on, and the bracket after the last. -/
def readItems (fuel : Nat) (text : List Char) : Option (List Json × List Char) :=
  match fuel with
  | 0 => none
  | fuel + 1 =>
    match readValue fuel (skipBlanks text) with
    | none => none
    | some (item, rest) =>
      match skipBlanks rest with
      | ',' :: rest => (readItems fuel rest).map fun (items, rest) => (item :: items, rest)
      | ']' :: rest => some ([item], rest)
      | _ => none

/-- Reads the fields of an object from the first on, and the brace after the last. -/
def readFields (fuel : Nat) (text : List Char) :
    Option (List (Option String × Json) × List Char) :=
  match fuel with
  | 0 => none
  | fuel + 1 =>
    match skipBlanks text with
    | '"' :: rest =>
      match readString rest with
      | none => none
      | some (key, rest) =>
        match skipBlanks rest with
        | ':' :: rest =>
          match readValue fuel (skipBlanks rest) with
          | none => none
          | some (value, rest) =>
            match skipBlanks rest with
            | ',' :: rest =>
              (readFields fuel rest).map fun (fields, rest) => ((key, value) :: fields, rest)
            | '\x7d' :: rest => some ([(key, value)], rest)
            | _ => none
        | _ => none
    | _ => none
end

def read? (text : String) : Option Json :=
  match readValue (text.length + 1) (skipBlanks text.toList) with
  | some (value, rest) => if (skipBlanks rest).isEmpty then some value else none
  | none => none

end PageLint.Json
