import PageLint.Json.Basic
import PageLint.Json.Text

/-!
# Writing JSON

Values are written without any blanks, or over several lines with two blanks for each level.
-/

namespace PageLint.Json

def quote (s : String) : String :=
  "\"" ++ String.ofList (escape s.toList) ++ "\""

/-- The start of a line at a level, or nothing in compact writing. -/
def lineStart (pretty : Bool) (level : Nat) : String :=
  if pretty then "\n" ++ String.ofList (List.replicate (2 * level) ' ') else ""

mutual
def renderAt (pretty : Bool) (level : Nat) : Json → String
  | null => "null"
  | bool b => if b then "true" else "false"
  | number literal => literal
  | string s => quote s
  | broken => "null"
  | array [] => "[]"
  | array items =>
    "[" ++ renderItems pretty (level + 1) "" items ++ lineStart pretty level ++ "]"
  | object [] => "\x7b\x7d"
  | object fields =>
    "\x7b" ++ renderFields pretty (level + 1) "" fields ++ lineStart pretty level ++ "\x7d"

/-- The items of an array, each with `separator` before it. -/
def renderItems (pretty : Bool) (level : Nat) (separator : String) : List Json → String
  | [] => ""
  | item :: items =>
    separator ++ lineStart pretty level ++ renderAt pretty level item ++
      renderItems pretty level "," items

def renderFields (pretty : Bool) (level : Nat) (separator : String) :
    List (String × Json) → String
  | [] => ""
  | (key, value) :: fields =>
    separator ++ lineStart pretty level ++ quote key ++ (if pretty then ": " else ":") ++
      renderAt pretty level value ++ renderFields pretty level "," fields
end

def render (pretty : Bool) (value : Json) : String :=
  renderAt pretty 0 value

end PageLint.Json
