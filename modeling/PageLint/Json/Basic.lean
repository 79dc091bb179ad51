/-!
# JSON values

A value as its text gives it: objects keep their fields in order, repeated ones included, and a
number is its literal.
-/

namespace PageLint

inductive Json where
  | null
  | bool (b : Bool)
  | number (literal : String)
  | string (s : String)
  /-- a string, or an object with a key, that spells half of a surrogate pair and so is no text -/
  | broken
  | array (items : List Json)
  | object (fields : List (String × Json))
  deriving Repr, Inhabited

end PageLint
