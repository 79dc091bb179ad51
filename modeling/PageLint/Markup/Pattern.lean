import PageLint.Text.Letters

/-!
# Patterns

What is looked for in a source is made into a pattern first. Patterns may take only so much memory,
so for a very long name there is none, and then nothing is found. Which patterns can be made is up
to an engine; the program runs with one that counts their bytes.
-/

namespace PageLint.Markup

open Text

/-- A `<` with a name after it, in any case. -/
inductive Pattern where
  /-- the name of a start tag, up to its end -/
  | tag (name : List Char)
  /-- a name, whatever follows it -/
  | start (name : List Char)
  deriving DecidableEq, Repr

class PatternEngine where
  compiles : Pattern → Bool
  /-- names that differ at most in case have one pattern -/
  compiles_tag_congr {a b : List Char} : lower a = lower b →
    compiles (.tag a) = compiles (.tag b)

namespace PatternEngine

/-- The bytes that a pattern takes for a character of a name in lower case. A letter is looked for
in both cases; `k` and `s` have a third form that is not ASCII. -/
def bytesFor (c : Char) : Nat :=
  if c = 'k' then 236
  else if c = 's' then 204
  else if isLetter c then 80
  else 32 * c.utf8Size

def maxBytes : Nat := 10 * 1024 * 1024

def fits (name : List Char) : Bool :=
  (lower name).foldl (fun bytes c => bytes + bytesFor c) 0 ≤ maxBytes

instance : PatternEngine where
  compiles
    | .tag name => fits name
    | .start name => fits name
  compiles_tag_congr same := by simp only [fits, same]

end PatternEngine

end PageLint.Markup
