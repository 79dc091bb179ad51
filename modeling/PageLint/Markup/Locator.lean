import PageLint.Markup.Pattern
import PageLint.Markup.Span
import PageLint.Text.Folding
import PageLint.Text.Search

/-!
# Locating tags

The elements of a page come in the order of their tags, so a cursor that only moves forward finds
for each element a tag of its own. Where no tag of that name is left, the first one of the page
stands in. A name is looked for in any case, so its pattern is made once, from the spelling that
comes first. Where no pattern can be made, no tag is found.
-/

namespace PageLint.Markup

open Text
open PatternEngine (compiles)

/-- Whether a text may follow the name of a start tag. -/
def endsName : List Char → Bool
  | [] => true
  | c :: _ => Text.isBlank c || c == '/' || c == '>'

/-- Whether a text starts with a start tag of this name, in any case. -/
def opensTag (name : List Char) : List Char → Bool
  | '<' :: rest => (afterPrefixFolded? name rest).any endsName
  | _ => false

/-- A visible `<` of a source: its offset, and the source from there on. -/
structure Opening where
  offset : Nat
  text : List Char
  deriving Repr

/-- The visible places with a `<`, where the text starts at `start`. -/
def openingsFrom (spans : Array Span) (start : Nat) : List Char → List Opening
  | [] => []
  | c :: rest =>
    let later := openingsFrom spans (start + c.utf8Size) rest
    if c = '<' && !isHidden spans start then ⟨start, c :: rest⟩ :: later else later

def openings (text : List Char) : List Opening :=
  openingsFrom (hiddenSpans text).toArray 0 text

variable [PatternEngine]

/-- The pattern for the tags of a name, if it can be made. A pattern is told by the spelling that it
is made from. -/
def compile? (name : List Char) : Option (List Char) :=
  if compiles (.tag name) then some name else none

/-- The patterns of the names that were looked for, by the name in lower case. Each is made from the
first spelling in which its name was looked for. -/
structure Patterns where
  entries : List (List Char × Option (List Char)) := []
  /-- every pattern was made from a spelling of its name -/
  keyed : ∀ e ∈ entries, ∃ name, lower name = e.1 ∧ compile? name = e.2 := by simp
  deriving Repr

namespace Patterns

/-- The pattern of a name, if there is one, and the patterns with the answer for that name. -/
def find (ps : Patterns) (name : List Char) : Option (List Char) × Patterns :=
  match ps.entries.lookup (lower name) with
  | some pattern => (pattern, ps)
  | none =>
    (compile? name,
      { entries := (lower name, compile? name) :: ps.entries
        keyed := List.forall_mem_cons.mpr ⟨⟨name, rfl, rfl⟩, ps.keyed⟩ })

end Patterns

/-- What is needed to locate tags: the visible places with a `<`, the byte to search from, and the
patterns made so far. -/
structure Locator where
  openings : List Opening
  cursor : Nat := 0
  patterns : Patterns := {}
  deriving Repr

namespace Locator

def ofText (text : List Char) : Locator :=
  { openings := Markup.openings text }

/-- The offset of the first tag of a name at or after a byte. -/
def firstFrom (l : Locator) (name : List Char) (n : Nat) : Option Nat :=
  (l.openings.find? fun o => n ≤ o.offset && opensTag name o.text).map (·.offset)

/-- The offset of the next tag of a name, after which the search goes on. -/
def locate (l : Locator) (name : List Char) : Option Nat × Locator :=
  match l.patterns.find name with
  | (none, patterns) => (none, { l with patterns })
  | (some spelling, patterns) =>
    match l.firstFrom spelling l.cursor with
    | some offset => (some offset, { l with cursor := offset + 1, patterns })
    -- The search starts over, but the cursor stays: the tags of later elements are still ahead.
    | none => (l.firstFrom spelling 0, { l with patterns })

end Locator

/-- The offset of the first `<` before a name, whatever follows it. -/
def findTag (name text : List Char) : Option Nat :=
  if compiles (.start name) then
    (places (fun
      | '<' :: rest => (afterPrefixFolded? name rest).isSome
      | _ => false) text).head?
  else none

end PageLint.Markup
