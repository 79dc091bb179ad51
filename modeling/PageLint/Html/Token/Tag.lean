import PageLint.Html.Reference

/-!
# Reading tags

`readAttributes?` reads what follows the name of a tag up to and including its `>`. A tag that the
text ends within is no tag at all. What is read is taken off the front of the text, so the rest is
shorter (`length_readAttributes?_lt`).
-/

namespace PageLint.Html

open Text

/-- The blanks that separate attributes; of line ends only line feeds are left here. -/
def isTagBlank (c : Char) : Bool :=
  c == ' ' || c == '\t' || c == '\n' || c == '\x0c'

/-- A character of a name as it is kept: in lower case, with NUL replaced. -/
def nameChar (c : Char) : Char :=
  if c = '\x00' then Reference.replacement else c.toLower

def endsTagName (c : Char) : Bool :=
  isTagBlank c || c == '/' || c == '>'

/-- Whether a character ends the name of an attribute, at its start aside. -/
def endsAttributeName (c : Char) : Bool :=
  endsTagName c || c == '='

/-- Reads the value of an attribute after the equals sign: the value and what follows it. -/
def readValue (text : List Char) : List Char × List Char :=
  match text.dropWhile isTagBlank with
  | [] => ([], [])
  | c :: rest =>
    if c = '"' || c = '\'' then
      (Reference.decode (rest.takeWhile (· ≠ c)), (rest.dropWhile (· ≠ c)).drop 1)
    else if c = '>' then ([], c :: rest)
    else
      let ends c := isTagBlank c || c == '>'
      (Reference.decode ((c :: rest).takeWhile (!ends ·)), (c :: rest).dropWhile (!ends ·))

theorem length_dropWhile_le (p : Char → Bool) (text : List Char) :
    (text.dropWhile p).length ≤ text.length :=
  (List.dropWhile_suffix p).length_le

theorem length_readValue_le (text : List Char) : (readValue text).2.length ≤ text.length := by
  have skipped := length_dropWhile_le isTagBlank text
  unfold readValue
  split
  · simp
  · rename_i c rest eq
    rw [eq] at skipped
    have quoted := length_dropWhile_le (· ≠ c) rest
    simp only [List.length_cons] at skipped
    split
    · simp only [List.length_drop]; omega
    · split
      · exact skipped
      · exact Nat.le_trans (length_dropWhile_le _ _) skipped

/-- Reads what may follow the name of an attribute: its value, empty if there is none, and what
comes after. -/
def readAssignment (text : List Char) : List Char × List Char :=
  match text.dropWhile isTagBlank with
  | '=' :: rest => readValue rest
  | rest => ([], rest)

theorem length_readAssignment_le (text : List Char) :
    (readAssignment text).2.length ≤ text.length := by
  have skipped := length_dropWhile_le isTagBlank text
  unfold readAssignment
  split
  · rename_i rest eq
    have := length_readValue_le rest
    rw [eq, List.length_cons] at skipped
    omega
  · exact skipped

/-- The attributes of a tag, whether it ends in `/>`, and what follows it. -/
structure TagRest where
  attributes : List Attribute
  selfClosing : Bool
  rest : List Char

/-- Reads a tag after its name, or nothing if the text ends first. -/
def readAttributes? (text : List Char) : Option TagRest :=
  match _h : text.dropWhile isTagBlank with
  | [] => none
  | c :: rest =>
    if c = '>' then some ⟨[], false, rest⟩
    else if c = '/' then
      if rest.head? = some '>' then some ⟨[], true, rest.tail⟩ else readAttributes? rest
    else
      -- At the start of a name an equals sign is part of it.
      let name := (c :: rest.takeWhile (!endsAttributeName ·)).map nameChar
      let value := readAssignment (rest.dropWhile (!endsAttributeName ·))
      (readAttributes? value.2).map fun t =>
        let first := ⟨String.ofList name, String.ofList value.1, false⟩
        { t with attributes := first :: t.attributes }
termination_by text.length
decreasing_by
  all_goals
    have skipped := length_dropWhile_le isTagBlank text
    rw [_h, List.length_cons] at skipped
  · omega
  · have name := length_dropWhile_le (!endsAttributeName ·) rest
    have value := length_readAssignment_le (rest.dropWhile (!endsAttributeName ·))
    omega

theorem length_readAttributes?_lt {text : List Char} {t : TagRest}
    (h : readAttributes? text = some t) : t.rest.length < text.length := by
  have skipped := length_dropWhile_le isTagBlank text
  unfold readAttributes? at h
  split at h
  · cases h
  · rename_i c rest eq
    have shorter : rest.length < text.length := by
      rw [eq, List.length_cons] at skipped
      exact skipped
    split at h
    · cases h
      exact shorter
    · split at h
      · split at h
        · cases h
          rw [List.length_tail]
          omega
        · exact Nat.lt_trans (length_readAttributes?_lt h) shorter
      · obtain ⟨inner, found, rfl⟩ := Option.map_eq_some_iff.1 h
        have name := length_dropWhile_le (!endsAttributeName ·) rest
        have value := length_readAssignment_le (rest.dropWhile (!endsAttributeName ·))
        have inside := length_readAttributes?_lt found
        have within : inner.rest.length < text.length := by omega
        exact within
termination_by text.length
decreasing_by all_goals omega

/-- Attributes without those whose name has come before. -/
def dropRepeated : List Attribute → List Attribute
  | [] => []
  | a :: rest => a :: (dropRepeated rest).filter (·.name ≠ a.name)

end PageLint.Html
