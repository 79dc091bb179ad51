import PageLint.Text.Letters

/-!
# Elements

An element has a name, attributes and, if it is known, the offset of its tag. Attributes are kept in
the order of their names, so two sets of attributes with the same values are equal.
-/

namespace PageLint.Markup

open Text

/-- Attributes, in the order of their names. -/
structure Attributes where
  entries : List (String × String) := []
  deriving DecidableEq, Repr

namespace Attributes

/-- Entries with one more, or with another value for its name. -/
def insertEntry (key value : String) : List (String × String) → List (String × String)
  | [] => [(key, value)]
  | (k, v) :: rest =>
    if key = k then (key, value) :: rest
    else if key < k then (key, value) :: (k, v) :: rest
    else (k, v) :: insertEntry key value rest

def insert (a : Attributes) (key value : String) : Attributes :=
  ⟨insertEntry key value a.entries⟩

/-- The value of an attribute. -/
def get? (a : Attributes) (key : String) : Option String :=
  a.entries.lookup key

def ofList (entries : List (String × String)) : Attributes :=
  entries.foldl (fun a (key, value) => a.insert key value) {}

end Attributes

structure Element where
  name : String
  attributes : Attributes := {}
  /-- the offset of `<name` in the source -/
  offset : Option Nat := none
  deriving DecidableEq, Repr

namespace Element

/-- Whether an element has a name, the case of ASCII letters aside. -/
def hasName (e : Element) (name : String) : Bool :=
  agree e.name.toList name.toList

/-- The value of an attribute. A page is read with all attribute names in lower case, so a name
with capitals is looked up in lower case too. -/
def get? (e : Element) (key : String) : Option String :=
  (e.attributes.get? key).or (e.attributes.get? (String.ofList (lower key.toList)))

/-- Whether an element has an attribute, in the case given or in lower case. -/
def has (e : Element) (key : String) : Bool :=
  (e.get? key).isSome

end Element

end PageLint.Markup
