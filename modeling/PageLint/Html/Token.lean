/-!
# Tokens of a page

What the text of a page is read as, one piece after another, before the pieces form a tree.
-/

namespace PageLint.Html

/-- An attribute. `qualified` says that the name was written with a prefix, which is left out. -/
structure Attribute where
  name : String
  value : String
  qualified : Bool := false
  deriving DecidableEq, Repr

/-- A start tag. No two attributes have one name. -/
structure Tag where
  name : String
  attributes : List Attribute := []
  /-- whether the tag ends in `/>` -/
  selfClosing : Bool := false
  deriving DecidableEq, Repr

/-- Whether two tags have the same name and, in any order, the same attributes. -/
def Tag.sameAs (a b : Tag) : Bool :=
  a.name == b.name && a.attributes.length == b.attributes.length &&
    a.attributes.all b.attributes.contains

def Tag.value? (t : Tag) (name : String) : Option String :=
  (t.attributes.find? (·.name == name)).map (·.value)

structure Doctype where
  name : Option String := none
  publicId : Option String := none
  systemId : Option String := none
  /-- whether the declaration is broken -/
  broken : Bool := false
  deriving DecidableEq, Repr

inductive Token where
  | char (c : Char)
  | startTag (tag : Tag)
  | endTag (name : String)
  | comment (text : String)
  | doctype (d : Doctype)
  /-- text that stands for nothing, or a mistake before the next piece -/
  | fault
  /-- the end of the page -/
  | finish
  deriving DecidableEq, Repr

/-- Whether a character counts as blank in the text of a page. -/
def isBlank (c : Char) : Bool :=
  c == ' ' || c == '\t' || c == '\n' || c == '\x0c' || c == '\r'

end PageLint.Html
