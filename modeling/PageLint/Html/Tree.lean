import PageLint.Html.Token

/-!
# The tree of a page

What a page is read into. The contents of a template stand in a fragment of their own, which is the
only child of the template.
-/

namespace PageLint.Html

inductive Tree where
  | element (name : String) (attributes : List Attribute) (children : List Tree)
  | fragment (children : List Tree)
  | text (text : String)
  | comment (text : String)
  | doctype (name : String)
  deriving Repr, Inhabited

namespace Tree

def children : Tree → List Tree
  | element _ _ children => children
  | fragment children => children
  | _ => []

mutual
/-- A part and all parts below it, in the order of the page. -/
def flatten : Tree → List Tree
  | element name attributes children =>
    element name attributes children :: flattenAll children
  | fragment children => fragment children :: flattenAll children
  | text s => [text s]
  | comment s => [comment s]
  | doctype s => [doctype s]

def flattenAll : List Tree → List Tree
  | [] => []
  | t :: ts => flatten t ++ flattenAll ts
end

end Tree

end PageLint.Html
