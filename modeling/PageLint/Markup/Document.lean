import PageLint.Html.Parse
import PageLint.Log
import PageLint.Markup.Element
import PageLint.Markup.Locator

/-!
# Pages as trees

`parse` reads a page and looks up where in the source each element stands. An element that has no
tag in the source gives way to its contents. What is nested deeper than `maxNesting` levels is
attached flat at that level.
-/

namespace PageLint.Markup

inductive Node where
  | document (children : List Node)
  | element (e : Element) (children : List Node)
  | text (s : String)
  | comment (s : String)
  | doctype (s : String)
  deriving Repr, Inhabited

namespace Node

def kind : Node → String
  | document _ => "document"
  | element _ _ => "element"
  | text _ => "text"
  | comment _ => "comment"
  | doctype _ => "doctype"

def children : Node → List Node
  | document children => children
  | element _ children => children
  | _ => []

def element? : Node → Option Element
  | element e _ => some e
  | _ => none

mutual
def count : Node → Nat
  | document children => 1 + countAll children
  | element _ children => 1 + countAll children
  | text _ => 1
  | comment _ => 1
  | doctype _ => 1

def countAll : List Node → Nat
  | [] => 0
  | n :: ns => count n + countAll ns
end

theorem countAll_append (a b : List Node) : countAll (a ++ b) = countAll a + countAll b := by
  induction a with
  | nil => simp [countAll]
  | cons n ns ih => simp [countAll, ih, Nat.add_assoc]

theorem count_eq (n : Node) : n.count = 1 + countAll n.children := by
  cases n <;> simp [count, children, countAll]

/-- All nodes of several trees in document order. The list holds the trees still to visit; each
gives way to its children. -/
def walk (pending : List Node) : List Node :=
  match pending with
  | [] => []
  | n :: rest => n :: walk (n.children ++ rest)
termination_by countAll pending
decreasing_by
  simp only [countAll_append, countAll, count_eq]
  omega

/-- The elements of a tree in document order. -/
def elements (root : Node) : List Element :=
  (walk [root]).filterMap element?

end Node

/-- The number of levels that a tree may have. -/
def maxNesting : Nat := 256

/-- The attributes of an element as a set. Of two that differ only in a prefix the one with the
prefix counts. -/
def attributesOf (attributes : List Html.Attribute) : Attributes :=
  let inOrder := attributes.filter (!·.qualified) ++ attributes.filter (·.qualified)
  Attributes.ofList (inOrder.map fun a => (a.name, a.value))

def leaf? : Html.Tree → Option Node
  | .text s => some (.text s)
  | .comment s => some (.comment s)
  | .doctype s => some (.doctype s)
  | .element .. => none
  | .fragment _ => none

variable [PatternEngine]

/-- The nodes for parts of a page, without what they hold. -/
def flatNodes (l : Locator) : List Html.Tree → List Node
  | [] => []
  | .element name attributes _ :: rest =>
    match l.locate name.toList with
    | (some offset, l) =>
      .element ⟨name, attributesOf attributes, some offset⟩ [] :: flatNodes l rest
    | (none, l) => flatNodes l rest
  | t :: rest => (leaf? t).toList ++ flatNodes l rest

def Locator.afterFlat (l : Locator) : List Html.Tree → Locator
  | [] => l
  | .element name _ _ :: rest => afterFlat (l.locate name.toList).2 rest
  | _ :: rest => l.afterFlat rest

/-- The nodes for a part of a page, and the locator after it, where `inside` reads the contents of
an element. -/
def nodesOf (inside : Locator → List Html.Tree → List Node × Locator) (l : Locator) :
    Html.Tree → List Node × Locator
  | .element name attributes children =>
    match l.locate name.toList with
    | (some offset, l) =>
      let (nodes, l) := inside l children
      ([.element ⟨name, attributesOf attributes, some offset⟩ nodes], l)
    -- Without a tag in the source the element gives way to its contents.
    | (none, l) => inside l children
  | t => ((leaf? t).toList, l)

def nodesOfAll (inside : Locator → List Html.Tree → List Node × Locator) (l : Locator) :
    List Html.Tree → List Node × Locator
  | [] => ([], l)
  | t :: rest =>
    let (front, l) := nodesOf inside l t
    let (back, l) := nodesOfAll inside l rest
    (front ++ back, l)

/-- The nodes for the contents of an element or a page, and the locator after them. With no level
left all that they hold is attached flat, the contents of templates included. -/
def build (levels : Nat) (l : Locator) (ts : List Html.Tree) : List Node × Locator :=
  match levels with
  | 0 => (flatNodes l (Html.Tree.flattenAll ts), l.afterFlat (Html.Tree.flattenAll ts))
  | levels + 1 => nodesOfAll (build levels) l ts

def parse (text : List Char) : Node :=
  .document (build maxNesting (.ofText text) (Html.parse text)).1

/-- What reading a page tells about itself. -/
inductive Note where
  /-- an element without a tag has given way to its contents -/
  | spliced (name : String)
  | flattened
  deriving DecidableEq, Repr

def Note.entry : Note → LogEntry
  | spliced name => ⟨.trace, "splicing implied <" ++ name ++ "> element"⟩
  | flattened =>
    ⟨.debug, "markup nested deeper than " ++ toString maxNesting ++ " levels, flattening"⟩

/-- The notes on a part of a page, and the locator after it, where `inside` takes those on the
contents of an element. -/
def notesOf (inside : Locator → List Html.Tree → List Note × Locator) (l : Locator) :
    Html.Tree → List Note × Locator
  | .element name _ children =>
    match l.locate name.toList with
    | (some _, l) => inside l children
    | (none, l) =>
      let (notes, l) := inside l children
      (.spliced name :: notes, l)
  | _ => ([], l)

def notesOfAll (inside : Locator → List Html.Tree → List Note × Locator) (l : Locator) :
    List Html.Tree → List Note × Locator
  | [] => ([], l)
  | t :: rest =>
    let (front, l) := notesOf inside l t
    let (back, l) := notesOfAll inside l rest
    (front ++ back, l)

def notes (levels : Nat) (l : Locator) (ts : List Html.Tree) : List Note × Locator :=
  match levels with
  | 0 => ([.flattened], l.afterFlat (Html.Tree.flattenAll ts))
  | levels + 1 => notesOfAll (notes levels) l ts

def parseNotes (text : List Char) : List Note :=
  (notes maxNesting (.ofText text) (Html.parse text)).1

end PageLint.Markup
