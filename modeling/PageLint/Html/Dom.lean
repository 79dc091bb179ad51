import PageLint.Html.Name
import PageLint.Html.Token

/-!
# Nodes while a page is read

While its page is read a node may still move, so nodes are kept in a list by number. Each knows its
parent and its children.
-/

namespace PageLint.Html

abbrev NodeId := Nat

inductive NodeData where
  | document
  /-- the contents of a template -/
  | fragment
  | element (name : ElementName) (attributes : List Attribute)
  /-- a text, its last character first -/
  | text (reversed : List Char)
  | comment (text : String)
  | doctype (name : String)
  deriving Repr

structure NodeEntry where
  data : NodeData
  parent : Option NodeId := none
  children : Array NodeId := #[]
  deriving Repr

/-- The nodes of a page, the document first. -/
structure Dom where
  entries : Array NodeEntry := #[{ data := .document }]
  deriving Repr

namespace Dom

def document : NodeId := 0

def get? (dom : Dom) (n : NodeId) : Option NodeEntry :=
  dom.entries[n]?

/-- The number of the node that is added next. -/
def nextId (dom : Dom) : NodeId :=
  dom.entries.size

/-- Adds a node that has no place yet. Its number is `nextId`. -/
def add (dom : Dom) (data : NodeData) : Dom :=
  { dom with entries := dom.entries.push { data } }

def change (dom : Dom) (n : NodeId) (f : NodeEntry → NodeEntry) : Dom :=
  { dom with entries := dom.entries.modify n f }

def parent? (dom : Dom) (n : NodeId) : Option NodeId :=
  (dom.get? n).bind (·.parent)

def children (dom : Dom) (n : NodeId) : Array NodeId :=
  ((dom.get? n).map (·.children)).getD #[]

def detach (dom : Dom) (n : NodeId) : Dom :=
  match dom.parent? n with
  | none => dom
  | some p =>
    (dom.change p fun e => { e with children := e.children.filter (· ≠ n) }).change n
      fun e => { e with parent := none }

def append (dom : Dom) (p n : NodeId) : Dom :=
  ((dom.detach n).change p fun e => { e with children := e.children.push n }).change n
    fun e => { e with parent := some p }

def insertBefore (dom : Dom) (sibling n : NodeId) : Dom :=
  let dom := dom.detach n
  match dom.parent? sibling with
  | none => dom
  | some p =>
    let place (children : Array NodeId) :=
      let front := children.takeWhile (· ≠ sibling)
      front ++ #[n] ++ children.extract front.size children.size
    (dom.change p fun e => { e with children := place e.children }).change n
      fun e => { e with parent := some p }

def previous? (dom : Dom) (n : NodeId) : Option NodeId :=
  match dom.parent? n with
  | none => none
  | some p => ((dom.children p).takeWhile (· ≠ n)).back?

def extend? (dom : Dom) (n : NodeId) (c : Char) : Option Dom :=
  match dom.get? n with
  | some ⟨.text reversed, _, _⟩ =>
    some (dom.change n fun e => { e with data := .text (c :: reversed) })
  | _ => none

/-- Adds a character at the end of a node. It joins a text that ends there. -/
def appendChar (dom : Dom) (p : NodeId) (c : Char) : Dom :=
  (((dom.children p).back?).bind (dom.extend? · c)).getD
    ((dom.add (.text [c])).append p dom.nextId)

/-- Adds a character in front of a node that has a parent. It joins a text that ends there. -/
def insertCharBefore (dom : Dom) (sibling : NodeId) (c : Char) : Dom :=
  ((dom.previous? sibling).bind (dom.extend? · c)).getD
    ((dom.add (.text [c])).insertBefore sibling dom.nextId)

def moveChildren (dom : Dom) (source target : NodeId) : Dom :=
  (dom.children source).foldl (fun dom n => dom.append target n) dom

/-- Gives an element the attributes that it does not have yet. -/
def addAttributes (dom : Dom) (n : NodeId) (attributes : List Attribute) : Dom :=
  dom.change n fun e =>
    match e.data with
    | .element name old =>
      let new := attributes.filter fun a => !old.any (·.name == a.name)
      { e with data := .element name (old ++ new) }
    | _ => e

end Dom

end PageLint.Html
