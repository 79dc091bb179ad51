import PageLint.Html.Dom
import PageLint.Html.Token.Content

/-!
# The state of tree building

Tokens form a tree by rules that depend on what came before: the open elements, the formatting that
goes on in the next block, and the part of the page that has been reached.
-/

namespace PageLint.Html

/-- The part of the page that tokens are read for. -/
inductive Mode where
  | initial
  | beforeHtml
  | beforeHead
  | inHead
  | afterHead
  | inBody
  | text
  | inTable
  | inTableText
  | inCaption
  | inColumnGroup
  | inTableBody
  | inRow
  | inCell
  | inSelect
  | inSelectInTable
  | inTemplate
  | afterBody
  | inFrameset
  | afterFrameset
  | afterAfterBody
  | afterAfterFrameset
  deriving DecidableEq, Repr

structure Open where
  id : NodeId
  name : ElementName
  deriving DecidableEq, Repr

/-- Formatting that goes on: an element with its tag, or a mark that shuts off what is outside. -/
inductive Formatting where
  | mark
  | element (id : NodeId) (tag : Tag)
  deriving DecidableEq, Repr

/-- What is known while a page is read. -/
structure Builder where
  dom : Dom := {}
  /-- the open elements, innermost first -/
  stack : List Open := []
  /-- the formatting that goes on, last first -/
  formatting : List Formatting := []
  mode : Mode := .initial
  /-- the mode to return to after a text -/
  resume : Mode := .initial
  /-- the modes of the open templates, innermost first -/
  templates : List Mode := []
  head : Option NodeId := none
  form : Option NodeId := none
  /-- whether a frameset may still take the place of the body -/
  framesAllowed : Bool := true
  /-- whether content moves in front of a table instead of into it -/
  fostering : Bool := false
  /-- whether a line feed is dropped if it comes next -/
  dropsNewline : Bool := false
  /-- whether the page is read as one without a proper document type -/
  lenient : Bool := false
  /-- the text in a table that has not found its place, last character first -/
  tableText : List Char := []
  /-- how the text that follows is read -/
  content : Content := .markup
  deriving Repr

/-- What becomes of a token: it is used up, or read again in another mode. -/
inductive Outcome where
  | done (b : Builder)
  | again (b : Builder) (t : Token)
  deriving Repr

namespace Builder

/-! ### Open elements -/

def currentIs (b : Builder) (name : String) : Bool :=
  b.stack.head?.any (·.name.isHtml name)

def hasOpen (b : Builder) (name : String) : Bool :=
  b.stack.any (·.name.isHtml name)

/-- Whether a wanted element is found among open ones before one that stops the search. -/
def finds (stops : ElementName → Bool) (wanted : Open → Bool) : List Open → Bool
  | [] => false
  | o :: outer => wanted o || (!stops o.name && finds stops wanted outer)

/-- Whether a name stops the search for an element in scope. -/
def stopsScope (n : ElementName) : Bool :=
  n.isAnyOf Names.scope || n.isMathText || n.isSvgHtml

def inScope (b : Builder) (name : String) : Bool :=
  finds stopsScope (·.name.isHtml name) b.stack

/-- Whether a paragraph is open in scope, buttons set apart. -/
def paragraphInScope (b : Builder) : Bool :=
  finds (fun n => stopsScope n || n.isHtml "button") (·.name.isHtml "p") b.stack

/-- Whether a list item is open in scope, lists set apart. -/
def itemInScope (b : Builder) : Bool :=
  finds (fun n => stopsScope n || n.isAnyOf ["ol", "ul"]) (·.name.isHtml "li") b.stack

/-- Whether a part of the innermost table is open. -/
def inTableScope (b : Builder) (names : List String) : Bool :=
  finds (·.isAnyOf Names.tableScope) (·.name.isAnyOf names) b.stack

/-- Whether a `select` is open around options only. -/
def selectInScope (b : Builder) : Bool :=
  finds (!·.isAnyOf ["optgroup", "option"]) (·.name.isHtml "select") b.stack

def pop (b : Builder) : Builder :=
  { b with stack := b.stack.drop 1 }

/-- Closes open elements up to and including the first that fits. -/
def popThrough (b : Builder) (wanted : ElementName → Bool) : Builder :=
  { b with stack := (b.stack.dropWhile (!wanted ·.name)).drop 1 }

def popThroughHtml (b : Builder) (name : String) : Builder :=
  b.popThrough (·.isHtml name)

def popTo (b : Builder) (names : List String) : Builder :=
  { b with stack := b.stack.dropWhile (!·.name.isAnyOf names) }

/-- Closes the elements, one of these aside, whose end tag may be left out. -/
def popImplied (b : Builder) (kept : List String) : Builder :=
  let ends (o : Open) := o.name.isAnyOf Names.implied && !kept.contains o.name.name
  { b with stack := b.stack.dropWhile ends }

/-- Closes an element and, before it, those whose end tag may be left out. -/
def close (b : Builder) (name : String) : Builder :=
  (b.popImplied [name]).popThroughHtml name

def closeParagraph (b : Builder) : Builder :=
  if b.paragraphInScope then b.close "p" else b

def removeOpen (b : Builder) (n : NodeId) : Builder :=
  { b with stack := b.stack.filter (·.id ≠ n) }

/-! ### Insertion -/

inductive Place where
  | lastIn (parent : NodeId)
  /-- in front of a table, or last in `outer` if the table has no parent -/
  | before (table outer : NodeId)

/-- The node that takes the children of an element: its own, or a template's contents. -/
def container (b : Builder) (o : Open) : NodeId :=
  if o.name.isHtml "template" then (b.dom.children o.id)[0]?.getD o.id else o.id

/-- The place for content that may not stand in a table. -/
def fosterPlace (b : Builder) : List Open → Place
  | [] => .lastIn Dom.document
  | [o] => .lastIn (b.container o)
  | o :: outer :: rest =>
    if o.name.isHtml "template" then .lastIn (b.container o)
    else if o.name.isHtml "table" then .before o.id outer.id
    else fosterPlace b (outer :: rest)

def placeIn (b : Builder) (target : Open) : Place :=
  if b.fostering && target.name.isAnyOf Names.fostering then b.fosterPlace b.stack
  else .lastIn (b.container target)

def place (b : Builder) : Place :=
  match b.stack with
  | [] => .lastIn Dom.document
  | o :: _ => b.placeIn o

def put (dom : Dom) (n : NodeId) : Place → Dom
  | .lastIn parent => dom.append parent n
  | .before table outer =>
    if (dom.parent? table).isSome then dom.insertBefore table n else dom.append outer n

def putChar (dom : Dom) (c : Char) : Place → Dom
  | .lastIn parent => dom.appendChar parent c
  | .before table outer =>
    if (dom.parent? table).isSome then dom.insertCharBefore table c else dom.appendChar outer c

/-- Adds an element that has no place yet, and the contents of a template. Its number is the
`nextId` of before. -/
def create (dom : Dom) (name : ElementName) (attributes : List Attribute) : Dom :=
  let n := dom.nextId
  let dom := dom.add (.element name attributes)
  if name.isHtml "template" then (dom.add .fragment).append n (n + 1) else dom

def insert (b : Builder) (space : Space) (tag : Tag) : Builder :=
  let name : ElementName := ⟨space, tag.name⟩
  let n := b.dom.nextId
  { b with
    dom := put (create b.dom name tag.attributes) n b.place
    stack := ⟨n, name⟩ :: b.stack }

def insertHtml (b : Builder) (tag : Tag) : Builder :=
  b.insert .html tag

/-- Inserts an HTML element that has no tag of its own. -/
def insertImplied (b : Builder) (name : String) : Builder :=
  b.insertHtml { name }

def insertEmpty (b : Builder) (tag : Tag) : Builder :=
  (b.insertHtml tag).pop

def insertChar (b : Builder) (c : Char) : Builder :=
  { b with dom := putChar b.dom c b.place }

def commentIn (b : Builder) (parent : NodeId) (text : String) : Builder :=
  { b with dom := (b.dom.add (.comment text)).append parent b.dom.nextId }

def insertComment (b : Builder) (text : String) : Builder :=
  { b with dom := put (b.dom.add (.comment text)) b.dom.nextId b.place }

def insertText (b : Builder) (tag : Tag) (content : Content) : Builder :=
  { b.insertHtml tag with content, resume := b.mode, mode := .text }

/-- Rules out a frameset. -/
def noFrames (b : Builder) : Builder :=
  { b with framesAllowed := false }

def noFramesAfter (b : Builder) (c : Char) : Builder :=
  if isBlank c then b else b.noFrames

def enter (b : Builder) (mode : Mode) : Builder :=
  { b with mode }

def retry (b : Builder) (mode : Mode) (t : Token) : Outcome :=
  .again (b.enter mode) t

/-! ### Modes of open elements -/

/-- The mode for the inside of a `select`, given the open elements around it. -/
def selectMode : List Open → Mode
  | [] => .inSelect
  | o :: outer =>
    if o.name.isHtml "template" then .inSelect
    else if o.name.isHtml "table" then .inSelectInTable
    else selectMode outer

def modeOf (b : Builder) : List Open → Mode
  | [] => .inBody
  | o :: outer =>
    if o.name.space ≠ .html then modeOf b outer
    else
      match o.name.name with
      | "select" => selectMode outer
      | "td" | "th" => if outer.isEmpty then .inBody else .inCell
      | "tr" => .inRow
      | "tbody" | "thead" | "tfoot" => .inTableBody
      | "caption" => .inCaption
      | "colgroup" => .inColumnGroup
      | "table" => .inTable
      | "template" => b.templates.headD .inBody
      | "head" => if outer.isEmpty then .inBody else .inHead
      | "body" => .inBody
      | "frameset" => .inFrameset
      | "html" => if b.head.isNone then .beforeHead else .afterHead
      | _ => modeOf b outer

def properMode (b : Builder) : Mode :=
  b.modeOf b.stack

/-! ### Formatting -/

/-- Marks the start of contents that no formatting reaches into. -/
def markFormatting (b : Builder) : Builder :=
  { b with formatting := .mark :: b.formatting }

/-- Ends the formatting since the last mark, and the mark. -/
def endFormatting (b : Builder) : Builder :=
  { b with formatting := (b.formatting.dropWhile (· ≠ .mark)).drop 1 }

def recentFormatting (b : Builder) : List Formatting :=
  b.formatting.takeWhile (· ≠ .mark)

def isEntry (n : NodeId) : Formatting → Bool
  | .mark => false
  | .element id _ => id == n

def removeFormatting (b : Builder) (n : NodeId) : Builder :=
  { b with formatting := b.formatting.filter (!isEntry n ·) }

/-- Whether an entry is a mark or an element that is still open. -/
def isSettled (b : Builder) : Formatting → Bool
  | .mark => true
  | .element id _ => b.stack.any (·.id == id)

/-- Opens again, outermost first, the formatting elements that were closed with a block. `entries`
holds them, and `kept` those that go on below, last first. -/
def reopen (b : Builder) (kept : List Formatting) : List Formatting → Builder
  | [] => { b with formatting := kept }
  | .mark :: entries => reopen b (.mark :: kept) entries
  | .element _ tag :: entries =>
    let n := b.dom.nextId
    reopen (b.insertHtml tag) (.element n tag :: kept) entries

def reopenFormatting (b : Builder) : Builder :=
  let closed := b.formatting.takeWhile (!b.isSettled ·)
  b.reopen (b.formatting.drop closed.length) closed.reverse

/-- Drops the earliest of three recent entries with the same tag, so that no more than three stand
side by side. -/
def limitFormatting (b : Builder) (tag : Tag) : Builder :=
  let same : Formatting → Bool
    | .element _ old => old.sameAs tag
    | .mark => false
  match (b.recentFormatting.filter same).reverse with
  | earliest :: _ :: _ :: _ => { b with formatting := b.formatting.filter (· ≠ earliest) }
  | _ => b

def insertFormatting (b : Builder) (tag : Tag) : Builder :=
  let b := b.limitFormatting tag
  let n := b.dom.nextId
  let b := b.insertHtml tag
  { b with formatting := .element n tag :: b.formatting }

end Builder

end PageLint.Html
