import PageLint.Html.Builder.Adoption

/-!
# The start of a page and its head
-/

namespace PageLint.Html.Builder

/-- How the text of an element is read, if its content is text. -/
def textContent? (name : String) : Option Content :=
  if name == "title" || name == "textarea" then some (.references name)
  else if ["noframes", "style", "noscript", "xmp", "iframe", "noembed"].contains name then
    some (.raw name)
  else if name == "script" then some (.script .outside 0)
  else none

def insertTextElement (b : Builder) (tag : Tag) : Builder :=
  match textContent? tag.name with
  | some content => b.insertText tag content
  | none => b.insertHtml tag

def createRoot (b : Builder) (attributes : List Attribute) : Builder :=
  let name : ElementName := ⟨.html, "html"⟩
  let n := b.dom.nextId
  { b with
    dom := (create b.dom name attributes).append Dom.document n
    stack := [⟨n, name⟩] }

/-- Gives the page the attributes of a later `html` tag. -/
def mergeRoot (b : Builder) (tag : Tag) : Builder :=
  match b.stack.getLast? with
  | some root =>
    if b.hasOpen "template" then b
    else { b with dom := b.dom.addAttributes root.id tag.attributes }
  | none => b

def openTemplate (b : Builder) (tag : Tag) : Builder :=
  let b := ((b.insertHtml tag).markFormatting).noFrames
  { b with mode := .inTemplate, templates := .inTemplate :: b.templates }

def leaveTemplate (b : Builder) : Builder :=
  let b := b.endFormatting
  let b := { b with templates := b.templates.drop 1 }
  b.enter b.properMode

def closeTemplate (b : Builder) : Builder :=
  if b.hasOpen "template" then
    let ends (o : Open) := o.name.isAnyOf Names.impliedInTemplate
    (({ b with stack := b.stack.dropWhile ends }).popThroughHtml "template").leaveTemplate
  else b

def insertMetadata (b : Builder) (tag : Tag) : Builder :=
  if Names.emptyMetadata.contains tag.name then b.insertEmpty tag
  else if tag.name == "template" then b.openTemplate tag
  else b.insertTextElement tag

/-- End tags that stand for the end of the head and the body as well. -/
def endsEarly (name : String) : Bool :=
  ["body", "html", "br"].contains name

/-- Whether the page is read leniently for its document type. -/
def isLenient (d : Doctype) : Bool :=
  let lower (s : Option String) := s.map (·.map Char.toLower)
  let startsOneOf (starts : List String) (s : String) := starts.any (·.isPrefixOf s)
  d.broken || d.name ≠ some "html" ||
    (lower d.publicId).any (fun p => Names.lenientPublicIds.contains p) ||
    (lower d.systemId).any (fun s => Names.lenientSystemIds.contains s) ||
    (lower d.publicId).any (startsOneOf Names.lenientPublicStarts) ||
    ((lower d.publicId).any (startsOneOf Names.lenientPublicStartsAlone) && d.systemId.isNone)

/-- Reads a document type, which counts only at the very start. -/
def readDoctype (b : Builder) (d : Doctype) : Builder :=
  if b.mode = .initial then
    let dom := (b.dom.add (.doctype (d.name.getD ""))).append Dom.document b.dom.nextId
    { b with dom, lenient := isLenient d, mode := .beforeHtml }
  else b

/-- Before anything but blanks and comments. -/
def atStart (b : Builder) (t : Token) : Outcome :=
  match t with
  | .comment text => .done (b.commentIn Dom.document text)
  | .char c =>
    if isBlank c then .done b else ({ b with lenient := true }).retry .beforeHtml t
  | _ => ({ b with lenient := true }).retry .beforeHtml t

def beforeHtml (b : Builder) (t : Token) : Outcome :=
  let otherwise := (b.createRoot []).retry .beforeHead t
  match t with
  | .comment text => .done (b.commentIn Dom.document text)
  | .char c => if isBlank c then .done b else otherwise
  | .startTag tag =>
    if tag.name == "html" then .done ((b.createRoot tag.attributes).enter .beforeHead)
    else otherwise
  | .endTag name => if endsEarly name || name == "head" then otherwise else .done b
  | _ => otherwise

def openHead (b : Builder) (tag : Tag) : Builder :=
  { b.insertHtml tag with head := some b.dom.nextId, mode := .inHead }

def beforeHead (b : Builder) (t : Token) : Outcome :=
  let otherwise := .again (b.openHead { name := "head" }) t
  match t with
  | .comment text => .done (b.insertComment text)
  | .char c => if isBlank c then .done b else otherwise
  | .startTag tag =>
    if tag.name == "html" then .done (b.mergeRoot tag)
    else if tag.name == "head" then .done (b.openHead tag)
    else otherwise
  | .endTag name => if endsEarly name || name == "head" then otherwise else .done b
  | _ => otherwise

def inHead (b : Builder) (t : Token) : Outcome :=
  let otherwise := b.pop.retry .afterHead t
  match t with
  | .comment text => .done (b.insertComment text)
  | .char c => if isBlank c then .done (b.insertChar c) else otherwise
  | .startTag tag =>
    if tag.name == "html" then .done (b.mergeRoot tag)
    else if Names.metadata.contains tag.name || tag.name == "noscript" then
      .done (b.insertMetadata tag)
    else if tag.name == "head" then .done b
    else otherwise
  | .endTag name =>
    if name == "head" then .done (b.pop.enter .afterHead)
    else if name == "template" then .done b.closeTemplate
    else if endsEarly name then otherwise
    else .done b
  | _ => otherwise

def insertIntoHead (b : Builder) (tag : Tag) : Builder :=
  match b.head with
  | some head =>
    let inside := { b with stack := ⟨head, ⟨.html, "head"⟩⟩ :: b.stack }
    (inside.insertMetadata tag).removeOpen head
  | none => b

def afterHead (b : Builder) (t : Token) : Outcome :=
  let otherwise := (b.insertImplied "body").retry .inBody t
  match t with
  | .comment text => .done (b.insertComment text)
  | .char c => if isBlank c then .done (b.insertChar c) else otherwise
  | .startTag tag =>
    if tag.name == "html" then .done (b.mergeRoot tag)
    else if tag.name == "body" then .done ((b.insertHtml tag).noFrames.enter .inBody)
    else if tag.name == "frameset" then .done ((b.insertHtml tag).enter .inFrameset)
    else if Names.metadata.contains tag.name then .done (b.insertIntoHead tag)
    else if tag.name == "head" then .done b
    else otherwise
  | .endTag name =>
    if name == "template" then .done b.closeTemplate
    else if endsEarly name then otherwise
    else .done b
  | _ => otherwise

end PageLint.Html.Builder
