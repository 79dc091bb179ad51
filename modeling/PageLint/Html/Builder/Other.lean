import PageLint.Html.Builder.Table

/-!
# Options, templates, framesets and the end of a page
-/

namespace PageLint.Html.Builder

/-- Closes a `select` that is open and goes on as its surroundings call for. -/
def leaveSelect (b : Builder) : Builder :=
  let b := b.popThroughHtml "select"
  b.enter b.properMode

def popIf (b : Builder) (name : String) : Builder :=
  if b.currentIs name then b.pop else b

def inSelect (b : Builder) (t : Token) : Outcome :=
  match t with
  | .char c => .done (if c = '\x00' then b else b.insertChar c)
  | .comment text => .done (b.insertComment text)
  | .startTag tag =>
    let name := tag.name
    if name == "html" then .done (b.mergeRoot tag)
    else if name == "option" then .done ((b.popIf "option").insertHtml tag)
    else if name == "optgroup" then .done (((b.popIf "option").popIf "optgroup").insertHtml tag)
    else if name == "hr" then .done (((b.popIf "option").popIf "optgroup").insertEmpty tag)
    else if name == "select" then .done (if b.selectInScope then b.leaveSelect else b)
    else if ["input", "keygen", "textarea"].contains name then
      if b.selectInScope then .again b.leaveSelect t else .done b
    else if name == "script" || name == "template" then .done (b.insertMetadata tag)
    else .done b
  | .endTag name =>
    if name == "optgroup" then
      let inGroup := (b.stack.drop 1).head?.any (·.name.isHtml "optgroup")
      .done ((if inGroup then b.popIf "option" else b).popIf "optgroup")
    else if name == "option" then .done (b.popIf "option")
    else if name == "select" then .done (if b.selectInScope then b.leaveSelect else b)
    else if name == "template" then .done b.closeTemplate
    else .done b
  | _ => b.inBody t

def isTablePart (name : String) : Bool :=
  ["caption", "table", "tbody", "tfoot", "thead", "tr", "td", "th"].contains name

def inSelectInTable (b : Builder) (t : Token) : Outcome :=
  match t with
  | .startTag tag => if isTablePart tag.name then .again b.leaveSelect t else b.inSelect t
  | .endTag name =>
    if isTablePart name then
      if b.inTableScope [name] then .again b.leaveSelect t else .done b
    else b.inSelect t
  | _ => b.inSelect t

/-- The mode in which a start tag in a template is read. -/
def templateMode (name : String) : Mode :=
  if name == "caption" || name == "colgroup" || Names.rowGroups.contains name then .inTable
  else if name == "col" then .inColumnGroup
  else if name == "tr" then .inTableBody
  else if Names.cells.contains name then .inRow
  else .inBody

/-- In a template whose kind of contents is not known yet. -/
def inTemplate (b : Builder) (t : Token) : Outcome :=
  match t with
  | .char c => if c = '\x00' then .done b else b.inBody t
  | .comment _ => b.inBody t
  | .startTag tag =>
    if Names.metadata.contains tag.name then .done (b.insertMetadata tag)
    else
      -- From its first tag on the kind of contents is known.
      let mode := templateMode tag.name
      { b with templates := mode :: b.templates.drop 1 }.retry mode t
  | .endTag name => .done (if name == "template" then b.closeTemplate else b)
  | .finish => b.finishTemplate t
  | _ => .done b

def afterBody (b : Builder) (t : Token) : Outcome :=
  let otherwise := b.retry .inBody t
  match t with
  | .char c => if isBlank c then b.inBody t else otherwise
  | .comment text => .done (b.commentIn ((b.stack.getLast?.map (·.id)).getD Dom.document) text)
  | .startTag tag => if tag.name == "html" then .done (b.mergeRoot tag) else otherwise
  | .endTag name => if name == "html" then .done (b.enter .afterAfterBody) else otherwise
  | .finish => .done b
  | _ => otherwise

def afterAfterBody (b : Builder) (t : Token) : Outcome :=
  let otherwise := b.retry .inBody t
  match t with
  | .char c => if isBlank c then b.inBody t else otherwise
  | .comment text => .done (b.commentIn Dom.document text)
  | .startTag tag => if tag.name == "html" then .done (b.mergeRoot tag) else otherwise
  | .finish => .done b
  | _ => otherwise

def inFrameset (b : Builder) (t : Token) : Outcome :=
  match t with
  | .char c => .done (if isBlank c then b.insertChar c else b)
  | .comment text => .done (b.insertComment text)
  | .startTag tag =>
    if tag.name == "html" then .done (b.mergeRoot tag)
    else if tag.name == "frameset" then .done (b.insertHtml tag)
    else if tag.name == "frame" then .done (b.insertEmpty tag)
    else if tag.name == "noframes" then .done (b.insertMetadata tag)
    else .done b
  | .endTag name =>
    if name == "frameset" && 1 < b.stack.length then
      let b := b.pop
      .done (if b.currentIs "frameset" then b else b.enter .afterFrameset)
    else .done b
  | _ => .done b

def afterFrameset (b : Builder) (t : Token) : Outcome :=
  match t with
  | .char c => .done (if isBlank c then b.insertChar c else b)
  | .comment text => .done (b.insertComment text)
  | .startTag tag =>
    if tag.name == "html" then .done (b.mergeRoot tag)
    else if tag.name == "noframes" then .done (b.insertMetadata tag)
    else .done b
  | .endTag name => .done (if name == "html" then b.enter .afterAfterFrameset else b)
  | _ => .done b

def afterAfterFrameset (b : Builder) (t : Token) : Outcome :=
  match t with
  | .char c => if isBlank c then b.inBody t else .done b
  | .comment text => .done (b.commentIn Dom.document text)
  | .startTag tag =>
    if tag.name == "html" then .done (b.mergeRoot tag)
    else if tag.name == "noframes" then .done (b.insertMetadata tag)
    else .done b
  | _ => .done b

def inMode (b : Builder) (t : Token) : Outcome :=
  match b.mode with
  | .initial => b.atStart t
  | .beforeHtml => b.beforeHtml t
  | .beforeHead => b.beforeHead t
  | .inHead => b.inHead t
  | .afterHead => b.afterHead t
  | .inBody => b.inBody t
  | .text => b.inText t
  | .inTable => b.inTable t
  | .inTableText => b.inTableText t
  | .inCaption => b.inCaption t
  | .inColumnGroup => b.inColumnGroup t
  | .inTableBody => b.inTableBody t
  | .inRow => b.inRow t
  | .inCell => b.inCell t
  | .inSelect => b.inSelect t
  | .inSelectInTable => b.inSelectInTable t
  | .inTemplate => b.inTemplate t
  | .afterBody => b.afterBody t
  | .inFrameset => b.inFrameset t
  | .afterFrameset => b.afterFrameset t
  | .afterAfterBody => b.afterAfterBody t
  | .afterAfterFrameset => b.afterAfterFrameset t

end PageLint.Html.Builder
