import PageLint.Html.Builder.Body

/-!
# Tables

What may not stand between the parts of a table moves in front of it.
-/

namespace PageLint.Html.Builder

/-- Reads a token as in the body, with content in front of the table. -/
def foster (b : Builder) (t : Token) : Outcome :=
  match ({ b with fostering := true }).inBody t with
  | .done b => .done { b with fostering := false }
  | .again b t => .again { b with fostering := false } t

/-- Reads a character in a table. Blanks may stay in it, but only if nothing else comes with
them, so text is put off until its end. -/
def tableChar (b : Builder) (t : Token) : Outcome :=
  if b.stack.head?.any (·.name.isAnyOf Names.fostering) then
    { b with resume := b.mode }.retry .inTableText t
  else b.foster t

/-- Puts text in a table in its place: in front of the table unless all of it is blank. -/
def placeTableText (b : Builder) : Builder :=
  let b' := { b with tableText := [] }
  let insertFostered (b : Builder) (c : Char) :=
    match b.foster (.char c) with
    | .done b => b
    -- In the body no character is read again.
    | .again b _ => b
  if b.tableText.all isBlank then b.tableText.reverse.foldl insertChar b'
  else b.tableText.reverse.foldl insertFostered b'

def inTableText (b : Builder) (t : Token) : Outcome :=
  match t with
  | .char c => .done (if c = '\x00' then b else { b with tableText := c :: b.tableText })
  | _ => b.placeTableText.retry b.resume t

def tableStart (b : Builder) (tag : Tag) : Outcome :=
  let name := tag.name
  let t := Token.startTag tag
  let inTable := b.popTo Names.tableScope
  if name == "caption" then .done ((inTable.markFormatting.insertHtml tag).enter .inCaption)
  else if name == "colgroup" then .done ((inTable.insertHtml tag).enter .inColumnGroup)
  else if name == "col" then (inTable.insertImplied "colgroup").retry .inColumnGroup t
  else if Names.rowGroups.contains name then .done ((inTable.insertHtml tag).enter .inTableBody)
  else if name == "tr" || Names.cells.contains name then
    (inTable.insertImplied "tbody").retry .inTableBody t
  else if name == "table" then
    if b.inTableScope ["table"] then
      let b := b.popThroughHtml "table"
      b.retry b.properMode t
    else .done b
  else if name == "style" || name == "script" || name == "template" then
    .done (b.insertMetadata tag)
  else if name == "input" && isHidden tag then .done (b.insertEmpty tag)
  else if name == "form" then
    if !b.hasOpen "template" && b.form.isNone then
      .done { b.insertEmpty tag with form := some b.dom.nextId }
    else .done b
  else b.foster t

def inTable (b : Builder) (t : Token) : Outcome :=
  match t with
  | .char _ => b.tableChar t
  | .comment text => .done (b.insertComment text)
  | .startTag tag => b.tableStart tag
  | .endTag name =>
    if name == "table" then
      if b.inTableScope ["table"] then
        let b := b.popThroughHtml "table"
        .done (b.enter b.properMode)
      else .done b
    else if name == "template" then .done b.closeTemplate
    else if name == "body" || name == "html" ||
        (Names.misplacedParts.contains name && name != "frame" && name != "head") then .done b
    else b.foster t
  | _ => b.inBody t

def inCaption (b : Builder) (t : Token) : Outcome :=
  let leave (next : Builder → Outcome) : Outcome :=
    if b.inTableScope ["caption"] then
      next (((b.popImplied []).popThroughHtml "caption").endFormatting.enter .inTable)
    else .done b
  match t with
  | .startTag tag =>
    if tag.name != "frame" && tag.name != "head" && Names.misplacedParts.contains tag.name then
      leave fun b => .again b t
    else b.inBody t
  | .endTag name =>
    if name == "caption" then leave .done
    else if name == "table" then leave fun b => .again b t
    else if name == "body" || name == "html" ||
        (Names.misplacedParts.contains name && name != "frame" && name != "head") then .done b
    else b.inBody t
  | _ => b.inBody t

def inColumnGroup (b : Builder) (t : Token) : Outcome :=
  let leave : Outcome :=
    if b.currentIs "colgroup" then b.pop.retry .inTable t else .done b
  match t with
  | .char c => if isBlank c then .done (b.insertChar c) else leave
  | .comment text => .done (b.insertComment text)
  | .startTag tag =>
    if tag.name == "html" then .done (b.mergeRoot tag)
    else if tag.name == "col" then .done (b.insertEmpty tag)
    else if tag.name == "template" then .done (b.openTemplate tag)
    else leave
  | .endTag name =>
    if name == "colgroup" then
      .done (if b.currentIs "colgroup" then b.pop.enter .inTable else b)
    else if name == "col" then .done b
    else if name == "template" then .done b.closeTemplate
    else leave
  | _ => b.inBody t

/-- The elements that rows stand in. -/
def rowContext : List String := Names.rowGroups ++ ["template", "html"]

def cellContext : List String := ["tr", "template", "html"]

def endsRowGroup (t : Token) : Bool :=
  match t with
  | .startTag tag =>
    Names.rowGroups.contains tag.name || ["caption", "col", "colgroup"].contains tag.name
  | .endTag name => name == "table"
  | _ => false

/-- End tags without a meaning where they stand in a table. -/
def isStrayEnd (t : Token) (more : List String) : Bool :=
  match t with
  | .endTag name =>
    ["body", "caption", "col", "colgroup", "html"].contains name || more.contains name
  | _ => false

def inTableBody (b : Builder) (t : Token) : Outcome :=
  let inGroup := b.popTo rowContext
  if endsRowGroup t then
    if b.inTableScope ["table", "tbody", "tfoot"] then inGroup.pop.retry .inTable t else .done b
  else if isStrayEnd t ["td", "th", "tr"] then .done b
  else
    match t with
    | .startTag tag =>
      if tag.name == "tr" then .done ((inGroup.insertHtml tag).enter .inRow)
      else if Names.cells.contains tag.name then (inGroup.insertImplied "tr").retry .inRow t
      else b.inTable t
    | .endTag name =>
      if Names.rowGroups.contains name then
        .done (if b.inTableScope [name] then inGroup.pop.enter .inTable else b)
      else b.inTable t
    | _ => b.inTable t

def inRow (b : Builder) (t : Token) : Outcome :=
  let inThis := b.popTo cellContext
  let leave : Outcome :=
    if b.inTableScope ["tr"] then inThis.pop.retry .inTableBody t else .done b
  if endsRowGroup t then leave
  else if isStrayEnd t ["td", "th"] then .done b
  else
    match t with
    | .startTag tag =>
      if Names.cells.contains tag.name then
        .done ((inThis.insertHtml tag).markFormatting.enter .inCell)
      else if tag.name == "tr" then leave
      else b.inTable t
    | .endTag name =>
      if name == "tr" then
        .done (if b.inTableScope ["tr"] then inThis.pop.enter .inTableBody else b)
      else if Names.rowGroups.contains name then
        if b.inTableScope [name] then leave else .done b
      else b.inTable t
    | _ => b.inTable t

def closeCell (b : Builder) : Builder :=
  ((b.popImplied []).popThrough (·.isAnyOf Names.cells)).endFormatting

def inCell (b : Builder) (t : Token) : Outcome :=
  if isStrayEnd t [] then .done b
  else
    match t with
    | .startTag tag =>
      if tag.name != "frame" && tag.name != "head" && Names.misplacedParts.contains tag.name then
        if b.inTableScope Names.cells then b.closeCell.retry .inRow t else .done b
      else b.inBody t
    | .endTag name =>
      if Names.cells.contains name then
        .done (if b.inTableScope [name] then
          ((b.popImplied []).popThroughHtml name).endFormatting.enter .inRow else b)
      else if name == "table" || name == "tr" || Names.rowGroups.contains name then
        if b.inTableScope [name] then b.closeCell.retry .inRow t else .done b
      else b.inBody t
    | _ => b.inBody t

end PageLint.Html.Builder
