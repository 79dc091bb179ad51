import PageLint.Html.Builder.Head

/-!
# The body of a page
-/

namespace PageLint.Html.Builder

def isHidden (tag : Tag) : Bool :=
  (tag.value? "type").any fun value => value.map Char.toLower == "hidden"

/-- Gives the body the attributes of a later `body` tag. -/
def mergeBody (b : Builder) (tag : Tag) : Builder :=
  match b.stack.reverse with
  | _ :: body :: _ =>
    if body.name.isHtml "body" && !b.hasOpen "template" then
      { b.noFrames with dom := b.dom.addAttributes body.id tag.attributes }
    else b
  | _ => b

def replaceBody (b : Builder) (tag : Tag) : Builder :=
  match b.stack.reverse with
  | root :: body :: _ =>
    if b.framesAllowed && body.name.isHtml "body" then
      let b := { b with dom := b.dom.detach body.id, stack := [root] }
      (b.insertHtml tag).enter .inFrameset
    else b
  | _ => b

/-- Closes the list item or description that ends where another begins. -/
def closeItem (b : Builder) (names : List String) : Builder :=
  let stops (o : Open) :=
    o.name.isAnyOf names ||
      (o.name.isAnyOf Names.special && (o.name.name ∉ ["address", "div", "p"]))
  match b.stack.dropWhile (!stops ·) with
  | o :: _ => if o.name.isAnyOf names then b.close o.name.name else b
  | [] => b

def openForm (b : Builder) (tag : Tag) : Builder :=
  let inTemplate := b.hasOpen "template"
  if b.form.isSome && !inTemplate then b
  else
    let b := b.closeParagraph
    let n := b.dom.nextId
    let b := b.insertHtml tag
    if inTemplate then b else { b with form := some n }

def closeForm (b : Builder) : Builder :=
  if b.hasOpen "template" then
    if b.inScope "form" then (b.popImplied []).popThroughHtml "form" else b
  else
    match b.form with
    | none => b
    | some n =>
      let b := { b with form := none }
      if finds stopsScope (·.id == n) b.stack then (b.popImplied []).removeOpen n else b

/-- Opens a link. One that is open ends. -/
def openLink (b : Builder) (tag : Tag) : Builder :=
  let named : Formatting → Bool
    | .element _ old => old.name == "a"
    | .mark => false
  let b := match b.recentFormatting.find? named with
    | some (.element n _) => ((b.closeFormatting "a").removeFormatting n).removeOpen n
    | _ => b
  b.reopenFormatting.insertFormatting tag

/-- Inserts an element without contents that stands in running text. -/
def insertEmptyInline (b : Builder) (tag : Tag) : Builder :=
  (b.reopenFormatting.insertEmpty tag).noFrames

def openTable (b : Builder) (tag : Tag) : Builder :=
  -- Old pages keep a paragraph open around a table.
  let b := if b.lenient then b else b.closeParagraph
  (b.insertHtml tag).noFrames.enter .inTable

def openSelect (b : Builder) (tag : Tag) : Builder :=
  let inTable := [Mode.inTable, .inCaption, .inTableBody, .inRow, .inCell].contains b.mode
  (b.reopenFormatting.insertHtml tag).noFrames.enter
    (if inTable then .inSelectInTable else .inSelect)

/-- The names of attributes in MathML that have capitals. -/
def mathAttributes : List (String × String) := [("definitionurl", "definitionURL")]

def svgAttributes : List (String × String) :=
  ["attributeName", "attributeType", "baseFrequency", "baseProfile", "calcMode", "clipPathUnits",
    "diffuseConstant", "edgeMode", "filterUnits", "glyphRef", "gradientTransform",
    "gradientUnits", "kernelMatrix", "kernelUnitLength", "keyPoints", "keySplines", "keyTimes",
    "lengthAdjust", "limitingConeAngle", "markerHeight", "markerUnits", "markerWidth",
    "maskContentUnits", "maskUnits", "numOctaves", "pathLength", "patternContentUnits",
    "patternTransform", "patternUnits", "pointsAtX", "pointsAtY", "pointsAtZ", "preserveAlpha",
    "preserveAspectRatio", "primitiveUnits", "refX", "refY", "repeatCount", "repeatDur",
    "requiredExtensions", "requiredFeatures", "specularConstant", "specularExponent",
    "spreadMethod", "startOffset", "stdDeviation", "stitchTiles", "surfaceScale",
    "systemLanguage", "tableValues", "targetX", "targetY", "textLength", "viewBox", "viewTarget",
    "xChannelSelector", "yChannelSelector", "zoomAndPan"].map fun s => (s.map Char.toLower, s)

def svgNames : List (String × String) :=
  ["altGlyph", "altGlyphDef", "altGlyphItem", "animateColor", "animateMotion",
    "animateTransform", "clipPath", "feBlend", "feColorMatrix", "feComponentTransfer",
    "feComposite", "feConvolveMatrix", "feDiffuseLighting", "feDisplacementMap",
    "feDistantLight", "feDropShadow", "feFlood", "feFuncA", "feFuncB", "feFuncG", "feFuncR",
    "feGaussianBlur", "feImage", "feMerge", "feMergeNode", "feMorphology", "feOffset",
    "fePointLight", "feSpecularLighting", "feSpotLight", "feTile", "feTurbulence",
    "foreignObject", "glyphRef", "linearGradient", "radialGradient", "textPath"].map
      fun s => (s.map Char.toLower, s)

/-- Attributes with a prefix, each with its name without the prefix. -/
def qualifiedAttributes : List (String × String) :=
  [("xlink:actuate", "actuate"), ("xlink:arcrole", "arcrole"), ("xlink:href", "href"),
    ("xlink:role", "role"), ("xlink:show", "show"), ("xlink:title", "title"),
    ("xlink:type", "type"), ("xml:base", "base"), ("xml:lang", "lang"), ("xml:space", "space"),
    ("xmlns", "xmlns"), ("xmlns:xlink", "xlink")]

def foreignAttribute (space : Space) (a : Attribute) : Attribute :=
  let names := match space with
    | .html => []
    | .math => mathAttributes
    | .svg => svgAttributes
  match names.lookup a.name, qualifiedAttributes.lookup a.name with
  | some name, _ => { a with name }
  | none, some name => { a with name, qualified := true }
  | none, none => a

def insertForeign (b : Builder) (space : Space) (tag : Tag) : Builder :=
  let b' := b.insert space { tag with attributes := tag.attributes.map (foreignAttribute space) }
  if tag.selfClosing then b'.pop else b'

def bodyStart (b : Builder) (tag : Tag) : Builder :=
  let name := tag.name
  if name == "html" then b.mergeRoot tag
  else if Names.metadata.contains name then b.insertMetadata tag
  else if name == "body" then b.mergeBody tag
  else if name == "frameset" then b.replaceBody tag
  else if Names.blocks.contains name then b.closeParagraph.insertHtml tag
  else if Names.headings.contains name then
    let b := b.closeParagraph
    let inHeading := b.stack.head?.any (·.name.isAnyOf Names.headings)
    (if inHeading then b.pop else b).insertHtml tag
  else if name == "pre" || name == "listing" then
    { (b.closeParagraph.insertHtml tag).noFrames with dropsNewline := true }
  else if name == "form" then b.openForm tag
  else if name == "li" then ((b.noFrames.closeItem ["li"]).closeParagraph).insertHtml tag
  else if name == "dd" || name == "dt" then
    ((b.noFrames.closeItem ["dd", "dt"]).closeParagraph).insertHtml tag
  else if name == "plaintext" then
    { b.closeParagraph.insertHtml tag with content := .plain }
  else if name == "button" then
    let b := if b.inScope "button" then (b.popImplied []).popThroughHtml "button" else b
    (b.reopenFormatting.insertHtml tag).noFrames
  else if name == "a" then b.openLink tag
  else if Names.formatting.contains name then b.reopenFormatting.insertFormatting tag
  else if name == "nobr" then
    let b := b.reopenFormatting
    let b := if b.inScope "nobr" then (b.closeFormatting "nobr").reopenFormatting else b
    b.insertFormatting tag
  else if Names.embedded.contains name then
    (b.reopenFormatting.insertHtml tag).markFormatting.noFrames
  else if name == "table" then b.openTable tag
  else if Names.emptyInline.contains name then b.insertEmptyInline tag
  else if name == "input" then
    let b' := b.reopenFormatting.insertEmpty tag
    if isHidden tag then b' else b'.noFrames
  else if Names.emptyParts.contains name then b.insertEmpty tag
  else if name == "hr" then (b.closeParagraph.insertEmpty tag).noFrames
  else if name == "image" then b.insertEmptyInline { tag with name := "img" }
  else if name == "textarea" then { b.noFrames.insertTextElement tag with dropsNewline := true }
  else if name == "xmp" then b.closeParagraph.reopenFormatting.noFrames.insertTextElement tag
  else if name == "iframe" then b.noFrames.insertTextElement tag
  else if name == "noembed" || name == "noscript" then b.insertTextElement tag
  else if name == "select" then b.openSelect tag
  else if name == "optgroup" || name == "option" then
    (if b.currentIs "option" then b.pop else b).reopenFormatting.insertHtml tag
  else if name == "rb" || name == "rtc" then
    (if b.inScope "ruby" then b.popImplied [] else b).insertHtml tag
  else if name == "rp" || name == "rt" then
    (if b.inScope "ruby" then b.popImplied ["rtc"] else b).insertHtml tag
  else if name == "math" then b.insertForeign .math tag
  else if name == "svg" then b.insertForeign .svg tag
  else if Names.misplacedParts.contains name then b
  else b.reopenFormatting.insertHtml tag

def bodyEnd (b : Builder) (name : String) : Outcome :=
  if name == "template" then .done b.closeTemplate
  else if name == "body" then .done (if b.inScope "body" then b.enter .afterBody else b)
  else if name == "html" then
    if b.inScope "body" then b.retry .afterBody (.endTag name) else .done b
  else if Names.closableBlocks.contains name then
    .done (if b.inScope name then b.close name else b)
  else if name == "form" then .done b.closeForm
  else if name == "p" then
    -- A stray end tag makes an empty paragraph.
    .done ((if b.paragraphInScope then b else b.insertImplied "p").close "p")
  else if name == "li" then .done (if b.itemInScope then b.close name else b)
  else if name == "dd" || name == "dt" then .done (if b.inScope name then b.close name else b)
  else if Names.headings.contains name then
    let found := finds stopsScope (·.name.isAnyOf Names.headings) b.stack
    .done (if found then (b.popImplied []).popThrough (·.isAnyOf Names.headings) else b)
  else if Names.formatting.contains name || name == "a" || name == "nobr" then
    .done (b.closeFormatting name)
  else if Names.embedded.contains name then
    .done (if b.inScope name then (b.close name).endFormatting else b)
  else if name == "br" then .done (b.insertEmptyInline { name })
  else .done (b.closeOrdinary name)

/-- The end of a page that has templates open: they are closed, one by one. -/
def finishTemplate (b : Builder) (t : Token) : Outcome :=
  if b.hasOpen "template" then
    let b := (b.popThroughHtml "template").leaveTemplate
    .again b t
  else .done b

def inBody (b : Builder) (t : Token) : Outcome :=
  match t with
  | .char c =>
    .done (if c = '\x00' then b else (b.reopenFormatting.noFramesAfter c).insertChar c)
  | .comment text => .done (b.insertComment text)
  | .startTag tag => .done (b.bodyStart tag)
  | .endTag name => b.bodyEnd name
  | .finish => if b.templates.isEmpty then .done b else b.finishTemplate t
  | _ => .done b

/-- In the text of an element whose content is text. -/
def inText (b : Builder) (t : Token) : Outcome :=
  match t with
  | .char c => .done (b.insertChar c)
  | .finish => b.pop.retry b.resume t
  | _ => .done (b.pop.enter b.resume)

end PageLint.Html.Builder
