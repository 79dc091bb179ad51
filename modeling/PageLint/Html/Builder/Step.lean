import PageLint.Html.Builder.Other

/-!
# Reading a token

A token is read by the rules of the mode, or, inside MathML and SVG, by rules of their own.
-/

namespace PageLint.Html.Builder

/-- Whether a token is read by the rules for MathML and SVG. -/
def isForeign (b : Builder) (t : Token) : Bool :=
  match b.stack with
  | [] => false
  | o :: _ =>
    if o.name.space = .html then false
    else
      match t with
      | .finish => false
      | .char _ => !(o.name.isMathText || o.name.isSvgHtml)
      | .startTag tag =>
        !(o.name.isSvgHtml ||
          (o.name.isMathText && tag.name != "mglyph" && tag.name != "malignmark") ||
          (o.name == ⟨.math, "annotation-xml"⟩ && tag.name == "svg"))
      | _ => true

/-- Closes MathML and SVG up to a place where HTML may stand. -/
def leaveForeign (b : Builder) : Builder :=
  let holdsHtml (o : Open) := o.name.space == .html || o.name.isMathText || o.name.isSvgHtml
  { b with stack := b.stack.dropWhile (!holdsHtml ·) }

/-- Whether a start tag ends MathML and SVG. -/
def leaves (tag : Tag) : Bool :=
  Names.leavingForeign.contains tag.name ||
    (tag.name == "font" && tag.attributes.any fun a => ["color", "face", "size"].contains a.name)

/-- Reads an end tag in MathML and SVG: it closes the element of that name, in any case. An HTML
element on the way is closed by the rules of the mode; `first` says that none has been passed. -/
def foreignEnd (b : Builder) (name : String) (first : Bool) : List Open → Outcome
  | [] => .done b
  | [_] => .done b
  | o :: outer =>
    if !first && o.name.space == .html then b.inMode (.endTag name)
    else if o.name.name.map Char.toLower == name then .done { b with stack := outer }
    else foreignEnd b name false outer

def inForeign (b : Builder) (t : Token) : Outcome :=
  match t with
  | .char c =>
    if c = '\x00' then .done (b.insertChar Reference.replacement)
    else .done ((b.noFramesAfter c).insertChar c)
  | .comment text => .done (b.insertComment text)
  | .startTag tag =>
    if leaves tag then b.leaveForeign.inMode t
    else
      let space := (b.stack.head?.map (·.name.space)).getD .html
      let name := if space = .svg then (svgNames.lookup tag.name).getD tag.name else tag.name
      .done (b.insertForeign space { tag with name })
  | .endTag name =>
    if name == "br" || name == "p" then b.leaveForeign.inMode t
    else b.foreignEnd name true b.stack
  | _ => .done b

/-- Reads a token, again and again while it changes the mode. `fuel` bounds the number of times. -/
def readAgain (fuel : Nat) (b : Builder) (t : Token) : Builder :=
  match fuel with
  | 0 => b
  | fuel + 1 =>
    match if b.isForeign t then b.inForeign t else b.inMode t with
    | .done b => b
    | .again b t => readAgain fuel b t

/-- Reads a token. A token is read again at most a few times for each open element. -/
def read (b : Builder) (t : Token) : Builder :=
  let drops := b.dropsNewline
  let b := { b with dropsNewline := false }
  match t with
  | .fault => b
  | .doctype d => b.readDoctype d
  | t => if drops && t == .char '\n' then b else b.readAgain (3 * b.stack.length + 20) t

def holdsCharacterData (b : Builder) : Bool :=
  b.stack.head?.any (·.name.space ≠ .html)

end PageLint.Html.Builder
