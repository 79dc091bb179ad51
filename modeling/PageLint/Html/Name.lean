/-!
# Element names

An element belongs to HTML or to one of the two languages that may be embedded in it. The lists
here name the HTML elements that the reading of a page treats alike.
-/

namespace PageLint.Html

inductive Space where
  | html
  | math
  | svg
  deriving DecidableEq, Repr

structure ElementName where
  space : Space
  name : String
  deriving DecidableEq, Repr

namespace ElementName

def isHtml (n : ElementName) (name : String) : Bool :=
  n.space == .html && n.name == name

def isAnyOf (n : ElementName) (names : List String) : Bool :=
  n.space == .html && names.contains n.name

/-- Whether this is a MathML element whose text and elements are read as HTML. -/
def isMathText (n : ElementName) : Bool :=
  n.space == .math && ["mi", "mo", "mn", "ms", "mtext"].contains n.name

/-- Whether this is an SVG element whose contents are read as HTML. -/
def isSvgHtml (n : ElementName) : Bool :=
  n.space == .svg && ["foreignObject", "desc", "title"].contains n.name

end ElementName

namespace Names

/-- Elements that end the search for an open element in scope. -/
def scope : List String :=
  ["applet", "caption", "html", "table", "td", "th", "marquee", "object", "template"]

/-- Elements that stand for a table as a whole when one of its parts is looked for. -/
def tableScope : List String := ["html", "table", "template"]

/-- Elements whose end tag may be left out. -/
def implied : List String :=
  ["dd", "dt", "li", "option", "optgroup", "p", "rb", "rp", "rt", "rtc"]

/-- Elements that end with a template, whether closed or not. -/
def impliedInTemplate : List String :=
  implied ++ ["caption", "colgroup", "tbody", "td", "tfoot", "th", "thead", "tr"]

def headings : List String := ["h1", "h2", "h3", "h4", "h5", "h6"]

def cells : List String := ["td", "th"]

def rowGroups : List String := ["tbody", "tfoot", "thead"]

/-- Elements inside which misplaced content moves in front of the table. -/
def fostering : List String := ["table", "tbody", "tfoot", "thead", "tr"]

/-- Elements that an end tag of an ordinary element does not reach across. -/
def special : List String :=
  ["address", "applet", "area", "article", "aside", "base", "basefont", "bgsound", "blockquote",
    "body", "br", "button", "caption", "center", "col", "colgroup", "dd", "details", "dir", "div",
    "dl", "dt", "embed", "fieldset", "figcaption", "figure", "footer", "form", "frame", "frameset",
    "h1", "h2", "h3", "h4", "h5", "h6", "head", "header", "hgroup", "hr", "html", "iframe", "img",
    "input", "isindex", "li", "link", "listing", "main", "marquee", "menu", "meta", "nav",
    "noembed", "noframes", "noscript", "object", "ol", "p", "param", "plaintext", "pre", "script",
    "section", "select", "source", "style", "summary", "table", "tbody", "td", "template",
    "textarea", "tfoot", "th", "thead", "title", "tr", "track", "ul", "wbr", "xmp"]

/-- Elements that belong in the head wherever their tags stand. -/
def metadata : List String :=
  ["base", "basefont", "bgsound", "link", "meta", "noframes", "script", "style", "template",
    "title"]

def emptyMetadata : List String := ["base", "basefont", "bgsound", "link", "meta"]

/-- Blocks, before which an open paragraph ends. -/
def blocks : List String :=
  ["address", "article", "aside", "blockquote", "center", "details", "dialog", "dir", "div", "dl",
    "fieldset", "figcaption", "figure", "footer", "header", "hgroup", "main", "menu", "nav", "ol",
    "p", "section", "summary", "ul"]

/-- Blocks that an end tag of the same name ends. -/
def closableBlocks : List String :=
  ["address", "article", "aside", "blockquote", "button", "center", "details", "dialog", "dir",
    "div", "dl", "fieldset", "figcaption", "figure", "footer", "header", "hgroup", "listing",
    "main", "menu", "nav", "ol", "pre", "section", "summary", "ul"]

/-- Formatting elements, which go on in the next block when theirs ends, `a` and `nobr` aside. -/
def formatting : List String :=
  ["b", "big", "code", "em", "font", "i", "s", "small", "strike", "strong", "tt", "u"]

/-- Elements with contents of their own, at which open formatting stops. -/
def embedded : List String := ["applet", "marquee", "object"]

/-- Elements without contents that stand in running text. -/
def emptyInline : List String := ["area", "br", "embed", "img", "keygen", "wbr"]

/-- Elements without contents that belong to the element around them. -/
def emptyParts : List String := ["param", "source", "track"]

/-- Parts of a table or a frameset, which mean nothing in running text. -/
def misplacedParts : List String :=
  ["caption", "col", "colgroup", "frame", "head", "tbody", "td", "tfoot", "th", "thead", "tr"]

def leavingForeign : List String :=
  ["b", "big", "blockquote", "body", "br", "center", "code", "dd", "div", "dl", "dt", "em",
    "embed", "h1", "h2", "h3", "h4", "h5", "h6", "head", "hr", "i", "img", "li", "listing", "menu",
    "meta", "nobr", "ol", "p", "pre", "ruby", "s", "small", "span", "strong", "strike", "sub",
    "sup", "table", "tt", "u", "ul", "var"]

/-- Starts of public identifiers, in lower case, of document types of the time before standards. -/
def lenientPublicStarts : List String := [
  "-//advasoft ltd//dtd html 3.0 aswedit + extensions//",
  "-//as//dtd html 3.0 aswedit + extensions//",
  "-//ietf//dtd html 2.0 level 1//",
  "-//ietf//dtd html 2.0 level 2//",
  "-//ietf//dtd html 2.0 strict level 1//",
  "-//ietf//dtd html 2.0 strict level 2//",
  "-//ietf//dtd html 2.0 strict//",
  "-//ietf//dtd html 2.0//",
  "-//ietf//dtd html 2.1e//",
  "-//ietf//dtd html 3.0//",
  "-//ietf//dtd html 3.2 final//",
  "-//ietf//dtd html 3.2//",
  "-//ietf//dtd html 3//",
  "-//ietf//dtd html level 0//",
  "-//ietf//dtd html level 1//",
  "-//ietf//dtd html level 2//",
  "-//ietf//dtd html level 3//",
  "-//ietf//dtd html strict level 0//",
  "-//ietf//dtd html strict level 1//",
  "-//ietf//dtd html strict level 2//",
  "-//ietf//dtd html strict level 3//",
  "-//ietf//dtd html strict//",
  "-//ietf//dtd html//",
  "-//metrius//dtd metrius presentational//",
  "-//microsoft//dtd internet explorer 2.0 html strict//",
  "-//microsoft//dtd internet explorer 2.0 html//",
  "-//microsoft//dtd internet explorer 2.0 tables//",
  "-//microsoft//dtd internet explorer 3.0 html strict//",
  "-//microsoft//dtd internet explorer 3.0 html//",
  "-//microsoft//dtd internet explorer 3.0 tables//",
  "-//netscape comm. corp.//dtd html//",
  "-//netscape comm. corp.//dtd strict html//",
  "-//o'reilly and associates//dtd html 2.0//",
  "-//o'reilly and associates//dtd html extended 1.0//",
  "-//o'reilly and associates//dtd html extended relaxed 1.0//",
  "-//softquad software//dtd hotmetal pro 6.0::19990601::extensions to html 4.0//",
  "-//softquad//dtd hotmetal pro 4.0::19971010::extensions to html 4.0//",
  "-//spyglass//dtd html 2.0 extended//",
  "-//sq//dtd html 2.0 hotmetal + extensions//",
  "-//sun microsystems corp.//dtd hotjava html//",
  "-//sun microsystems corp.//dtd hotjava strict html//",
  "-//w3c//dtd html 3 1995-03-24//",
  "-//w3c//dtd html 3.2 draft//",
  "-//w3c//dtd html 3.2 final//",
  "-//w3c//dtd html 3.2//",
  "-//w3c//dtd html 3.2s draft//",
  "-//w3c//dtd html 4.0 frameset//",
  "-//w3c//dtd html 4.0 transitional//",
  "-//w3c//dtd html experimental 19960712//",
  "-//w3c//dtd html experimental 970421//",
  "-//w3c//dtd w3 html//",
  "-//w3o//dtd w3 html 3.0//",
  "-//webtechs//dtd mozilla html 2.0//",
  "-//webtechs//dtd mozilla html//"]

/-- Starts of public identifiers that count so only where no system identifier is given. -/
def lenientPublicStartsAlone : List String :=
  ["-//w3c//dtd html 4.01 frameset//", "-//w3c//dtd html 4.01 transitional//"]

/-- Whole public identifiers that count so. -/
def lenientPublicIds : List String :=
  ["-//w3o//dtd w3 html strict 3.0//en//", "-/w3c/dtd html 4.0 transitional/en", "html"]

/-- System identifiers that count so. -/
def lenientSystemIds : List String :=
  ["http:" ++ "//www.ibm.com/data/dtd/v11/ibmxhtml1-transitional.dtd"]

end Names

end PageLint.Html
