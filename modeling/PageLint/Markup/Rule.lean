import PageLint.Config.Basic
import PageLint.Issue
import PageLint.Markup.Document

/-!
# Rules for elements

The catalogue of rules that look at one element at a time, and the issues they report.
-/

namespace PageLint.Markup

inductive ElementCheck where
  /-- the element has none of these attributes -/
  | lacksAll (attributes : List String)
  /-- the element has this attribute -/
  | has (name : String)
  deriving DecidableEq, Repr

structure ElementRule where
  id : String
  /-- the only element that the rule looks at, or none if it looks at all -/
  element : Option String
  check : ElementCheck
  category : Category
  kind : String
  solution : String
  deriving DecidableEq, Repr

namespace ElementRule

def flags (r : ElementRule) (e : Element) : Bool :=
  r.element.all e.hasName &&
    match r.check with
    | .lacksAll attributes => !attributes.any e.has
    | .has name => e.has name

def info (r : ElementRule) : RuleInfo where
  id := r.id
  scope := .markup
  category := r.category
  summary := r.kind
  solution := r.solution
  trigger :=
    let target := r.element.elim "any element" fun name => "<" ++ name ++ ">"
    match r.check with
    | .lacksAll attributes =>
      target ++ " without " ++ " or ".intercalate (attributes.map fun a => "`" ++ a ++ "`")
    | .has name => target ++ " with a `" ++ name ++ "` attribute"

variable [PatternEngine] in
/-- The issue that a rule reports for an element. An element without an offset stands at the first
tag of its name, and if there is none its line is not known. -/
def issue (text : List Char) (r : ElementRule) (e : Element) : MarkupIssue where
  ruleId := r.id
  kind := r.kind
  tag := "<" ++ e.name ++ ">"
  line := Line.resolve .unknown (e.offset.or (findTag e.name.toList text)) text
  solution := r.solution

/-- The rules for elements, in the order in which they report. -/
def catalogue : List ElementRule := [
  { id := "html-img-alt"
    element := some "img"
    check := .lacksAll ["alt"]
    category := .accessibility
    kind := "Missing alt attribute"
    solution := "Add alt=\"...\" attribute in <img>" },
  { id := "html-lang"
    element := some "html"
    check := .lacksAll ["lang"]
    category := .accessibility
    kind := "Missing lang attribute"
    solution := "Add lang=\"en\" in <html>" },
  { id := "html-anchor-href"
    element := some "a"
    check := .lacksAll ["href"]
    category := .correctness
    kind := "Missing href in anchor tag"
    solution := "Add href=\"...\" in <a>" },
  { id := "html-label-for"
    element := some "label"
    check := .lacksAll ["for", "htmlFor"]
    category := .accessibility
    kind := "Missing htmlFor attribute"
    solution := "Add htmlFor=\"...\" in <label>" },
  { id := "html-button-type"
    element := some "button"
    check := .lacksAll ["type"]
    category := .correctness
    kind := "Missing type attribute"
    solution := "Add type=\"button\" or type=\"submit\" in <button>" },
  { id := "html-input-name"
    element := some "input"
    check := .lacksAll ["name"]
    category := .correctness
    kind := "Missing name attribute"
    solution := "Add name=\"...\" in <input>" },
  { id := "html-input-type"
    element := some "input"
    check := .lacksAll ["type"]
    category := .correctness
    kind := "Missing type attribute"
    solution := "Add type=\"...\" in <input>" },
  { id := "html-textarea-name"
    element := some "textarea"
    check := .lacksAll ["name"]
    category := .correctness
    kind := "Missing name attribute"
    solution := "Add name=\"...\" in <textarea>" },
  { id := "html-inline-style"
    element := none
    check := .has "style"
    category := .style
    kind := "Inline style detected"
    solution := "Move inline styles into the stylesheet" }]

def selected (c : Config) : List ElementRule :=
  catalogue.filter fun r => c.selects r.id r.category

end ElementRule

variable [PatternEngine] in
/-- The issues that rules report for the elements of a page, element by element. -/
def inspect (rules : List ElementRule) (text : List Char) (root : Node) : List MarkupIssue :=
  root.elements.flatMap fun e => (rules.filter (·.flags e)).map (·.issue text e)

end PageLint.Markup
