import PageLint.Config.Basic
import PageLint.Issue
import PageLint.Log
import PageLint.Text.Blank
import PageLint.Text.Folding
import PageLint.Text.Search

/-!
# Closing tags

Some elements should be closed by a tag of their own. Their tags are counted in the source, not in
the tree, in which every element is closed.
-/

namespace PageLint.Markup

open Text

/-- How often a tag is opened and closed. -/
structure Balance where
  opened : Nat
  closed : Nat
  /-- the offset of the first opening tag -/
  firstOpen : Option Nat
  deriving DecidableEq, Repr

namespace Balance

def isUnclosed (b : Balance) : Bool :=
  b.closed < b.opened

/-- Whether a text starts with the opening tag of an element: its name with a blank or `>`. -/
def opens (name : List Char) : List Char → Bool
  | '<' :: rest =>
    match afterPrefixFolded? name rest with
    | some (c :: _) => Text.isBlank c || c == '>'
    | _ => false
  | _ => false

/-- Whether a text starts with the closing tag of an element. -/
def closes (name : List Char) : List Char → Bool
  | '<' :: '/' :: rest =>
    match afterPrefixFolded? name rest with
    | some ('>' :: _) => true
    | _ => false
  | _ => false

def ofText (name text : List Char) : Balance :=
  let opened := places (opens name) text
  ⟨opened.length, (places (closes name) text).length, opened.head?⟩

/-- The elements that should be closed. -/
def elements : List String :=
  ["div", "section", "article", "header", "footer", "nav", "main", "aside", "p", "span", "ul",
    "ol", "li", "table", "tr", "td", "th", "form", "h1", "h2", "h3", "h4", "h5", "h6"]

/-- The balance of an element that should be closed; no other element is counted. -/
def of (name : String) (text : List Char) : Balance :=
  match elements.find? fun e => agree e.toList name.toList with
  | some e => ofText e.toList text
  | none => ⟨0, 0, none⟩

def unclosed (text : List Char) : List (String × Balance) :=
  (elements.map fun e => (e, ofText e.toList text)).filter (·.2.isUnclosed)

def rule : RuleInfo where
  id := "html-closing-tag"
  scope := .markup
  category := .correctness
  summary := "Missing closing tag"
  solution := "Add a closing </tag> tag"
  trigger := "more opening than closing tags for any of: " ++ ", ".intercalate elements

/-- The issue of an element that is not closed. It stands where the element is first opened. -/
def issue (text : List Char) (element : String) (b : Balance) : MarkupIssue where
  ruleId := rule.id
  kind := rule.summary
  tag := "<" ++ element ++ ">"
  line := Line.resolve .firstLine b.firstOpen text
  solution := "Add a closing </" ++ element ++ "> tag"

def entry (element : String) (b : Balance) : LogEntry where
  level := .debug
  message := "<" ++ element ++ "> opened " ++ toString b.opened ++ " time(s), closed " ++
    toString b.closed ++ " time(s)"

def check (text : List Char) : List MarkupIssue :=
  (unclosed text).map fun (element, b) => issue text element b

end Balance

end PageLint.Markup
