import PageLint.Config.Basic
import PageLint.Issue
import PageLint.Stylesheet.Node

/-!
# Rules for declarations

The catalogue of rules that look at one declaration at a time, and the issues they report.
-/

namespace PageLint.Stylesheet

inductive DeclarationCheck where
  /-- the value holds this token, at any depth -/
  | holdsToken (literal : String)
  /-- the property starts with this, the case of ASCII letters aside -/
  | startsWith (start : String)
  /-- the declaration is marked `!important` -/
  | important
  deriving DecidableEq, Repr

structure DeclarationRule where
  id : String
  check : DeclarationCheck
  category : Category
  problem : String
  solution : String
  deriving DecidableEq, Repr

namespace DeclarationRule

def flags (r : DeclarationRule) (d : Declaration) : Bool :=
  match r.check with
  | .holdsToken literal => Component.anyHolds literal d.value
  | .startsWith start => Text.startsWith start.toList d.property.toList
  | .important => d.important

def info (r : DeclarationRule) : RuleInfo where
  id := r.id
  scope := .stylesheet
  category := r.category
  summary := r.problem
  solution := r.solution
  trigger := match r.check with
    | .holdsToken literal => "value contains `" ++ literal ++ "`"
    | .startsWith start => "property name starts with `" ++ start ++ "`"
    | .important => "declaration is marked `!important`"

def issue (r : DeclarationRule) (d : Declaration) : StylesheetIssue :=
  ⟨r.id, d.property, r.problem, .known d.position.line, r.solution⟩

/-- The rules for declarations, in the order in which they report. -/
def catalogue : List DeclarationRule := [
  { id := "css-zero-unit"
    check := .holdsToken "0px"
    category := .style
    problem := "Use 0 instead of 0px"
    solution := "Replace '0px' with '0'" },
  { id := "css-font-shorthand"
    check := .startsWith "font-"
    category := .style
    problem := "Consider using font shorthand"
    solution := "Use full 'font: ...' shorthand" },
  { id := "css-background-shorthand"
    check := .startsWith "background-"
    category := .style
    problem := "Consider using background shorthand"
    solution := "Use 'background: ...' shorthand" },
  { id := "css-important"
    check := .important
    category := .style
    problem := "Avoid using !important unless necessary"
    solution := "Remove '!important' if possible" }]

def selected (c : Config) : List DeclarationRule :=
  catalogue.filter fun r => c.selects r.id r.category

end DeclarationRule

/-- The issues that rules report in a stylesheet, declaration by declaration. -/
def inspect (rules : List DeclarationRule) (ns : List Node) : List StylesheetIssue :=
  (declarations ns).flatMap fun d => (rules.filter (·.flags d)).map (·.issue d)

end PageLint.Stylesheet
