import PageLint.Report.Basic
import PageLint.Report.Paint

/-!
# Reports for readers

A report in lines: for each document a heading and its issues, and at the end how many there are.
-/

namespace PageLint

structure TextSettings where
  /-- whether it is painted, where the terminal allows it -/
  painted : Bool := true
  solutions : Bool := true
  ruleIds : Bool := false
  summary : Bool := true
  deriving DecidableEq, Repr

namespace TextSettings

def paint (s : TextSettings) (style : Style) (text : String) : String :=
  if s.painted then style.paint text else text

/-- A text with blanks before it to make it at least `width` characters long. -/
def padLeft (width : Nat) (text : String) : String :=
  String.ofList (List.replicate (width - text.length) ' ') ++ text

def heading (s : TextSettings) (title : String) (count : Nat) : String :=
  s.paint .boldUnderlined (title ++ " (" ++ toString count ++ ")") ++ "\n"

/-- An issue: its line, the rule, the subject and the rest, and the solution below. Escape
sequences count as characters where the line is padded. -/
def issue (s : TextSettings) (line : Line) (ruleId subject rest solution : String) : String :=
  let place := padLeft 12 (s.paint .dimmed ("line " ++ line.render))
  let rule := if s.ruleIds then "[" ++ s.paint .cyan ruleId ++ "] " else ""
  let fix := if s.solutions then
    "      " ++ s.paint .green "=" ++ " fix: " ++ solution ++ "\n" else ""
  "  " ++ place ++ "  " ++ rule ++ s.paint .boldYellow subject ++ rest ++ "\n" ++ fix

def markupIssue (s : TextSettings) (i : MarkupIssue) : String :=
  s.issue i.line i.ruleId i.kind (" " ++ i.tag) i.solution

def stylesheetIssue (s : TextSettings) (i : StylesheetIssue) : String :=
  s.issue i.line i.ruleId i.property (": " ++ i.problem) i.solution

/-- The issues of a document under its heading, if there are any. -/
def listing (s : TextSettings) (title : String) (issues : List String) : String :=
  if issues.isEmpty then "" else s.heading title issues.length ++ String.join issues ++ "\n"

def summaryLine (s : TextSettings) (count : Nat) : String :=
  if count = 0 then s.paint .green "No issues found" ++ "\n"
  else
    let noun := if count = 1 then "issue" else "issues"
    s.paint .boldYellow (toString count ++ " " ++ noun ++ " found") ++ "\n"

def render (s : TextSettings) (r : Report) : String :=
  s.listing "HTML" (r.markup.map s.markupIssue) ++
    s.listing "CSS" (r.stylesheet.map s.stylesheetIssue) ++
    if s.summary then s.summaryLine r.count else ""

end TextSettings

end PageLint
