import PageLint.Json.Writer
import PageLint.Report.Basic

/-!
# Reports in JSON

A report is an object of two lists of issues. The identifiers of rules are left out.
-/

namespace PageLint

/-- A line: its number, or a word where it is not known. -/
def Line.toJson : Line → Json
  | known n => .number (toString n)
  | unknown => .string unknown.render

def MarkupIssue.toJson (i : MarkupIssue) : Json :=
  .object [("type", .string i.kind), ("tag", .string i.tag), ("line", i.line.toJson),
    ("solution", .string i.solution)]

def StylesheetIssue.toJson (i : StylesheetIssue) : Json :=
  .object [("property", .string i.property), ("problem", .string i.problem),
    ("line", i.line.toJson), ("solution", .string i.solution)]

def Report.toJson (r : Report) : Json :=
  .object [("htmlIssues", .array (r.markup.map (·.toJson))),
    ("cssIssues", .array (r.stylesheet.map (·.toJson)))]

end PageLint
