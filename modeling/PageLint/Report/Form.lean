import PageLint.Report.Json
import PageLint.Report.Text

/-!
# Forms of a report

A report is written as JSON or for readers, as the configuration says.
-/

namespace PageLint

inductive ReportForm where
  | json (pretty : Bool)
  | text (settings : TextSettings)
  deriving DecidableEq, Repr

def ReportForm.ofConfig (c : Config) : ReportForm :=
  match c.output.format with
  | .json => json c.output.pretty
  | .text => text { painted := c.output.color ≠ .never, ruleIds := c.output.verbose }

/-- A report in writing. It is painted only where the terminal allows it. -/
def ReportForm.render (f : ReportForm) (allowsPaint : Bool) (r : Report) : String :=
  match f with
  | json pretty => r.toJson.render pretty
  | text s => { s with painted := s.painted && allowsPaint }.render r

end PageLint
