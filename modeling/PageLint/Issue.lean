import PageLint.Text.Bytes

/-!
# Issues

What the rules report: an issue of a page or of a stylesheet, with the line that it stands on.
-/

namespace PageLint

inductive Line where
  | known (number : Nat)
  | unknown
  deriving DecidableEq, Repr

def Line.render : Line → String
  | known n => toString n
  | unknown => "Unknown"

/-- What is reported where no offset is known. -/
inductive LinePolicy where
  | firstLine
  | unknown
  deriving DecidableEq, Repr

/-- The line of an offset into a text, or of a missing one as the policy says. -/
def Line.resolve (policy : LinePolicy) (offset : Option Nat) (text : List Char) : Line :=
  match offset, policy with
  | none, .unknown => unknown
  | offset, _ => known (Text.lineOf offset text)

structure MarkupIssue where
  ruleId : String
  /-- what is wrong -/
  kind : String
  /-- the start tag at fault, without attributes -/
  tag : String
  line : Line
  solution : String
  deriving DecidableEq, Repr

structure StylesheetIssue where
  ruleId : String
  /-- the property as written -/
  property : String
  problem : String
  line : Line
  solution : String
  deriving DecidableEq, Repr

end PageLint
