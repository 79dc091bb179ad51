import PageLint.Catalogue

/-!
# Reports

A report holds the issues of one page and one stylesheet. `analyze` makes it, with the rules that a
configuration lets run. Whether the two documents are looked at side by side or one after the other
makes no difference to the report.
-/

namespace PageLint

structure Report where
  markup : List MarkupIssue := []
  stylesheet : List StylesheetIssue := []
  deriving DecidableEq, Repr

namespace Report

def count (r : Report) : Nat :=
  r.markup.length + r.stylesheet.length

def isClean (r : Report) : Bool :=
  r.count == 0

/-- What a command that wrote this report exits with: 1 if there are issues. -/
def exitCode (r : Report) : Nat :=
  if r.isClean then 0 else 1

end Report

variable [Markup.PatternEngine]

def analyzeMarkup (c : Config) (text : List Char) : List MarkupIssue :=
  (if c.checksClosing then Markup.Balance.check text else []) ++
    Markup.inspect (Markup.ElementRule.selected c) text (Markup.parse text)

def analyzeStylesheet (c : Config) (text : List Char) : List StylesheetIssue :=
  Stylesheet.inspect (Stylesheet.DeclarationRule.selected c) (Stylesheet.parse text)

def analyze (c : Config) (markup stylesheet : List Char) : Report :=
  ⟨analyzeMarkup c markup, analyzeStylesheet c stylesheet⟩

/-! ### What an analysis tells about itself -/

def configuredEntry (c : Config) : LogEntry where
  level := .debug
  message := "engine configured with " ++ toString c.markupRules.length ++ " markup and " ++
    toString c.stylesheetRules.length ++ " stylesheet rule(s)"

def finishedEntry (document : String) (issues : Nat) : LogEntry where
  level := .debug
  message := document ++ " analysis produced " ++ toString issues ++ " issue(s)"

def markupLog (c : Config) (text : List Char) : List LogEntry :=
  let closing := if c.checksClosing then Markup.Balance.unclosed text else []
  closing.map (fun (element, b) => Markup.Balance.entry element b) ++
    (Markup.parseNotes text).map (·.entry) ++
    [finishedEntry "markup" (analyzeMarkup c text).length]

def stylesheetLog (c : Config) (text : List Char) : List LogEntry :=
  (Stylesheet.parseNotes text).map (·.entry) ++
    [finishedEntry "stylesheet" (analyzeStylesheet c text).length]

end PageLint
