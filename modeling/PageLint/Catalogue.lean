import PageLint.Markup.Balance
import PageLint.Markup.Rule
import PageLint.Stylesheet.Rule

/-!
# All rules

The rules of both documents in one list, in the order in which they report.
-/

namespace PageLint

def allRules : List RuleInfo :=
  Markup.Balance.rule :: (Markup.ElementRule.catalogue.map (·.info) ++
    Stylesheet.DeclarationRule.catalogue.map (·.info))

def findRule (id : String) : Option RuleInfo :=
  allRules.find? (·.id = id)

def Config.checksClosing (c : Config) : Bool :=
  c.selects Markup.Balance.rule.id Markup.Balance.rule.category

def Config.markupRules (c : Config) : List String :=
  (if c.checksClosing then [Markup.Balance.rule.id] else []) ++
    (Markup.ElementRule.selected c).map (·.id)

def Config.stylesheetRules (c : Config) : List String :=
  (Stylesheet.DeclarationRule.selected c).map (·.id)

/-- The identifiers of the rules that run, those for pages first. -/
def Config.ruleIds (c : Config) : List String :=
  c.markupRules ++ c.stylesheetRules

end PageLint
