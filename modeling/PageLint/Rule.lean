/-!
# Rules

What the rules of both documents have in common: an identifier, the document they look at, a
category, and the texts that describe them.
-/

namespace PageLint

/-- What kind of fault a rule finds. -/
inductive Category where
  /-- content that assistive technology cannot interpret -/
  | accessibility
  /-- markup that is likely broken -/
  | correctness
  /-- maintainability and consistency -/
  | style
  deriving DecidableEq, Repr

namespace Category

def name : Category → String
  | accessibility => "accessibility"
  | correctness => "correctness"
  | style => "style"

def ofName? : String → Option Category
  | "accessibility" => some accessibility
  | "correctness" => some correctness
  | "style" => some style
  | _ => none

/-- Reads a category as a user writes it: in any case, with `a11y` for accessibility. Only ASCII
letters are lowered, for no other character lowers to letters of these words alone. -/
def parse (text : String) : Except String Category :=
  let lowered := text.map Char.toLower
  if lowered = "a11y" then .ok accessibility
  else
    match ofName? lowered with
    | some c => .ok c
    | none => .error ("Unknown category: " ++ text)

end Category

/-- The document that a rule looks at. -/
inductive Scope where
  | markup
  | stylesheet
  deriving DecidableEq, Repr

def Scope.name : Scope → String
  | markup => "markup"
  | stylesheet => "stylesheet"

structure RuleInfo where
  id : String
  scope : Scope
  category : Category
  /-- the problem that it reports -/
  summary : String
  /-- the fix that it suggests -/
  solution : String
  /-- the condition under which it reports -/
  trigger : String
  deriving DecidableEq, Repr

end PageLint
