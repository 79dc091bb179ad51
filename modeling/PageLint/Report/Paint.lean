import PageLint.Text.Letters

/-!
# Painted text

Text is painted by escape sequences of the terminal: one that turns a style on and one that turns
all styles off. A text that turns styles off itself turns the style on again.
-/

namespace PageLint

inductive Style where
  | bold
  | boldUnderlined
  | dimmed
  | green
  | cyan
  | boldYellow
  | boldRed
  deriving DecidableEq, Repr

namespace Style

def codes : Style → String
  | bold => "1"
  | boldUnderlined => "1;4"
  | dimmed => "2"
  | green => "32"
  | cyan => "36"
  | boldYellow => "1;33"
  | boldRed => "1;31"

/-- The sequence that turns a style on. -/
def sequence (s : Style) : List Char :=
  '\x1b' :: '[' :: (s.codes.toList ++ ['m'])

/-- The sequence that turns all styles off. -/
def reset : List Char := ['\x1b', '[', '0', 'm']

/-- A text in which the style is turned on again wherever all styles are turned off. -/
def reapply (s : Style) (text : List Char) : List Char :=
  match text with
  | [] => []
  | c :: rest =>
    match Text.afterPrefix? reset (c :: rest) with
    | some _ => reset ++ s.sequence ++ reapply s (rest.drop 3)
    | none => c :: reapply s rest
termination_by text.length
decreasing_by all_goals (simp only [List.length_cons, List.length_drop]; omega)

def paint (s : Style) (text : String) : String :=
  String.ofList (s.sequence ++ s.reapply text.toList ++ reset)

end Style

end PageLint
