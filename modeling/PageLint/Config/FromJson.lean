import PageLint.Config.Basic
import PageLint.Json.Basic

/-!
# Configurations in JSON

Every field may be missing and fields of other names are ignored, but a field given twice is
refused. A record may also be written as an array of its fields in order, the last ones left out.
-/

namespace PageLint

namespace Json

def bool? : Json → Option Bool
  | bool b => some b
  | _ => none

def string? : Json → Option String
  | string s => some s
  | _ => none

def list? (item? : Json → Option α) : Json → Option (List α)
  | array items => items.mapM item?
  | _ => none

/-- A named choice: its name, or an object whose one field has that name and is null. -/
def choice? (ofName? : String → Option α) : Json → Option α
  | string name => ofName? name
  | object [(name, null)] => ofName? name
  | _ => none

/-- The values of the named fields of a record, in the order of the names; `none` for a field that
is missing. -/
def record? (names : List String) : Json → Option (List (Option Json))
  | object fields =>
    names.mapM fun name =>
      match fields.filter (·.1 = name) with
      | [] => some none
      | [(_, value)] => some (some value)
      | _ => none
  | array items =>
    if items.length ≤ names.length then
      some (items.map some ++ List.replicate (names.length - items.length) none)
    else none
  | _ => none

/-- The value of a field, or the default if it is missing. -/
def field? (read? : Json → Option α) (default : α) : Option Json → Option α
  | none => some default
  | some value => read? value

end Json

open Json

def EngineSettings.ofJson? (value : Json) : Option EngineSettings :=
  match record? ["parallel"] value with
  | some [parallel] => (field? bool? true parallel).map EngineSettings.mk
  | _ => none

def OutputSettings.ofJson? (value : Json) : Option OutputSettings :=
  match record? ["format", "color", "pretty", "verbose"] value with
  | some [format, color, pretty, verbose] => do
    return {
      format := ← field? (choice? OutputFormat.ofName?) .text format
      color := ← field? (choice? ColorMode.ofName?) .auto color
      pretty := ← field? bool? false pretty
      verbose := ← field? bool? false verbose }
  | _ => none

def RuleSelection.ofJson? (value : Json) : Option RuleSelection :=
  match record? ["disabled", "enabled", "extend", "ignore"] value with
  | some [disabled, enabled, extend, ignore] => do
    return {
      disabled := ← field? (list? string?) [] disabled
      enabled := ← field? (list? string?) [] enabled
      extend := ← field? (list? string?) [] extend
      ignore := ← field? (list? string?) [] ignore }
  | _ => none

def Config.ofJson? (value : Json) : Option Config :=
  match record? ["extends", "engine", "output", "rules", "categories"] value with
  | some [parents, engine, output, rules, categories] => do
    return {
      parents := ← field? (list? string?) [] parents
      engine := ← field? EngineSettings.ofJson? {} engine
      output := ← field? OutputSettings.ofJson? {} output
      rules := ← field? RuleSelection.ofJson? {} rules
      categories := ← field? (list? (choice? Category.ofName?)) [] categories }
  | _ => none

end PageLint
