import PageLint.Config.Basic
import PageLint.Yaml.Node.Document

/-!
# Configurations in YAML

Every field may be missing and fields of other names are ignored, but a field given twice is
refused. Where nothing is written, a record has no fields and a list no items. A text may be any
scalar.
-/

namespace PageLint

namespace Yaml

abbrev Anchors := List (Nat × Node)

def boolTag : String :=
  "tag:yaml.org,2002:bool"

def boolOfName? : String → Option Bool
  | "true" | "True" | "TRUE" => some true
  | "false" | "False" | "FALSE" => some false
  | _ => none

/-- Whether a plain scalar stands for no value. -/
def isNull (value : String) : Bool :=
  ["", "~", "null", "Null", "NULL"].contains value

/-- A Boolean. Quotes make a text of it. -/
def bool? (anchors : Anchors) (node : Node) : Option Bool :=
  match node.content anchors with
  | .scalar value style tag =>
    if style = .plain || (style = .literal && tag = some boolTag) then boolOfName? value else none
  | _ => none

def string? (anchors : Anchors) (node : Node) : Option String :=
  match node.content anchors with
  | .scalar value _ _ => some value
  | _ => none

def list? (item? : Anchors → Node → Option α) (anchors : Anchors) (node : Node) :
    Option (List α) :=
  match node.content anchors with
  | .sequence items => items.mapM (item? anchors)
  | .scalar "" .plain _ => some []
  | _ => none

/-- A named choice: its name, or a local tag of that name before a null. -/
def choice? (ofName? : String → Option α) (anchors : Anchors) (node : Node) : Option α :=
  match node.content anchors with
  | .scalar value style tag =>
    match tag.bind fun t => Text.afterPrefix? ['!'] t.toList with
    | none => ofName? value
    | some name =>
      if style = .plain && isNull value then ofName? (String.ofList name) else none
  | _ => none

def record? (names : List String) (anchors : Anchors) (node : Node) :
    Option (List (Option Node)) :=
  match node.content anchors with
  | .mapping entries => do
    let keys ← entries.mapM fun (key, _) => string? anchors key
    let fields := keys.zip (entries.map (·.2))
    names.mapM fun name =>
      match fields.filter (·.1 = name) with
      | [] => some none
      | [(_, value)] => some (some value)
      | _ => none
  | .scalar "" .plain _ => some (names.map fun _ => none)
  | _ => none

def field? (read? : Anchors → Node → Option α) (default : α) (anchors : Anchors) :
    Option Node → Option α
  | none => some default
  | some node => read? anchors node

end Yaml

open Yaml

def EngineSettings.ofYaml? (anchors : Anchors) (node : Node) : Option EngineSettings :=
  match record? ["parallel"] anchors node with
  | some [parallel] => (field? bool? true anchors parallel).map EngineSettings.mk
  | _ => none

def OutputSettings.ofYaml? (anchors : Anchors) (node : Node) : Option OutputSettings :=
  match record? ["format", "color", "pretty", "verbose"] anchors node with
  | some [format, color, pretty, verbose] => do
    return {
      format := ← field? (choice? OutputFormat.ofName?) .text anchors format
      color := ← field? (choice? ColorMode.ofName?) .auto anchors color
      pretty := ← field? bool? false anchors pretty
      verbose := ← field? bool? false anchors verbose }
  | _ => none

def RuleSelection.ofYaml? (anchors : Anchors) (node : Node) : Option RuleSelection :=
  match record? ["disabled", "enabled", "extend", "ignore"] anchors node with
  | some [disabled, enabled, extend, ignore] => do
    return {
      disabled := ← field? (list? string?) [] anchors disabled
      enabled := ← field? (list? string?) [] anchors enabled
      extend := ← field? (list? string?) [] anchors extend
      ignore := ← field? (list? string?) [] anchors ignore }
  | _ => none

def Config.ofYaml? (root : Node) : Option Config :=
  let anchors := root.anchors
  match record? ["extends", "engine", "output", "rules", "categories"] anchors root with
  | some [parents, engine, output, rules, categories] => do
    return {
      parents := ← field? (list? string?) [] anchors parents
      engine := ← field? EngineSettings.ofYaml? {} anchors engine
      output := ← field? OutputSettings.ofYaml? {} anchors output
      rules := ← field? RuleSelection.ofYaml? {} anchors rules
      categories := ← field? (list? (choice? Category.ofName?)) [] anchors categories }
  | _ => none

end PageLint
