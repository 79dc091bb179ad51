import PageLint.Rule
import PageLint.Text.Letters

/-!
# Configuration

Which rules run and how the report is written. `Config.selects` decides whether a rule runs, and
`Config.merge` lays one configuration over another.
-/

namespace PageLint

inductive OutputFormat where
  | text
  | json
  deriving DecidableEq, Repr

/-- When the report is in colour. -/
inductive ColorMode where
  | auto
  | always
  | never
  deriving DecidableEq, Repr

structure EngineSettings where
  parallel : Bool := true
  deriving DecidableEq, Repr

structure OutputSettings where
  format : OutputFormat := .text
  color : ColorMode := .auto
  pretty : Bool := false
  verbose : Bool := false
  deriving DecidableEq, Repr

/-- Which rules run, by identifier and by the start of the identifier. -/
structure RuleSelection where
  /-- rules that never run -/
  disabled : List String := []
  /-- the only rules that run, unless empty -/
  enabled : List String := []
  /-- the only starts of identifiers that run, unless empty -/
  extend : List String := []
  /-- starts of identifiers that never run -/
  ignore : List String := []
  deriving DecidableEq, Repr

/-- A configuration. `parents` are the presets and files that it builds on. -/
structure Config where
  parents : List String := []
  engine : EngineSettings := {}
  output : OutputSettings := {}
  rules : RuleSelection := {}
  /-- the only categories that run, unless empty -/
  categories : List Category := []
  deriving DecidableEq, Repr

instance : Inhabited Config := ⟨{}⟩

def OutputFormat.name : OutputFormat → String
  | text => "text"
  | json => "json"

def OutputFormat.ofName? : String → Option OutputFormat
  | "text" => some text
  | "json" => some json
  | _ => none

/-- Reads a format as a user writes it, in any case. Only ASCII letters are lowered, for no other
character lowers to letters of these words alone. -/
def OutputFormat.parse (written : String) : Except String OutputFormat :=
  match ofName? (written.map Char.toLower) with
  | some f => .ok f
  | none => .error ("Unknown output format: " ++ written)

def ColorMode.name : ColorMode → String
  | auto => "auto"
  | always => "always"
  | never => "never"

def ColorMode.ofName? : String → Option ColorMode
  | "auto" => some auto
  | "always" => some always
  | "never" => some never
  | _ => none

/-- Whether one of several texts is a start of `id`, the case of ASCII letters aside. -/
def anyStart (starts : List String) (id : String) : Bool :=
  starts.any fun start => Text.startsWith start.toList id.toList

namespace Config

def preset? : String → Option Config
  | "recommended" => some {}
  | "accessibility" => some { categories := [.accessibility] }
  | "minimal" => some { categories := [.correctness] }
  | _ => none

/-- Whether a rule is switched off, by its identifier or by a start of it. -/
def switchesOff (c : Config) (id : String) : Bool :=
  c.rules.disabled.contains id || anyStart c.rules.ignore id

/-- Whether the rule lists let a rule run. Switching off comes first; then a list of enabled rules,
if there is one, decides alone; then the starts. -/
def enablesRule (c : Config) (id : String) : Bool :=
  if c.switchesOff id then false
  else if !c.rules.enabled.isEmpty then c.rules.enabled.contains id
  else c.rules.extend.isEmpty || anyStart c.rules.extend id

def enablesCategory (c : Config) (category : Category) : Bool :=
  c.categories.isEmpty || c.categories.contains category

def selects (c : Config) (id : String) (category : Category) : Bool :=
  c.enablesRule id && c.enablesCategory category

/-- Lays `top` over `c`. Lists and flags add up, except that what alone may run replaces what is
below; and the engine settings are those of `top`. -/
def merge (c top : Config) : Config where
  parents := c.parents
  engine := top.engine
  output := {
    -- The default cannot be told from a choice, so it leaves what is below.
    format := if top.output.format = .text then c.output.format else top.output.format
    color := if top.output.color = .auto then c.output.color else top.output.color
    pretty := c.output.pretty || top.output.pretty
    verbose := c.output.verbose || top.output.verbose }
  rules := {
    disabled := c.rules.disabled ++ top.rules.disabled
    enabled := if top.rules.enabled.isEmpty then c.rules.enabled else top.rules.enabled
    extend := c.rules.extend ++ top.rules.extend
    ignore := c.rules.ignore ++ top.rules.ignore }
  categories := if top.categories.isEmpty then c.categories else top.categories

end Config

/-- Settings of a command line. -/
structure Overrides where
  format : Option OutputFormat := none
  pretty : Bool := false
  verbose : Bool := false
  noColor : Bool := false
  sequential : Bool := false
  /-- rules to switch off, besides those of the configuration -/
  disable : List String := []
  /-- the only rules to run, in place of those of the configuration -/
  select : Option (List String) := none
  extend : List String := []
  ignore : List String := []
  deriving DecidableEq, Repr

def Config.override (c : Config) (o : Overrides) : Config where
  parents := c.parents
  engine := { parallel := c.engine.parallel && !o.sequential }
  output := {
    format := o.format.getD c.output.format
    color := if o.noColor then .never else c.output.color
    pretty := c.output.pretty || o.pretty
    verbose := c.output.verbose || o.verbose }
  rules := {
    disabled := c.rules.disabled ++ o.disable
    enabled := o.select.getD c.rules.enabled
    extend := c.rules.extend ++ o.extend
    ignore := c.rules.ignore ++ o.ignore }
  categories := c.categories

end PageLint
