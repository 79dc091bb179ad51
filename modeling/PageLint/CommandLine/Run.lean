import PageLint.CommandLine.Arguments
import PageLint.Config.Load
import PageLint.Report.Form
import PageLint.Text.Blank

/-!
# Commands

What a command does with the files that it finds. It exits with 0 if there are no issues, with 1 if
there are, and with 2 if it fails; then nothing is written to the standard output.
-/

namespace PageLint.CommandLine

structure Outcome where
  exit : Nat
  output : String := ""
  errors : String := ""
  deriving DecidableEq, Repr

inductive Failure where
  | unknownRule (id : String)
  | nothingToAnalyze
  | badConfig (path : FilePath) (cause : ConfigError)
  | unreadable (path : FilePath) (cause : ReadError)
  deriving DecidableEq, Repr

/-- The wording of a failure to load a configuration, with its cause. -/
def fullMessage : ConfigError → String
  | .unreadable cause => (ConfigError.unreadable cause).message ++ ": " ++ cause.message
  | e => e.message

def Failure.message : Failure → String
  | unknownRule id => "Rule '" ++ id ++ "' not found (use --list-rules to see all rules)"
  | nothingToAnalyze => "Nothing to analyze: pass --html <FILE> and/or --css <FILE>"
  | badConfig path cause => "Failed to load config " ++ path.render ++ ": " ++ fullMessage cause
  | unreadable path cause => "Failed to read " ++ path.render ++ ": " ++ cause.message

def paintIf (allowed : Bool) (style : Style) (text : String) : String :=
  if allowed then style.paint text else text

def Failure.outcome (f : Failure) (allowsPaint : Bool) : Outcome where
  exit := 2
  errors := paintIf allowsPaint .boldRed "error" ++ ": " ++ f.message ++ "\n"

/-! ### Rules -/

def listedRule (allowsPaint : Bool) (rule : RuleInfo) : String :=
  "    " ++ paintIf allowsPaint .cyan rule.id ++ " (" ++ rule.category.name ++ ")\n      " ++
    rule.summary ++ "\n"

def listedScope (allowsPaint : Bool) (scope : Scope) : String :=
  let rules := allRules.filter (·.scope = scope)
  paintIf allowsPaint .bold scope.name ++ " (" ++ toString rules.length ++ " rules)\n" ++
    String.join (rules.map (listedRule allowsPaint)) ++ "\n"

def listRules (allowsPaint : Bool) : String :=
  listedScope allowsPaint .markup ++ listedScope allowsPaint .stylesheet

def explain (allowsPaint : Bool) (rule : RuleInfo) : String :=
  let field (name value : String) :=
    "  " ++ paintIf allowsPaint .bold name ++ ": " ++ value ++ "\n"
  paintIf allowsPaint .bold "Rule Details" ++ "\n\n" ++
    field "ID" (paintIf allowsPaint .cyan rule.id) ++
    field "Scope" rule.scope.name ++
    field "Category" rule.category.name ++
    field "Problem" rule.summary ++
    field "Trigger" rule.trigger ++
    field "Fix" (paintIf allowsPaint .green rule.solution)

/-! ### Analysis -/

/-- The configuration of a command. One that is not named and cannot be loaded is passed over. -/
def configuration (files : Files) (a : Arguments) : Except Failure Config :=
  match a.config with
  | some path =>
    match (Config.load files { text := path }).outcome with
    | .ok c => .ok (c.override a.overrides)
    | .error cause => .error (.badConfig { text := path } cause)
  | none =>
    match (Config.loadStandard files).outcome with
    | .ok c => .ok (c.override a.overrides)
    | .error _ => .ok ((default : Config).override a.overrides)

/-- The text of a document, which is empty if there is none. -/
def document (files : Files) : Option String → Except Failure (List Char)
  | none => .ok []
  | some path => (files.read { text := path }).mapError (.unreadable { text := path })

/-- Whether a report is painted where the terminal paints by itself or not. -/
def allowsPaint (c : Config) (isTerminal : Bool) : Bool :=
  match c.output.color with
  | .always => true
  | .never => false
  | .auto => isTerminal

variable [Markup.PatternEngine]

def report (files : Files) (a : Arguments) (c : Config) : Except Failure Report :=
  match document files a.html, document files a.css with
  | .ok markup, .ok stylesheet => .ok (analyze c markup stylesheet)
  | .error e, _ => .error e
  | _, .error e => .error e

def reported (c : Config) (allowed : Bool) (r : Report) : Outcome where
  exit := r.exitCode
  output := String.ofList (Text.trimEnd ((ReportForm.ofConfig c).render allowed r).toList) ++ "\n"
  errors := if c.output.verbose then "Active rules: " ++ ", ".intercalate c.ruleIds ++ "\n" else ""

def Arguments.run (a : Arguments) (files : Files) (isTerminal : Bool) : Outcome :=
  match a.explain with
  | some id =>
    match findRule id with
    | some rule => { exit := 0, output := CommandLine.explain isTerminal rule }
    | none => (Failure.unknownRule id).outcome isTerminal
  | none =>
    if a.listRules then { exit := 0, output := CommandLine.listRules isTerminal }
    else if a.html.isNone && a.css.isNone then Failure.nothingToAnalyze.outcome isTerminal
    else
      match configuration files a with
      | .error e => e.outcome isTerminal
      | .ok c =>
        let allowed := allowsPaint c isTerminal
        match report files a c with
        | .error e => e.outcome allowed
        | .ok r => reported c allowed r

def versionText : String :=
  "codecatcher 0.1.0\n"

def helpText : String :=
  "Checks a markup document and a stylesheet for accessibility, correctness and style " ++
  "issues.\n\n" ++
  "Usage: codecatcher [OPTIONS] [COMMAND]\n\n" ++
  "Commands:\n" ++
  "  explain  Show detailed information about a rule\n" ++
  "  help     Print this message or the help of the given subcommand(s)\n\n" ++
  "Options:\n" ++
  "      --html <FILE>        Markup file to analyze\n" ++
  "      --css <FILE>         Stylesheet file to analyze\n" ++
  "  -c, --config <CONFIG>    Configuration file path\n" ++
  "  -f, --format <FORMAT>    Output format [possible values: text, json]\n" ++
  "      --pretty             Pretty-print JSON output\n" ++
  "  -v, --verbose            Enable verbose output\n" ++
  "      --no-color           Disable colored output\n" ++
  "      --sequential         Run the markup and stylesheet analyzers one after the other\n" ++
  "      --disable <DISABLE>  Disable specific rules (comma-separated)\n" ++
  "      --select <SELECT>    Only enable specific rules (comma-separated)\n" ++
  "      --extend <EXTEND>    Select rules by prefix (e.g., 'html-' selects all markup rules)\n" ++
  "      --ignore <IGNORE>    Ignore rules by prefix (e.g., 'css-' ignores all stylesheet " ++
  "rules)\n" ++
  "      --list-rules         List available rules and exit\n" ++
  "  -h, --help               Print help\n" ++
  "  -V, --version            Print version\n"

/-- What a reader of a command line that does not run is told. -/
def Stop.outcome : Stop → Outcome
  | help => { exit := 0, output := helpText }
  | version => { exit := 0, output := versionText }
  | usage e => { exit := 2, errors := "error: " ++ e.message ++ "\n" }

def run (arguments : List String) (files : Files) (isTerminal : Bool) : Outcome :=
  match Arguments.parse arguments with
  | .ok a => a.run files isTerminal
  | .error stop => stop.outcome

end PageLint.CommandLine
