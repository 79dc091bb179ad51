import PageLint.CommandLine.Option

/-!
# Arguments

What a command line asks for. The value of an option that stands in an argument of its own is looked
at only when the next option has been recognized, so that what is wrong with the spelling of an
option is told first.
-/

namespace PageLint.CommandLine

/-- What a command line asks for. -/
structure Arguments where
  html : Option String := none
  css : Option String := none
  config : Option String := none
  format : Option OutputFormat := none
  pretty : Bool := false
  verbose : Bool := false
  noColor : Bool := false
  sequential : Bool := false
  listRules : Bool := false
  disable : Option (List String) := none
  select : Option (List String) := none
  extend : Option (List String) := none
  ignore : Option (List String) := none
  /-- the rule to explain -/
  explain : Option String := none
  deriving DecidableEq, Repr

/-- The settings that go over a configuration. -/
def Arguments.overrides (a : Arguments) : Overrides where
  format := a.format
  pretty := a.pretty
  verbose := a.verbose
  noColor := a.noColor
  sequential := a.sequential
  disable := a.disable.getD []
  select := a.select
  extend := a.extend.getD []
  ignore := a.ignore.getD []

/-- Why there is nothing to run. -/
inductive Stop where
  | help
  | version
  | usage (e : UsageError)
  deriving DecidableEq, Repr

/-- The items of a list: what stands between the commas. -/
def items (value : String) : List String :=
  (value.toList.splitOn ',').map String.ofList

namespace Arguments

/-- Sets an option that may be given once and whose value may not be empty. -/
def setOnce (old : Option α) (option : ValueOption) (value : String)
    (read : String → Except UsageError α) : Except UsageError (Option α) :=
  if old.isSome then .error (.repeated option.spelling)
  else if value.isEmpty then .error (.missingValue option)
  else (read value).map some

def readFormat (value : String) : Except UsageError OutputFormat :=
  match OutputFormat.ofName? value with
  | some format => .ok format
  | none => .error (.invalidFormat value)

def addItems (old : Option (List String)) (value : String) : Option (List String) :=
  some (old.getD [] ++ items value)

def setValue (a : Arguments) (option : ValueOption) : Option String → Except UsageError Arguments
  | none => .error (.missingValue option)
  | some value =>
    match option with
    | .html => return { a with html := ← setOnce a.html .html value .ok }
    | .css => return { a with css := ← setOnce a.css .css value .ok }
    | .config => return { a with config := ← setOnce a.config .config value .ok }
    | .format => return { a with format := ← setOnce a.format .format value readFormat }
    | .disable => .ok { a with disable := addItems a.disable value }
    | .select => .ok { a with select := addItems a.select value }
    | .extend => .ok { a with extend := addItems a.extend value }
    | .ignore => .ok { a with ignore := addItems a.ignore value }

/-- Takes in a flag, which may be given once. -/
def setFlag (a : Arguments) (flag : FlagOption) : Except Stop Arguments :=
  let once (old : Bool) (new : Arguments) : Except Stop Arguments :=
    if old then .error (.usage (.repeated flag.spelling)) else .ok new
  match flag with
  | .pretty => once a.pretty { a with pretty := true }
  | .verbose => once a.verbose { a with verbose := true }
  | .noColor => once a.noColor { a with noColor := true }
  | .sequential => once a.sequential { a with sequential := true }
  | .listRules => once a.listRules { a with listRules := true }
  | .help => .error .help
  | .version => .error .version

end Arguments

/-- How far a command line is read. -/
structure Progress where
  arguments : Arguments := {}
  /-- the last option that took an argument of its own as its value, or waits for one -/
  pending : Option (ValueOption × Option String) := none
  deriving Repr

namespace Progress

def awaitsValue (p : Progress) : Bool :=
  match p.pending with
  | some (_, none) => true
  | _ => false

/-- Takes in the option that is pending. -/
def settle (p : Progress) : Except Stop Arguments :=
  match p.pending with
  | none => .ok p.arguments
  | some (option, value) => (p.arguments.setValue option value).mapError .usage

def addFlag (p : Progress) (flag : FlagOption) : Except Stop Progress := do
  return { arguments := ← (← p.settle).setFlag flag }

def addOption (p : Progress) (option : ValueOption) (attached : Option String) :
    Except Stop Progress := do
  let arguments ← p.settle
  match attached with
  -- A value that is attached is looked at at once, any other when the next option comes.
  | some value => return { arguments := ← (arguments.setValue option value).mapError .usage }
  | none => return { arguments, pending := some (option, none) }

/-- Reads an option with a long name, after its two hyphens. A value may follow an equals sign. -/
def readLong (p : Progress) (written : List Char) : Except Stop Progress :=
  let name := String.ofList (written.takeWhile (· ≠ '='))
  let attached := (written.dropWhile (· ≠ '=')).tail?.map String.ofList
  match ValueOption.ofName? name, FlagOption.ofName? name with
  | some option, _ => p.addOption option attached
  | none, some flag =>
    match attached with
    | some value => .error (.usage (.unexpectedValue value flag))
    | none => p.addFlag flag
  | none, none => .error (.usage (.unexpectedArgument ("--" ++ name)))

/-- The value that is attached to a letter: an equals sign before it is left out. -/
def attachedToLetter : List Char → Option String
  | [] => none
  | '=' :: rest => some (String.ofList rest)
  | rest => some (String.ofList rest)

/-- Reads letters, each of which is an option. What follows an option with a value is its value. -/
def readLetters (p : Progress) : List Char → Except Stop Progress
  | [] => .ok p
  | c :: rest =>
    match ValueOption.ofLetter? c, FlagOption.ofLetter? c with
    | some option, _ => p.addOption option (attachedToLetter rest)
    | none, some flag =>
      match p.addFlag flag with
      | .ok p => readLetters p rest
      | .error e => .error e
    | none, none => .error (.usage (.unexpectedArgument ("-" ++ String.singleton c)))

end Progress

/-! ### Commands -/

/-- What an argument is to a reader of command lines. -/
inductive Shape where
  /-- two hyphens, after which there are no options -/
  | separator
  | long (written : List Char)
  | letters (written : List Char)
  | word

def Shape.of (argument : String) : Shape :=
  match argument.toList with
  | ['-', '-'] => .separator
  | '-' :: '-' :: written => .long written
  | ['-'] => .word
  | '-' :: written => .letters written
  | _ => .word

/-- Reads what follows the command for explaining a rule, which is one word. -/
def readExplain (rule : Option String) (afterSeparator : Bool) : List String → Except Stop String
  | [] =>
    match rule with
    | some rule => .ok rule
    | none => .error (.usage .missingRule)
  | argument :: rest =>
    let word :=
      if rule.isSome then .error (.usage (.unexpectedArgument argument))
      else readExplain (some argument) afterSeparator rest
    if afterSeparator then word
    else
      match Shape.of argument with
      | .separator => readExplain rule true rest
      | .long written =>
        let name := String.ofList (written.takeWhile (· ≠ '='))
        if name = "help" then
          match (written.dropWhile (· ≠ '=')).tail? with
          | some value => .error (.usage (.unexpectedValue (String.ofList value) .help))
          | none => .error .help
        else .error (.usage (.unexpectedArgument ("--" ++ name)))
      | .letters ('h' :: _) => .error .help
      | .letters written =>
        .error (.usage (.unexpectedArgument ("-" ++ String.ofList (written.take 1))))
      | .word => word

/-- Reads what follows the command for help: the names of commands within each other. -/
def readHelp : List String → Stop
  | [] => .help
  | name :: rest =>
    if name = "explain" || name = "help" then
      match rest with
      | [] => .help
      | name :: _ => .usage (.unknownCommand name)
    else .usage (.unknownCommand name)

def isCommand (word : String) : Bool :=
  word = "explain" || word = "help"

def Progress.read (p : Progress) : List String → Except Stop Arguments
  | [] => p.settle
  | argument :: rest =>
    if !p.awaitsValue && argument = "help" then .error (readHelp rest)
    else if !p.awaitsValue && argument = "explain" then do
      -- What is wrong after the command is told before what is wrong with a pending value.
      let rule ← readExplain none false rest
      return { ← p.settle with explain := some rule }
    else
      match Shape.of argument with
      | .separator =>
        match rest with
        | [] => p.settle
        | word :: _ =>
          if isCommand word then .error (.usage (.unexpectedArgument word))
          else .error (.usage (.unknownCommand word))
      | .long written =>
        match p.readLong written with
        | .ok p => p.read rest
        | .error e => .error e
      | .letters written =>
        match p.readLetters written with
        | .ok p => p.read rest
        | .error e => .error e
      | .word =>
        match p.pending with
        | some (option, none) => { p with pending := some (option, some argument) }.read rest
        | _ => .error (.usage (.unknownCommand argument))

def Arguments.parse (arguments : List String) : Except Stop Arguments :=
  Progress.read {} arguments

end PageLint.CommandLine
