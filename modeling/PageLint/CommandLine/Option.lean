import PageLint.Config.Basic

/-!
# Options

The options of the command line, how they are spelled, and what goes wrong with them.
-/

namespace PageLint.CommandLine

inductive ValueOption where
  | html
  | css
  | config
  | format
  | disable
  | select
  | extend
  | ignore
  deriving DecidableEq, Repr

namespace ValueOption

def ofName? : String → Option ValueOption
  | "html" => some html
  | "css" => some css
  | "config" => some config
  | "format" => some format
  | "disable" => some disable
  | "select" => some select
  | "extend" => some extend
  | "ignore" => some ignore
  | _ => none

def ofLetter? : Char → Option ValueOption
  | 'c' => some config
  | 'f' => some format
  | _ => none

def spelling : ValueOption → String
  | html => "--html <FILE>"
  | css => "--css <FILE>"
  | config => "--config <CONFIG>"
  | format => "--format <FORMAT>"
  | disable => "--disable <DISABLE>"
  | select => "--select <SELECT>"
  | extend => "--extend <EXTEND>"
  | ignore => "--ignore <IGNORE>"

end ValueOption

/-- An option that takes no value. -/
inductive FlagOption where
  | pretty
  | verbose
  | noColor
  | sequential
  | listRules
  | help
  | version
  deriving DecidableEq, Repr

namespace FlagOption

def ofName? : String → Option FlagOption
  | "pretty" => some pretty
  | "verbose" => some verbose
  | "no-color" => some noColor
  | "sequential" => some sequential
  | "list-rules" => some listRules
  | "help" => some help
  | "version" => some version
  | _ => none

def ofLetter? : Char → Option FlagOption
  | 'v' => some verbose
  | 'h' => some help
  | 'V' => some version
  | _ => none

def spelling : FlagOption → String
  | pretty => "--pretty"
  | verbose => "--verbose"
  | noColor => "--no-color"
  | sequential => "--sequential"
  | listRules => "--list-rules"
  | help => "--help"
  | version => "--version"

end FlagOption

/-- What is wrong with a command line. -/
inductive UsageError where
  | unexpectedArgument (argument : String)
  | unknownCommand (name : String)
  | missingValue (option : ValueOption)
  | repeated (option : String)
  | unexpectedValue (value : String) (flag : FlagOption)
  | invalidFormat (value : String)
  | missingRule
  deriving DecidableEq, Repr

def UsageError.message : UsageError → String
  | unexpectedArgument argument => "unexpected argument '" ++ argument ++ "' found"
  | unknownCommand name => "unrecognized subcommand '" ++ name ++ "'"
  | missingValue option =>
    "a value is required for '" ++ option.spelling ++ "' but none was supplied"
  | repeated option => "the argument '" ++ option ++ "' cannot be used multiple times"
  | unexpectedValue value flag => "unexpected value '" ++ value ++ "' for '" ++ flag.spelling ++
      "' found; no more were expected"
  | invalidFormat value => "invalid value '" ++ value ++ "' for '" ++
      ValueOption.format.spelling ++ "'"
  | missingRule => "the following required arguments were not provided:"

end PageLint.CommandLine
