/-!
# Log entries

What an analysis tells about itself while it runs, besides its result.
-/

namespace PageLint

inductive LogLevel where
  | trace
  | debug
  | warn
  deriving DecidableEq, Repr

def LogLevel.name : LogLevel → String
  | trace => "trace"
  | debug => "debug"
  | warn => "warn"

structure LogEntry where
  level : LogLevel
  message : String
  deriving DecidableEq, Repr

end PageLint
