import PageLint.CommandLine.Run

/-!
# The program

Reads the files that a command needs, runs it, and writes what it leaves behind.
-/

namespace PageLint

abbrev Known := List (FilePath × Except ReadError (List Char))

def Files.ofKnown (known : Known) : Files where
  read path := (known.lookup path).getD (.error .notFound)

/-- Why a file was not read, from the failure that the operating system tells. The code for a
directory is given with either sign. -/
def ReadError.ofFailure (e : IO.Error) : ReadError :=
  match e with
  | .noFileOrDirectory .. => .notFound
  | .inappropriateType _ code _ =>
    if code = 21 || code = 0 - 21 then .isDirectory else .notDirectory
  | e => .other (toString e)

def readFile (home : String) (path : FilePath) : IO (Except ReadError (List Char)) := do
  let name := match path.base with
    | .work => path.text
    | .home => home ++ "/" ++ path.text
  try
    return decodeText (← IO.FS.readBinFile name)
  catch e =>
    return .error (.ofFailure e)

/-- Reads a configuration file and the files that it builds on, `levels` of them in a row. -/
def readConfigs (home : String) : (levels : Nat) → FilePath → StateT Known IO Unit
  | 0, _ => return
  | levels + 1, path => do
    let answer ← readFile home path
    modify ((path, answer) :: ·)
    match answer.toOption.map (Config.ofText path) with
    | some (.ok c) =>
      for parent in c.parentsIn path do
        match parent with
        | .file path => readConfigs home levels path
        | .preset _ => pure ()
    | _ => pure ()

def readNeeded (home : String) (a : CommandLine.Arguments) : StateT Known IO Unit := do
  for text in (a.html.toList ++ a.css.toList) do
    let answer ← readFile home { text }
    modify ((({ text } : FilePath), answer) :: ·)
  match a.config with
  | some text => readConfigs home maxFilesInRow { text }
  | none =>
    for path in Config.standardPaths do
      readConfigs home maxFilesInRow path

def runCommand (arguments : List String) : IO CommandLine.Outcome := do
  match CommandLine.Arguments.parse arguments with
  | .error stop => return stop.outcome
  | .ok a =>
    let home := (← IO.getEnv "HOME").getD ""
    let (_, known) ← (readNeeded home a).run []
    return a.run (Files.ofKnown known) (← (← IO.getStdout).isTty)

end PageLint

def main (arguments : List String) : IO UInt32 := do
  let outcome ← PageLint.runCommand arguments
  IO.print outcome.output
  IO.eprint outcome.errors
  return outcome.exit.toUInt32
