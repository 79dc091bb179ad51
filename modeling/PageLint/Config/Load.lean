import PageLint.Config.FromJson
import PageLint.Config.FromYaml
import PageLint.Files.Basic
import PageLint.Json.Reader

/-!
# Configuration files

A configuration file may build on presets and on other files, which it names from its own
directory. These are laid over each other in the order in which they are named, and the file itself
on top. `Config.load` follows at most ten files in a row.
-/

namespace PageLint

inductive ConfigError where
  | unreadable (cause : ReadError)
  | yaml
  | json
  | unsupported (extension : String) (path : FilePath)
  | tooDeep (path : FilePath)
  deriving DecidableEq, Repr

/-- The longest row of files that build on each other. -/
def maxFilesInRow : Nat := 10

/-- The wording of a failure. What is wrong in a YAML or JSON text is not told. -/
def ConfigError.message : ConfigError → String
  | unreadable cause => "IO error: " ++ cause.message
  | yaml => "YAML parse error"
  | json => "JSON parse error"
  | unsupported extension path => "Invalid configuration: unsupported config file extension '" ++
      extension ++ "' for " ++ path.render
  | tooDeep path => "Invalid configuration: extends chain deeper than " ++
      toString maxFilesInRow ++ " files at " ++ path.render

namespace Config

/-- Reads a configuration in the language that its file's extension tells. -/
def ofText (path : FilePath) (text : List Char) : Except ConfigError Config :=
  match path.extension? with
  | some "yaml" | some "yml" =>
    match (Yaml.parse? text).bind ofYaml? with
    | some c => .ok c
    | none => .error .yaml
  | some "json" =>
    match (Json.read? (String.ofList text)).bind ofJson? with
    | some c => .ok c
    | none => .error .json
  | other => .error (.unsupported (other.getD "") path)

def ofFile (files : Files) (path : FilePath) : Except ConfigError Config :=
  match files.read path with
  | .ok text => ofText path text
  | .error cause => .error (.unreadable cause)

/-- What a configuration builds on: a preset or a file. -/
inductive Parent where
  | preset (c : Config)
  | file (path : FilePath)

/-- What a name in the file at `path` stands for. The names of presets come first. -/
def Parent.ofName (path : FilePath) (name : String) : Parent :=
  match preset? name with
  | some c => .preset c
  | none => .file (path.sibling name)

def parentsIn (c : Config) (path : FilePath) : List Parent :=
  c.parents.map (Parent.ofName path)

end Config

structure LoadResult where
  /-- the files that hold a configuration, in the order in which they were read -/
  loaded : List FilePath := []
  outcome : Except ConfigError Config

namespace LoadResult

/-- Lays the configuration that loading `next` gives over a loaded one, unless one of them
failed. -/
def addLayer (r : LoadResult) (next : Unit → LoadResult) : LoadResult :=
  match r.outcome with
  | .error _ => r
  | .ok below =>
    -- Only now: nothing is read after a failure.
    let top := next ()
    { loaded := r.loaded ++ top.loaded, outcome := top.outcome.map below.merge }

end LoadResult

namespace Config

/-- Lays what a configuration builds on over each other. `loadFile` loads a file. -/
def layParents (loadFile : FilePath → LoadResult) (parents : List Parent) (start : LoadResult) :
    LoadResult :=
  parents.foldl
    (fun below parent => below.addLayer fun _ =>
      match parent with
      | .preset c => { outcome := .ok c }
      | .file path => loadFile path)
    start

/-- Lays a configuration over what it builds on, and that over the defaults. -/
def overParents (own : Config) (loadFile : FilePath → LoadResult) (path : FilePath) : LoadResult :=
  let base := layParents loadFile (own.parentsIn path) { loaded := [path], outcome := .ok {} }
  base.addLayer fun _ => { outcome := .ok { own with parents := [] } }

/-- Loads a configuration file where at most `levels` files may follow in a row. -/
def loadWithin (files : Files) : (levels : Nat) → FilePath → LoadResult
  | 0, path => { outcome := .error (.tooDeep path) }
  | levels + 1, path =>
    match ofFile files path with
    | .error e => { outcome := .error e }
    | .ok own =>
      -- Laid over the defaults it would be the same configuration.
      if own.parents.isEmpty then { loaded := [path], outcome := .ok { own with parents := [] } }
      else own.overParents (loadWithin files levels) path

def load (files : Files) (path : FilePath) : LoadResult :=
  loadWithin files maxFilesInRow path

/-- The names of the files that hold a configuration unless one is named, the first choice
first. -/
def standardNames : List String :=
  [".codecatcherrc.yaml", ".codecatcherrc.yml", ".codecatcherrc.json",
    "codecatcher.yaml", "codecatcher.yml", "codecatcher.json"]

/-- The paths of those files: those in the working directory come first. -/
def standardPaths : List FilePath :=
  standardNames.map (⟨.work, ·⟩) ++ standardNames.map (⟨.home, ·⟩)

/-- Loads the configuration that applies unless one is named. -/
def loadStandard (files : Files) : LoadResult :=
  match standardPaths.find? files.contains with
  | some path => load files path
  | none => { outcome := .ok {} }

end Config

end PageLint
