/-!
# Paths

A path is kept as it was written. `FilePath.sibling` names a file next to another one.
-/

namespace PageLint

/-- Where a path that does not start with a slash starts. -/
inductive PathBase where
  | work
  | home
  deriving DecidableEq, Repr

structure FilePath where
  base : PathBase := .work
  text : String
  deriving DecidableEq, Repr

namespace FilePath

/-- A path in writing. The home directory is a tilde. -/
def render (p : FilePath) : String :=
  match p.base with
  | .work => p.text
  | .home => "~/" ++ p.text

def isAbsolute (text : String) : Bool :=
  text.toList.head? == some '/'

def pieces (text : String) : List (List Char) :=
  text.toList.splitOn '/'

/-- The last pieces first, without those at the end that name nothing: empty ones and single
points. At the start of a path a single point names the directory that the path starts in. -/
def dropUnnamed : List (List Char) → List (List Char)
  | [] => []
  | piece :: rest =>
    if (piece == [] || piece == ['.']) && !rest.isEmpty then dropUnnamed rest else piece :: rest

/-- The pieces of a path, the last one that names something first. -/
def namedPieces (text : String) : List (List Char) :=
  dropUnnamed (pieces text).reverse

/-- The directory of a path: what is left without its last name. -/
def parent (text : String) : String :=
  let front := dropUnnamed (namedPieces text).tail
  if front == [[]] then "/" else String.ofList (['/'].intercalate front.reverse)

def join (directory entry : String) : String :=
  if directory.isEmpty || isAbsolute entry then entry
  else if directory.toList.getLast? == some '/' then directory ++ entry
  else directory ++ "/" ++ entry

def sibling (p : FilePath) (entry : String) : FilePath :=
  if isAbsolute entry then { text := entry } else { p with text := join (parent p.text) entry }

/-- The part of a file's name after its last point. A point at the start of a name is part of the
name. -/
def extension? (p : FilePath) : Option String :=
  match namedPieces p.text with
  | [] => none
  | name :: _ =>
    if name == ['.', '.'] then none
    else
      let after := name.reverse.takeWhile (· ≠ '.')
      if name.length ≤ after.length + 1 then none else some (String.ofList after.reverse)

end FilePath

end PageLint
