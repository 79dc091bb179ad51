import PageLint.Files.Basic
import PageLint.Text.Bytes

/-!
# Trees of files

Files in a directory and its subdirectories, and how a path leads through them. Around the
directory there are other directories, but no files are known there.
-/

namespace PageLint

/-- Files by their names from the directory on. A directory is there when a file is in it. -/
structure FileTree where
  files : List (List String × ByteArray) := []

namespace FileTree

def ofList (files : List (String × ByteArray)) : FileTree where
  files := files.map fun (path, bytes) =>
    ((FilePath.pieces path).map String.ofList |>.filter fun name => name ≠ "" && name ≠ ".", bytes)

def file? (t : FileTree) (names : List String) : Option ByteArray :=
  t.files.lookup names

def hasDirectory (t : FileTree) (names : List String) : Bool :=
  names.isEmpty || t.files.any fun (file, _) => names.length < file.length && names.isPrefixOf file

inductive Place where
  | inside (names : List String)
  | around
  deriving DecidableEq, Repr

def isDirectory (t : FileTree) : Place → Bool
  | .inside names => t.hasDirectory names
  | .around => true

def Place.up : Place → Place
  | .inside [] => .around
  | .inside (name :: names) => .inside (name :: names).dropLast
  | .around => .around

/-- Follows one piece of a path. A name has at most 255 bytes. -/
def follow (t : FileTree) (place : Place) (piece : List Char) : Except ReadError Place :=
  if !t.isDirectory place then .error .notDirectory
  else if piece == [] || piece == ['.'] then .ok place
  else if piece == ['.', '.'] then .ok place.up
  else if 255 < Text.byteLength piece then .error .nameTooLong
  else
    match place with
    | .around => .error .notFound
    | .inside names =>
      let names := names ++ [String.ofList piece]
      if t.hasDirectory names || (t.file? names).isSome then .ok (.inside names)
      else .error .notFound

/-- The place that a path leads to. It has fewer than 4096 bytes. -/
def locate (t : FileTree) (path : String) : Except ReadError Place :=
  if path.toList.contains '\x00' then .error .nulInName
  else if path.isEmpty then .error .notFound
  else if 4096 ≤ Text.byteLength path.toList then .error .nameTooLong
  else
    let start := if FilePath.isAbsolute path then Place.around else .inside []
    (FilePath.pieces path).foldlM t.follow start

def read (t : FileTree) (path : String) : Except ReadError (List Char) :=
  match t.locate path with
  | .error e => .error e
  | .ok .around => .error .isDirectory
  | .ok (.inside names) =>
    match t.file? names with
    | some bytes => decodeText bytes
    | none => .error .isDirectory

end FileTree

/-- The files in a working directory and a home directory. A path from the home directory on names
that directory even if nothing follows. -/
def Files.ofTrees (work home : FileTree) : Files where
  read path :=
    match path.base with
    | .work => work.read path.text
    | .home => if path.text.isEmpty then .error .isDirectory else home.read path.text

end PageLint
