import PageLint.Files.Path

/-!
# Files

All that is seen of files is what reading each of them answers.
-/

namespace PageLint

inductive ReadError where
  | notFound
  | isDirectory
  | notDirectory
  | nameTooLong
  | nulInName
  /-- the bytes of the file are no text -/
  | notText
  /-- any other failure, in the words of the operating system -/
  | other (message : String)
  deriving DecidableEq, Repr

def ReadError.message : ReadError → String
  | notFound => "No such file or directory (os error 2)"
  | isDirectory => "Is a directory (os error 21)"
  | notDirectory => "Not a directory (os error 20)"
  | nameTooLong => "File name too long (os error 36)"
  | nulInName => "file name contained an unexpected NUL byte"
  | notText => "stream did not contain valid UTF-8"
  | other message => message

structure Files where
  /-- the text of a file, or why it was not read -/
  read : FilePath → Except ReadError (List Char)

/-- Whether a path leads to a file, which may be one that cannot be read as text. -/
def Files.contains (files : Files) (path : FilePath) : Bool :=
  match files.read path with
  | .ok _ | .error .notText | .error (.other _) => true
  | .error _ => false

def decodeText (bytes : ByteArray) : Except ReadError (List Char) :=
  match String.fromUTF8? bytes with
  | some text => .ok text.toList
  | none => .error .notText

end PageLint
