import PageLint.Html.Token.Tag

/-!
# Reading comments, document types and character data

Each function reads a piece after its opening characters, up to and including its end, and gives
what follows. A piece that the text ends within is read as far as it goes.
-/

namespace PageLint.Html

open Text

def withoutNul (text : List Char) : String :=
  String.ofList (text.map fun c => if c = '\x00' then Reference.replacement else c)

/-- Reads a comment that began with anything but two hyphens: it ends at the first `>`. -/
def readMarkedText (text : List Char) : String × List Char :=
  (withoutNul (text.takeWhile (· ≠ '>')), (text.dropWhile (· ≠ '>')).drop 1)

def afterCommentEnd? : List Char → Option (List Char)
  | '-' :: '-' :: '>' :: rest => some rest
  | '-' :: '-' :: '!' :: '>' :: rest => some rest
  | _ => none

def isOpenCommentEnd (text : List Char) : Bool :=
  text = ['-'] || text = ['-', '-'] || text = ['-', '-', '!']

def readCommentText : List Char → List Char × List Char
  | [] => ([], [])
  | c :: text =>
    match afterCommentEnd? (c :: text) with
    | some rest => ([], rest)
    | none =>
      if isOpenCommentEnd (c :: text) then ([], [])
      else
        let (inside, rest) := readCommentText text
        (c :: inside, rest)

/-- Reads a comment after `<!--`. A `>` or `->` that follows at once ends it too. -/
def readComment (text : List Char) : String × List Char :=
  match text with
  | '>' :: rest => ("", rest)
  | '-' :: '>' :: rest => ("", rest)
  | text =>
    let (inside, rest) := readCommentText text
    (withoutNul inside, rest)

/-- Reads character data after its opening bracket: the text up to `]]>`. -/
def readCharacterData (text : List Char) : List Char × List Char :=
  (splitAtFirst? [']', ']', '>'] text).getD (text, [])

theorem length_readMarkedText_le (text : List Char) :
    (readMarkedText text).2.length ≤ text.length := by
  have := length_dropWhile_le (· ≠ '>') text
  simp only [readMarkedText, List.length_drop]
  omega

theorem length_afterCommentEnd?_le {text rest : List Char} (h : afterCommentEnd? text = some rest) :
    rest.length ≤ text.length := by
  unfold afterCommentEnd? at h
  split at h <;> cases h <;> simp only [List.length_cons] <;> omega

theorem length_readCommentText_le (text : List Char) :
    (readCommentText text).2.length ≤ text.length := by
  induction text with
  | nil => simp [readCommentText]
  | cons c text ih =>
    unfold readCommentText
    split
    · rename_i h; exact length_afterCommentEnd?_le h
    · split
      · simp
      · simp only [List.length_cons]; omega

theorem length_readComment_le (text : List Char) :
    (readComment text).2.length ≤ text.length := by
  unfold readComment
  split
  · simp
  · simp only [List.length_cons]; omega
  · exact length_readCommentText_le _

theorem length_readCharacterData_le (text : List Char) :
    (readCharacterData text).2.length ≤ text.length := by
  unfold readCharacterData
  cases h : splitAtFirst? [']', ']', '>'] text with
  | none => simp
  | some parts =>
    rw [eq_append_of_splitAtFirst? h]
    simp only [Option.getD_some, List.length_append]
    omega

/-! ### Document types -/

/-- Reads a quoted identifier after its opening quote. It ends at the quote or, broken, at `>`. The
last part of the answer is missing if the identifier is broken. -/
def readIdentifier (quote : Char) (text : List Char) : String × Option (List Char) × List Char :=
  let ends c := c == quote || c == '>'
  let identifier := withoutNul (text.takeWhile (!ends ·))
  match text.dropWhile (!ends ·) with
  | c :: rest => (identifier, if c = quote then some rest else none, rest)
  | [] => (identifier, none, [])

def isQuote (c : Char) : Bool :=
  c == '"' || c == '\''

def afterDeclaration (text : List Char) : List Char :=
  (text.dropWhile (· ≠ '>')).drop 1

def readDoctypeEnd (d : Doctype) (text : List Char) : Doctype × List Char :=
  match text.dropWhile isTagBlank with
  | [] => ({ d with broken := true }, [])
  | rest => (d, afterDeclaration rest)

/-- Reads a system identifier, if `required` or given, and what follows it. -/
def readSystem (required : Bool) (d : Doctype) (text : List Char) : Doctype × List Char :=
  match text.dropWhile isTagBlank with
  | [] => ({ d with broken := true }, [])
  | c :: rest =>
    if isQuote c then
      match readIdentifier c rest with
      | (identifier, some rest, _) => readDoctypeEnd { d with systemId := some identifier } rest
      | (identifier, none, rest) => ({ d with systemId := some identifier, broken := true }, rest)
    else ({ d with broken := required || c ≠ '>' }, afterDeclaration (c :: rest))

def readPublic (d : Doctype) (text : List Char) : Doctype × List Char :=
  match text.dropWhile isTagBlank with
  | [] => ({ d with broken := true }, [])
  | c :: rest =>
    if isQuote c then
      match readIdentifier c rest with
      | (identifier, some rest, _) => readSystem false { d with publicId := some identifier } rest
      | (identifier, none, rest) => ({ d with publicId := some identifier, broken := true }, rest)
    else ({ d with broken := true }, afterDeclaration (c :: rest))

def readExternal (d : Doctype) (text : List Char) : Doctype × List Char :=
  match text.dropWhile isTagBlank with
  | [] => ({ d with broken := true }, [])
  | rest =>
    if agree (rest.take 6) ['p', 'u', 'b', 'l', 'i', 'c'] then readPublic d (rest.drop 6)
    else if agree (rest.take 6) ['s', 'y', 's', 't', 'e', 'm'] then readSystem true d (rest.drop 6)
    else ({ d with broken := rest.head? ≠ some '>' }, afterDeclaration rest)

/-- Reads a document type after the word that begins it. -/
def readDoctype (text : List Char) : Doctype × List Char :=
  let text := text.dropWhile isTagBlank
  let ends c := isTagBlank c || c == '>'
  match text with
  | [] => ({ broken := true }, [])
  | '>' :: rest => ({ broken := true }, rest)
  | text =>
    let name := String.ofList ((text.takeWhile (!ends ·)).map nameChar)
    readExternal { name := some name } (text.dropWhile (!ends ·))

theorem length_afterDeclaration_le (text : List Char) :
    (afterDeclaration text).length ≤ text.length := by
  have := length_dropWhile_le (· ≠ '>') text
  simp only [afterDeclaration, List.length_drop]
  omega

theorem length_readIdentifier_le (quote : Char) (text : List Char) :
    (readIdentifier quote text).2.2.length ≤ text.length ∧
      ∀ rest, (readIdentifier quote text).2.1 = some rest → rest.length ≤ text.length := by
  have skipped := length_dropWhile_le (fun c => !(c == quote || c == '>')) text
  unfold readIdentifier
  dsimp only
  split
  · rename_i c rest eq
    rw [eq, List.length_cons] at skipped
    refine ⟨by dsimp only; omega, fun after h => ?_⟩
    dsimp only at h
    split at h <;> cases h
    omega
  · exact ⟨Nat.zero_le _, fun _ h => by cases h⟩

theorem length_readDoctypeEnd_le (d : Doctype) (text : List Char) :
    (readDoctypeEnd d text).2.length ≤ text.length := by
  have skipped := length_dropWhile_le isTagBlank text
  unfold readDoctypeEnd
  split
  · simp
  · exact Nat.le_trans (length_afterDeclaration_le _) skipped

theorem length_readSystem_le (required : Bool) (d : Doctype) (text : List Char) :
    (readSystem required d text).2.length ≤ text.length := by
  have skipped := length_dropWhile_le isTagBlank text
  unfold readSystem
  split
  · simp
  · rename_i c rest eq
    have identifier := length_readIdentifier_le c rest
    rw [eq, List.length_cons] at skipped
    split
    · split
      · rename_i found
        rw [found] at identifier
        exact Nat.le_trans (length_readDoctypeEnd_le ..)
          (Nat.le_trans (identifier.2 _ rfl) (Nat.le_of_succ_le skipped))
      · rename_i found
        rw [found] at identifier
        exact Nat.le_trans identifier.1 (Nat.le_of_succ_le skipped)
    · exact Nat.le_trans (length_afterDeclaration_le _) skipped

theorem length_readPublic_le (d : Doctype) (text : List Char) :
    (readPublic d text).2.length ≤ text.length := by
  have skipped := length_dropWhile_le isTagBlank text
  unfold readPublic
  split
  · simp
  · rename_i c rest eq
    have identifier := length_readIdentifier_le c rest
    rw [eq, List.length_cons] at skipped
    split
    · split
      · rename_i found
        rw [found] at identifier
        exact Nat.le_trans (length_readSystem_le ..)
          (Nat.le_trans (identifier.2 _ rfl) (Nat.le_of_succ_le skipped))
      · rename_i found
        rw [found] at identifier
        exact Nat.le_trans identifier.1 (Nat.le_of_succ_le skipped)
    · exact Nat.le_trans (length_afterDeclaration_le _) skipped

theorem length_readExternal_le (d : Doctype) (text : List Char) :
    (readExternal d text).2.length ≤ text.length := by
  have skipped := length_dropWhile_le isTagBlank text
  unfold readExternal
  split
  · simp
  · refine Nat.le_trans ?_ skipped
    split
    · refine Nat.le_trans (length_readPublic_le ..) ?_
      simp only [List.length_drop]; omega
    · split
      · refine Nat.le_trans (length_readSystem_le ..) ?_
        simp only [List.length_drop]; omega
      · exact length_afterDeclaration_le _

theorem length_readDoctype_le (text : List Char) :
    (readDoctype text).2.length ≤ text.length := by
  have skipped := length_dropWhile_le isTagBlank text
  unfold readDoctype
  dsimp only
  refine Nat.le_trans ?_ skipped
  split
  · simp
  · rename_i eq; rw [eq]; exact Nat.le_succ _
  · exact Nat.le_trans (length_readExternal_le ..) (length_dropWhile_le ..)

end PageLint.Html
