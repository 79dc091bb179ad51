import PageLint.Stylesheet.Position
import PageLint.Text.Letters

/-!
# How far a token reaches

Each function here counts the characters that one kind of token takes from the front of a text, so
a token and what follows it are `take` and `drop` of that count.
-/

namespace PageLint.Stylesheet

open Text

/-- Space, tab and the characters that end a line. -/
def isBlank (c : Char) : Bool :=
  c == ' ' || c == '\t' || isNewline c

/-- The characters of which names are made, escapes aside. -/
def isNameChar (c : Char) : Bool :=
  isLetter c || isDigit c || c == '_' || c == '-' || c == '\x00' || 0x80 ≤ c.toNat

/-- The characters that may start a name, escapes and hyphens aside. -/
def isNameStart (c : Char) : Bool :=
  isLetter c || c == '_' || c == '\x00' || 0x80 ≤ c.toNat

/-- Whether a text starts with a backslash that begins an escape: any that no line end follows. -/
def startsEscape : List Char → Bool
  | '\\' :: c :: _ => !isNewline c
  | ['\\'] => true
  | _ => false

/-- Whether a text starts with a name. After a hyphen any backslash will do. -/
def startsName : List Char → Bool
  | '-' :: c :: _ => isNameStart c || c == '-' || c == '\\'
  | '\\' :: rest => startsEscape ('\\' :: rest)
  | c :: _ => isNameStart c
  | [] => false

/-- The length of the blank that may end a hexadecimal escape: one character, or one line end. -/
def escapeBlankLength : List Char → Nat
  | c :: rest => if isNewline c then newlineLength (c :: rest) else if isBlank c then 1 else 0
  | [] => 0

/-- The length of an escape, its backslash left out: up to six hexadecimal digits with a blank
after them, or one character. -/
def escapeLength (text : List Char) : Nat :=
  let digits := ((text.take 6).takeWhile isHexDigit).length
  if digits = 0 then min 1 text.length
  else digits + escapeBlankLength (text.drop digits)

theorem newlineLength_le {c : Char} {rest : List Char} :
    newlineLength (c :: rest) ≤ (c :: rest).length := by
  unfold newlineLength
  split
  · rename_i h; injection h with _ h; subst h; simp
  · simp

theorem escapeBlankLength_le (text : List Char) : escapeBlankLength text ≤ text.length := by
  cases text with
  | nil => simp [escapeBlankLength]
  | cons c rest =>
    have := @newlineLength_le c rest
    simp only [escapeBlankLength, List.length_cons] at *
    repeat' split
    all_goals omega

theorem length_takeWhile_le (p : Char → Bool) (text : List Char) :
    (text.takeWhile p).length ≤ text.length :=
  (List.takeWhile_prefix p).length_le

theorem escapeLength_le (text : List Char) : escapeLength text ≤ text.length := by
  unfold escapeLength
  dsimp only
  split
  · omega
  · have taken := length_takeWhile_le isHexDigit (text.take 6)
    have blank := escapeBlankLength_le (text.drop ((text.take 6).takeWhile isHexDigit).length)
    simp only [List.length_take, List.length_drop] at taken blank
    omega

def nameLength (text : List Char) : Nat :=
  match text with
  | [] => 0
  | c :: rest =>
    if c = '\\' then
      if startsEscape (c :: rest) then
        1 + escapeLength rest + nameLength (rest.drop (escapeLength rest))
      else 0
    else if isNameChar c then 1 + nameLength rest else 0
termination_by text.length
decreasing_by all_goals (simp only [List.length_cons, List.length_drop]; omega)

theorem nameLength_le (text : List Char) : nameLength text ≤ text.length := by
  fun_induction nameLength text with
  | case1 => simp
  | case2 rest _ ih =>
    have := escapeLength_le rest
    simp only [List.length_drop, List.length_cons] at *
    omega
  | case3 => simp
  | case4 c rest _ _ ih => simp only [List.length_cons]; omega
  | case5 => simp

/-- The length of what a backslash takes in a quoted string: a line end, an escape, or nothing at
the end of the text. -/
def stringEscapeLength : List Char → Nat
  | [] => 0
  | c :: rest => if isNewline c then newlineLength (c :: rest) else escapeLength (c :: rest)

theorem stringEscapeLength_le (text : List Char) : stringEscapeLength text ≤ text.length := by
  cases text with
  | nil => simp [stringEscapeLength]
  | cons c rest =>
    have newline := @newlineLength_le c rest
    have escape := escapeLength_le (c :: rest)
    simp only [stringEscapeLength]
    split <;> assumption

/-- The length of a quoted string after its opening quote. It ends after the closing quote, before
a line end that no backslash precedes, or with the text. -/
def stringLength (quote : Char) (text : List Char) : Nat :=
  match text with
  | [] => 0
  | c :: rest =>
    if c = quote then 1
    else if isNewline c then 0
    else if c = '\\' then
      1 + stringEscapeLength rest + stringLength quote (rest.drop (stringEscapeLength rest))
    else 1 + stringLength quote rest
termination_by text.length
decreasing_by all_goals (simp only [List.length_cons, List.length_drop]; omega)

/-- The length of a comment after its two opening characters: up to the first `*/`, or all. -/
def commentLength : List Char → Nat
  | '*' :: '/' :: _ => 2
  | _ :: rest => 1 + commentLength rest
  | [] => 0

theorem commentLength_cons {c : Char} {rest : List Char}
    (no_end : ∀ after, c = '*' → rest = '/' :: after → False) :
    commentLength (c :: rest) = 1 + commentLength rest := by
  rw [commentLength]
  rintro after ⟨⟩ rfl
  exact no_end after rfl rfl

theorem commentLength_ne_zero {text : List Char} (nonempty : text ≠ []) :
    commentLength text ≠ 0 := by
  fun_cases commentLength text with
  | case1 => decide
  | case2 => omega
  | case3 => exact absurd rfl nonempty

def digitsLength (text : List Char) : Nat :=
  (text.takeWhile isDigit).length

theorem digitsLength_le (text : List Char) : digitsLength text ≤ text.length :=
  length_takeWhile_le _ _

/-- The length of a number's fraction: a point with at least one digit, or nothing. -/
def fractionLength : List Char → Nat
  | '.' :: rest => if digitsLength rest = 0 then 0 else 1 + digitsLength rest
  | _ => 0

/-- The length of a number's exponent: `e`, a sign or none, and at least one digit; or nothing. -/
def exponentLength : List Char → Nat
  | e :: rest =>
    let sign := match rest with
      | c :: _ => if c = '+' || c = '-' then 1 else 0
      | [] => 0
    let digits := digitsLength (rest.drop sign)
    if (e = 'e' || e = 'E') && digits != 0 then 1 + sign + digits else 0
  | [] => 0

/-- The length of a number's unit: a percent sign, a name, or nothing. -/
def unitLength (text : List Char) : Nat :=
  match text with
  | '%' :: _ => 1
  | _ => if startsName text then nameLength text else 0

theorem fractionLength_le (text : List Char) : fractionLength text ≤ text.length := by
  unfold fractionLength
  split
  · rename_i rest
    have := digitsLength_le rest
    split <;> simp only [List.length_cons] <;> omega
  · simp

theorem exponentLength_le (text : List Char) : exponentLength text ≤ text.length := by
  cases text with
  | nil => simp [exponentLength]
  | cons e rest =>
    unfold exponentLength
    dsimp only
    generalize hs : (match rest with
      | c :: _ => if c = '+' || c = '-' then 1 else 0
      | [] => 0) = sign
    have := digitsLength_le (rest.drop sign)
    have : sign ≤ rest.length := by
      subst hs
      split
      · split <;> simp
      · simp
    simp only [List.length_drop, List.length_cons] at *
    split <;> omega

/-- The length of a number without its sign, unit included. -/
def numberLength (text : List Char) : Nat :=
  let whole := digitsLength text
  let fraction := fractionLength (text.drop whole)
  let exponent := exponentLength (text.drop (whole + fraction))
  whole + fraction + exponent + unitLength (text.drop (whole + fraction + exponent))

/-- Whether a text starts with the digits of a number, a leading point allowed. -/
def startsNumber : List Char → Bool
  | '.' :: c :: _ => isDigit c
  | c :: _ => isDigit c
  | [] => false

/-- Characters that an unquoted URL cannot hold: quotes, an opening parenthesis and the
control characters other than blanks and null. -/
def endsUrlBadly (c : Char) : Bool :=
  c == '"' || c == '\'' || c == '(' || c == '\x7f' || c == '\x0b' ||
    (1 ≤ c.toNat && c.toNat ≤ 8) || (0x0E ≤ c.toNat && c.toNat ≤ 0x1F)

/-- The length of the rest of a malformed URL: through the first `)` that no backslash precedes. -/
def badUrlLength : List Char → Nat
  | [] => 0
  | ')' :: _ => 1
  | '\\' :: ')' :: rest => 2 + badUrlLength rest
  | '\\' :: '\\' :: rest => 2 + badUrlLength rest
  | _ :: rest => 1 + badUrlLength rest

theorem badUrlLength_le (text : List Char) : badUrlLength text ≤ text.length := by
  fun_induction badUrlLength text <;> simp only [List.length_cons, List.length_nil] <;> omega

/-- The length of the end of an unquoted URL, from the blank after its last character: blanks and
the closing parenthesis, or the rest of a malformed URL. -/
def urlEndLength : List Char → Nat
  | [] => 0
  | c :: rest =>
    if c = ')' then 1
    else if isBlank c then 1 + urlEndLength rest
    else 1 + badUrlLength rest

theorem urlEndLength_le (text : List Char) : urlEndLength text ≤ text.length := by
  induction text with
  | nil => simp [urlEndLength]
  | cons c rest ih =>
    have := badUrlLength_le rest
    unfold urlEndLength
    split
    · simp
    · split <;> simp only [List.length_cons] <;> omega

/-- The length of an unquoted URL from its first character other than a blank. -/
def urlBodyLength (text : List Char) : Nat :=
  match text with
  | [] => 0
  | c :: rest =>
    if isBlank c then urlEndLength (c :: rest)
    else if c = ')' then 1
    else if endsUrlBadly c then 1 + badUrlLength rest
    else if c = '\\' then
      if startsEscape (c :: rest) then
        1 + escapeLength rest + urlBodyLength (rest.drop (escapeLength rest))
      else 1 + badUrlLength rest
    else 1 + urlBodyLength rest
termination_by text.length
decreasing_by all_goals (simp only [List.length_cons, List.length_drop]; omega)

theorem urlBodyLength_le (text : List Char) : urlBodyLength text ≤ text.length := by
  fun_induction urlBodyLength text with
  | case1 => simp
  | case2 => exact urlEndLength_le _
  | case3 => simp
  | case4 c rest _ _ _ => have := badUrlLength_le rest; simp only [List.length_cons]; omega
  | case5 rest _ _ _ _ ih =>
    have := escapeLength_le rest
    simp only [List.length_drop, List.length_cons] at *
    omega
  | case6 rest => have := badUrlLength_le rest; simp only [List.length_cons]; omega
  | case7 c rest _ _ _ _ ih => simp only [List.length_cons]; omega

/-- The length of an unquoted URL after `url(`, or `none` if a quoted one follows. -/
def urlLength? (text : List Char) : Option Nat :=
  let blanks := (text.takeWhile isBlank).length
  match text.drop blanks with
  | [] => some blanks
  | c :: rest =>
    if c = '"' || c = '\'' then none else some (blanks + urlBodyLength (c :: rest))

theorem urlLength?_le {text : List Char} {n : Nat} (h : urlLength? text = some n) :
    n ≤ text.length := by
  have taken := length_takeWhile_le isBlank text
  unfold urlLength? at h
  generalize (text.takeWhile isBlank).length = blanks at h taken
  dsimp only at h
  split at h
  · simp at h; omega
  · rename_i c rest eq
    split at h
    · simp at h
    · have body := urlBodyLength_le (c :: rest)
      rw [← eq] at body h
      simp only [List.length_drop, Option.some.injEq] at body h
      omega

end PageLint.Stylesheet
