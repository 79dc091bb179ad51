import PageLint.Stylesheet.Token

/-!
# What a token starts with

`Opening` sorts characters by what may start with them, and for each sort one equation says which
token it is and how far it reaches.
-/

namespace PageLint.Stylesheet

open Text

def openers : List Char :=
  ['"', '\'', '#', '(', ')', '[', ']', '\x7b', '\x7d', ':', ';', '+', '-', '.', '/', '<', '@', '$',
    '*', '^', '|', '~']

inductive Opening : Char → Prop
  | blank {c} (blank : isBlank c = true) : Opening c
  | quote {c} (quote : c = '"' ∨ c = '\'') : Opening c
  | hash : Opening '#'
  | single {c} (single : c ∈ ['(', ')', '[', ']', '\x7b', '\x7d', ':', ';']) : Opening c
  | sign {c} (sign : c = '+' ∨ c = '-') : Opening c
  | point : Opening '.'
  | slash : Opening '/'
  | angle : Opening '<'
  | keyword : Opening '@'
  | operator {c} (operator : c ∈ ['$', '*', '^', '|', '~']) : Opening c
  | word {c} (no_blank : ¬ isBlank c = true) (no_opener : c ∉ openers) : Opening c

theorem opening (c : Char) : Opening c := by
  by_cases blank : isBlank c = true
  · exact .blank blank
  by_cases opener : c ∈ openers
  · simp only [openers, List.mem_cons, List.not_mem_nil, or_false] at opener
    rcases opener with
      rfl | rfl | rfl | rfl | rfl | rfl | rfl | rfl | rfl | rfl | rfl | rfl | rfl | rfl | rfl |
      rfl | rfl | operator
    · exact .quote (.inl rfl)
    · exact .quote (.inr rfl)
    · exact .hash
    iterate 8 exact .single (by decide)
    · exact .sign (.inl rfl)
    · exact .sign (.inr rfl)
    · exact .point
    · exact .slash
    · exact .angle
    · exact .keyword
    · exact .operator (by simpa using operator)
  · exact .word blank opener

theorem tokenAt_blank {c : Char} (blank : isBlank c = true) (rest : List Char) :
    tokenAt c rest = (.blank, ((c :: rest).takeWhile isBlank).length) := by
  simp only [tokenAt, blank, if_true]

theorem tokenAt_quote {c : Char} (quote : c = '"' ∨ c = '\'') (rest : List Char) :
    tokenAt c rest = (.other, 1 + stringLength c rest) := by
  rcases quote with rfl | rfl <;> rfl

theorem tokenAt_hash (rest : List Char) :
    tokenAt '#' rest =
      (.other, if startsName rest || rest.head?.any (fun d => isDigit d || d = '-')
        then 1 + nameLength rest else 1) := by
  cases rest <;> rfl

theorem tokenAt_single {c : Char} (single : c ∈ ['(', ')', '[', ']', '\x7b', '\x7d', ':', ';'])
    (rest : List Char) : tokenAt c rest = ((tokenAt c []).1, 1) := by
  simp only [List.mem_cons, List.not_mem_nil, or_false] at single
  rcases single with rfl | rfl | rfl | rfl | rfl | rfl | rfl | rfl <;> rfl

theorem tokenAt_sign {c : Char} (sign : c = '+' ∨ c = '-') (rest : List Char) :
    tokenAt c rest =
      if startsNumber rest then (.other, 1 + numberLength rest)
      else if (afterPrefix? ['-', '-', '>'] (c :: rest)).isSome then (.pageComment, 3)
      else if c = '-' && startsName (c :: rest) then nameToken (c :: rest)
      else (.other, 1) := by
  rcases sign with rfl | rfl <;> rfl

theorem tokenAt_point (rest : List Char) :
    tokenAt '.' rest =
      if startsNumber ('.' :: rest) then (.other, numberLength ('.' :: rest))
      else (.other, 1) := rfl

theorem tokenAt_comment (inside : List Char) :
    tokenAt '/' ('*' :: inside) = (.comment, 2 + commentLength inside) := rfl

theorem tokenAt_slash {d : Char} (no_star : d ≠ '*') (rest : List Char) :
    tokenAt '/' (d :: rest) = (.other, 1) := by
  simp [tokenAt, isBlank, isNewline, no_star]

theorem tokenAt_angle (rest : List Char) :
    tokenAt '<' rest =
      if (afterPrefix? ['<', '!', '-', '-'] ('<' :: rest)).isSome then (.pageComment, 4)
      else (.other, 1) := rfl

theorem tokenAt_keyword (rest : List Char) :
    tokenAt '@' rest =
      if startsName rest then
        (.atKeyword (unescape (rest.take (nameLength rest))), 1 + nameLength rest)
      else (.other, 1) := rfl

theorem tokenAt_operator {c : Char} (operator : c ∈ ['$', '*', '^', '|', '~']) (rest : List Char) :
    tokenAt c rest = (.other, if rest.head? = some '=' then 2 else 1) := by
  simp only [List.mem_cons, List.not_mem_nil, or_false] at operator
  cases rest with
  | nil => rcases operator with rfl | rfl | rfl | rfl | rfl <;> rfl
  | cons d rest =>
    by_cases equals : d = '='
    · subst equals
      rcases operator with rfl | rfl | rfl | rfl | rfl <;> rfl
    · rcases operator with rfl | rfl | rfl | rfl | rfl <;>
        simp [tokenAt, isBlank, isNewline, isDigit, equals]

theorem tokenAt_word {c : Char} (no_blank : ¬ isBlank c = true) (no_opener : c ∉ openers)
    (rest : List Char) :
    tokenAt c rest =
      if isDigit c then (.other, numberLength (c :: rest))
      else if startsName (c :: rest) then nameToken (c :: rest)
      else (.other, 1) := by
  simp only [openers, List.mem_cons, List.not_mem_nil, or_false, not_or] at no_opener
  simp [tokenAt, no_blank, no_opener]

end PageLint.Stylesheet
