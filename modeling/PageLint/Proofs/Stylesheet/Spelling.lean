import PageLint.Proofs.Stylesheet.Boundary

/-!
# The kind of a token and its text

A token's text tells its kind, but for three texts that are read by what follows them: `-`, `\` and
`url(`. `tokenAt_same` says what follows in each case.
-/

namespace PageLint.Stylesheet

open Text

/-- A text from which a token is read that is no comment. -/
def Continues (text : List Char) : Prop :=
  ∃ c rest, text = c :: rest ∧ (isBlank c = true ∨ c = '"' ∨ c = '\'')

/-- A name, a function or a URL with the text `word`, where `rest` follows. -/
inductive Named : (word rest : List Char) → TokenKind → Prop
  | ident {word rest} (whole : nameLength (word ++ rest) = word.length) :
      Named word rest (.ident (unescape word))
  | function {name rest} (whole : nameLength (name ++ '(' :: rest) = name.length)
      (no_url : agree (unescape name) ['u', 'r', 'l'] = true → urlLength? rest = none) :
      Named (name ++ ['(']) rest (.function (unescape name))
  | url {name inside rest} (whole : nameLength (name ++ '(' :: (inside ++ rest)) = name.length)
      (is_url : agree (unescape name) ['u', 'r', 'l'] = true)
      (length : urlLength? (inside ++ rest) = some inside.length) :
      Named (name ++ '(' :: inside) rest .other

def spelledKind (text : List Char) : TokenKind → TokenKind
  | .ident name => if text = ['-'] then .other else .ident name
  | kind => kind

/-- A token that starts with a hyphen and goes on with `tail`, where `rest` follows. -/
inductive Hyphen : (tail rest : List Char) → TokenKind → Prop
  | lone {rest kind} (spelled : spelledKind ['-'] kind = .other) : Hyphen [] rest kind
  | number {d tail rest} (digital : isDigit d = true ∨ d = '.') : Hyphen (d :: tail) rest .other
  | page {rest} : Hyphen ['-', '>'] rest .pageComment
  | name {d tail rest kind} (no_digital : ¬ (isDigit d = true ∨ d = '.'))
      (no_page : d :: tail ≠ ['-', '>']) (named : Named ('-' :: d :: tail) rest kind) :
      Hyphen (d :: tail) rest kind

variable {text rest rest' x y word word' name name' inside inside' : List Char}
  {kind kind' : TokenKind}

/-! ### Names -/

theorem nameLength_paren
    (whole : nameLength (name ++ '(' :: rest) = name.length) (tail : List Char) :
    nameLength (name ++ '(' :: tail) = name.length := by
  have apart (tail : List Char) : Apart ('(' :: tail) := .cons rfl rfl
  have stops (tail : List Char) : nameLength ('(' :: tail) = 0 := by
    rw [nameLength, if_neg (by decide), if_neg (by decide)]
  have short := Nat.le_of_eq whole
  rw [nameLength_apart (apart rest) short (apart rest) (stops rest)] at whole
  rw [nameLength_apart (apart rest) short (apart tail) (stops tail), whole]

theorem isNameChar_of_isNameStart {c : Char} (start : isNameStart c = true) :
    isNameChar c = true := by
  unfold isNameStart at start
  unfold isNameChar
  simp only [Bool.or_eq_true] at start ⊢
  rcases start with ((letter | low_line) | null) | wide
  · exact .inl (.inl (.inl (.inl (.inl letter))))
  · exact .inl (.inl (.inl (.inr low_line)))
  · exact .inl (.inr null)
  · exact .inr wide

theorem nameLength_pos (starts : startsName text = true) : 0 < nameLength text := by
  cases text with
  | nil => cases starts
  | cons c rest =>
    by_cases backslash : c = '\\'
    · subst backslash
      rw [nameLength_escape starts]
      omega
    · have name : isNameChar c = true := by
        by_cases hyphen : c = '-'
        · subst hyphen
          rfl
        · refine isNameChar_of_isNameStart ?_
          simpa [startsName, hyphen, backslash] using starts
      rw [nameLength, if_neg backslash, if_pos name]
      omega

/-- `nameToken` with the name and what follows it set apart. -/
theorem nameToken_append (whole : nameLength (name ++ rest) = name.length) :
    Named ((name ++ rest).take (nameToken (name ++ rest)).2)
      ((name ++ rest).drop (nameToken (name ++ rest)).2) (nameToken (name ++ rest)).1 := by
  unfold nameToken
  dsimp only
  rw [whole, List.take_left, List.drop_left]
  split
  · rename_i after
    have take (n : Nat) : (name ++ '(' :: after).take (name.length + 1 + n) =
        name ++ '(' :: after.take n := by
      rw [Nat.add_assoc, List.take_length_add_append, Nat.add_comm 1, List.take_succ_cons]
    have drop (n : Nat) : (name ++ '(' :: after).drop (name.length + 1 + n) = after.drop n := by
      rw [Nat.add_assoc, List.drop_length_add_append, Nat.add_comm 1, List.drop_succ_cons]
    have opened (no_url : agree (unescape name) ['u', 'r', 'l'] = true → urlLength? after = none) :
        Named ((name ++ '(' :: after).take (name.length + 1))
          ((name ++ '(' :: after).drop (name.length + 1)) (.function (unescape name)) := by
      have front : (name ++ '(' :: after).take (name.length + 1) = name ++ ['('] := take 0
      have back : (name ++ '(' :: after).drop (name.length + 1) = after := drop 0
      rw [front, back]
      exact .function whole no_url
    split
    · rename_i is_url
      split
      · rename_i m found
        have within := urlLength?_le found
        rw [take, drop]
        refine .url ?_ is_url ?_
        · rw [List.take_append_drop, whole]
        · rw [List.take_append_drop, found, List.length_take_of_le within]
      · rename_i quoted
        exact opened fun _ => quoted
    · rename_i no_url
      exact opened fun is_url => absurd is_url no_url
  · rw [List.take_left, List.drop_left]
    exact .ident whole

theorem nameToken_named (text : List Char) :
    Named (text.take (nameToken text).2) (text.drop (nameToken text).2) (nameToken text).1 := by
  have length : (text.take (nameLength text)).length = nameLength text :=
    List.length_take_of_le (nameLength_le text)
  have parts := List.take_append_drop (nameLength text) text
  have whole : nameLength (text.take (nameLength text) ++ text.drop (nameLength text)) =
      (text.take (nameLength text)).length := by
    rw [parts, length]
  have named := nameToken_append whole
  rwa [parts] at named

/-- Where the name before an opening parenthesis ends does not depend on what follows. -/
theorem name_unique (whole : nameLength (name ++ '(' :: rest) = name.length)
    (whole' : nameLength (name' ++ '(' :: rest') = name'.length)
    (same : name ++ '(' :: inside = name' ++ '(' :: inside') : name = name' ∧ inside = inside' := by
  have length : name.length = name'.length := by
    rw [← nameLength_paren whole inside, same, nameLength_paren whole' inside']
  obtain ⟨names, tails⟩ := List.append_inj same length
  exact ⟨names, (List.cons.inj tails).2⟩

/-- A whole name has no opening parenthesis after a shorter one. -/
theorem no_name_with_paren (whole : nameLength (name ++ '(' :: rest) = name.length)
    (inside tail : List Char) :
    nameLength (name ++ '(' :: inside ++ tail) ≠ (name ++ '(' :: inside).length := by
  rw [List.append_assoc, List.cons_append, nameLength_paren whole, List.length_append,
    List.length_cons]
  omega

theorem urlBodyLength_pos (c : Char) (rest : List Char) : 0 < urlBodyLength (c :: rest) := by
  rw [urlBodyLength]
  split
  · unfold urlEndLength
    repeat' split
    all_goals omega
  · repeat' split
    all_goals omega

theorem urlLength?_zero (found : urlLength? text = some 0) : text = [] := by
  unfold urlLength? at found
  dsimp only at found
  split at found
  · rename_i finished
    rw [Option.some.inj found, List.drop_zero] at finished
    exact finished
  · rename_i c rest _
    split at found
    · cases found
    · have positive := urlBodyLength_pos c rest
      have zero := Option.some.inj found
      omega

theorem urlLength?_none (quoted : urlLength? text = none) : Continues text := by
  cases text with
  | nil => cases quoted
  | cons c rest =>
    refine ⟨c, rest, rfl, ?_⟩
    by_cases blank : isBlank c = true
    · exact .inl blank
    · unfold urlLength? at quoted
      rw [List.takeWhile_cons_of_neg blank] at quoted
      by_cases quote : (c = '"' || c = '\'') = true
      · simp only [Bool.or_eq_true, decide_eq_true_eq] at quote
        exact .inr quote
      · cases quoted.symm.trans (if_neg quote)

/-- The text of a name, a function or a URL tells which it is, unless one is cut off by the end of
the text. -/
theorem Named.same (named : Named word rest kind) (named' : Named word' rest' kind')
    (same : word = word') :
    kind = kind' ∨ (rest = [] ∧ Continues rest') ∨ (Continues rest ∧ rest' = []) := by
  cases named with
  | ident whole =>
    cases named' with
    | ident => exact .inl (by rw [same])
    | function whole' =>
      rw [same] at whole
      exact absurd whole (no_name_with_paren whole' [] rest)
    | url whole' =>
      rw [same] at whole
      exact absurd whole (no_name_with_paren whole' _ rest)
  | function whole no_url =>
    cases named' with
    | ident whole' =>
      rw [← same] at whole'
      exact absurd whole' (no_name_with_paren whole [] rest')
    | function whole' =>
      obtain ⟨rfl, _⟩ := name_unique whole whole' same
      exact .inl rfl
    | url whole' is_url length =>
      -- Both are `url(`: a function before a quoted URL, and an empty URL at the end of the text.
      obtain ⟨rfl, rfl⟩ := name_unique whole whole' same
      exact .inr (.inr ⟨urlLength?_none (no_url is_url), urlLength?_zero length⟩)
  | url whole is_url length =>
    cases named' with
    | ident whole' =>
      rw [← same] at whole'
      exact absurd whole' (no_name_with_paren whole _ rest')
    | function whole' no_url =>
      obtain ⟨rfl, rfl⟩ := name_unique whole whole' same
      exact .inr (.inl ⟨urlLength?_zero length, urlLength?_none (no_url is_url)⟩)
    | url => exact .inl rfl

/-! ### Tokens -/

theorem named_cons {c : Char} (starts : startsName (c :: rest) = true) :
    Named (c :: rest.take ((nameToken (c :: rest)).2 - 1))
      (rest.drop ((nameToken (c :: rest)).2 - 1))
      (nameToken (c :: rest)).1 := by
  have named := nameToken_named (c :: rest)
  have positive := Nat.lt_of_lt_of_le (nameLength_pos starts) (nameLength_le_nameToken _)
  obtain ⟨n, length⟩ := Nat.exists_eq_succ_of_ne_zero (Nat.ne_of_gt positive)
  rw [length] at named ⊢
  exact named

/-- A single character that is read as a name is a name. -/
theorem Named.single {c : Char} (no_paren : c ≠ '(') (named : Named word rest kind)
    (one : word = [c]) : nameLength (c :: rest) = 1 ∧ ∃ name, kind = .ident name := by
  have other {name inside : List Char} : name ++ '(' :: inside ≠ [c] := by
    intro same
    have paren : '(' ∈ name ++ '(' :: inside := List.mem_append_right _ List.mem_cons_self
    rw [same] at paren
    exact no_paren (List.mem_singleton.mp paren).symm
  cases named with
  | ident whole =>
    subst one
    exact ⟨whole, _, rfl⟩
  | function => exact absurd one other
  | url => exact absurd one other

theorem digitsLength_pos {c : Char} (digit : isDigit c = true) (rest : List Char) :
    0 < digitsLength (c :: rest) := by
  rw [digitsLength, List.takeWhile_cons_of_pos digit]
  exact Nat.succ_pos _

theorem numberLength_pos (starts : startsNumber text = true) : 0 < numberLength text := by
  unfold startsNumber at starts
  unfold numberLength
  dsimp only
  split at starts
  · rename_i c rest
    have positive := digitsLength_pos starts rest
    have fraction : 0 < fractionLength ('.' :: c :: rest) := by
      rw [fractionLength]
      split <;> omega
    have no_digits : digitsLength ('.' :: c :: rest) = 0 := rfl
    rw [no_digits, List.drop_zero]
    omega
  · rename_i c rest _
    have positive := digitsLength_pos starts rest
    omega
  · cases starts

theorem digital_of_startsNumber {d : Char} (starts : startsNumber (d :: rest) = true) :
    isDigit d = true ∨ d = '.' := by
  by_cases point : d = '.'
  · exact .inr point
  · exact .inl (by simpa [startsNumber, point] using starts)

theorem startsNumber_of_digital {d : Char} (starts : startsName ('-' :: d :: rest) = true)
    (digital : isDigit d = true ∨ d = '.') : startsNumber (d :: rest) = true := by
  have no_point : d ≠ '.' := by
    rintro rfl
    cases starts
  simpa [startsNumber, no_point] using digital

theorem tokenAt_hyphen (rest : List Char) :
    Hyphen (rest.take ((tokenAt '-' rest).2 - 1)) (rest.drop ((tokenAt '-' rest).2 - 1))
      (tokenAt '-' rest).1 := by
  rw [tokenAt_sign (.inr rfl)]
  split
  · rename_i number
    have positive := numberLength_pos number
    cases rest with
    | nil => cases number
    | cons d rest =>
      obtain ⟨n, length⟩ := Nat.exists_eq_succ_of_ne_zero (Nat.ne_of_gt positive)
      rw [length, Nat.add_sub_cancel_left, List.take_succ_cons]
      exact .number (digital_of_startsNumber number)
  · rename_i no_number
    split
    · rename_i page
      obtain ⟨after, found⟩ := Option.isSome_iff_exists.mp page
      obtain rfl : rest = '-' :: '>' :: after :=
        (List.cons.inj (afterPrefix?_eq_some_iff.mp found)).2
      exact .page
    · rename_i no_page
      split
      · rename_i starts
        have starts := (Bool.and_eq_true_iff.mp starts).2
        have named := named_cons starts
        cases tail : rest.take ((nameToken ('-' :: rest)).2 - 1) with
        | nil =>
          rw [tail] at named
          obtain ⟨_, name, ident⟩ := named.single (by decide) rfl
          rw [ident]
          exact .lone rfl
        | cons d tail' =>
          obtain ⟨more, split⟩ := List.take_prefix ((nameToken ('-' :: rest)).2 - 1) rest
          rw [tail, List.cons_append] at split
          rw [tail] at named
          refine .name ?_ ?_ named
          · intro digital
            rw [← split] at starts no_number
            exact no_number (startsNumber_of_digital starts digital)
          · intro page
            rw [← split, ← List.cons_append, page] at no_page
            exact no_page rfl
      · exact .lone rfl

theorem Hyphen.same (hyphen : Hyphen x rest kind) (hyphen' : Hyphen x rest' kind') :
    spelledKind ('-' :: x) kind = spelledKind ('-' :: x) kind' ∨
      (rest = [] ∧ Continues rest') ∨ (Continues rest ∧ rest' = []) := by
  cases hyphen with
  | lone spelled =>
    cases hyphen' with
    | lone spelled' => exact .inl (spelled.trans spelled'.symm)
  | number digital =>
    cases hyphen' with
    | number => exact .inl rfl
    | page => exact absurd digital (by decide)
    | name no_digital => exact absurd digital no_digital
  | page =>
    cases hyphen' with
    | number digital => exact absurd digital (by decide)
    | page => exact .inl rfl
    | name _ no_page => exact absurd rfl no_page
  | name no_digital no_page named =>
    cases hyphen' with
    | number digital => exact absurd digital no_digital
    | page => exact absurd rfl no_page
    | name _ _ named' =>
      refine (named.same named' rfl).imp_left ?_
      rintro rfl
      rfl

theorem tokenAt_plus (rest : List Char) : (tokenAt '+' rest).1 = .other := by
  rw [tokenAt_sign (.inl rfl)]
  split
  · rfl
  · rw [if_neg (by simp [afterPrefix?]), if_neg (by simp)]

theorem tokenAt_slash_other (no_comment : (tokenAt '/' rest).1 ≠ .comment) :
    (tokenAt '/' rest).1 = .other := by
  cases rest with
  | nil => rfl
  | cons d rest =>
    by_cases star : d = '*'
    · subst star
      exact absurd (by rw [tokenAt_comment]) no_comment
    · rw [tokenAt_slash star]

def SameKind (c : Char) (x y : List Char) : Prop :=
  spelledKind (c :: x.take ((tokenAt c x).2 - 1)) (tokenAt c x).1 =
      spelledKind (c :: x.take ((tokenAt c x).2 - 1)) (tokenAt c y).1 ∨
    (x.drop ((tokenAt c x).2 - 1) = [] ∧ Continues (y.drop ((tokenAt c y).2 - 1))) ∨
    (Continues (x.drop ((tokenAt c x).2 - 1)) ∧ y.drop ((tokenAt c y).2 - 1) = [])

theorem SameKind.of_eq {c : Char} (same : (tokenAt c x).1 = (tokenAt c y).1) : SameKind c x y :=
  .inl (by rw [same])

theorem angle_same (same : x.take ((tokenAt '<' x).2 - 1) = y.take ((tokenAt '<' y).2 - 1))
    (page : (afterPrefix? ['<', '!', '-', '-'] ('<' :: x)).isSome = true) :
    (afterPrefix? ['<', '!', '-', '-'] ('<' :: y)).isSome = true := by
  obtain ⟨after, found⟩ := Option.isSome_iff_exists.mp page
  obtain rfl : x = '!' :: '-' :: '-' :: after :=
    (List.cons.inj (afterPrefix?_eq_some_iff.mp found)).2
  refine Decidable.byContradiction fun no_page => ?_
  rw [tokenAt_angle, tokenAt_angle, if_pos page, if_neg no_page] at same
  cases same

theorem keyword_same (same : x.take ((tokenAt '@' x).2 - 1) = y.take ((tokenAt '@' y).2 - 1))
    (starts : startsName x = true) : startsName y = true := by
  refine Decidable.byContradiction fun no_name => ?_
  rw [tokenAt_keyword, tokenAt_keyword, if_pos starts, if_neg no_name] at same
  dsimp only at same
  have length := congrArg List.length same
  have positive := nameLength_pos starts
  have reach := nameLength_le x
  rw [Nat.add_sub_cancel_left, Nat.sub_self, List.length_take_of_le reach, List.take_zero,
    List.length_nil] at length
  omega

/-- A backslash is a name at the end of the text, and none before the end of a line. -/
theorem backslash_same (starts : startsName ('\\' :: x) = true)
    (no_name : ¬ startsName ('\\' :: y) = true)
    (same : x.take ((nameToken ('\\' :: x)).2 - 1) = []) :
    x.drop ((nameToken ('\\' :: x)).2 - 1) = [] ∧ Continues y := by
  have named := named_cons starts
  rw [same] at named
  generalize x.drop ((nameToken ('\\' :: x)).2 - 1) = rest at named
  constructor
  · obtain ⟨one, _⟩ := named.single (by decide) rfl
    cases rest with
    | nil => rfl
    | cons d rest =>
      have positive := escapeLength_pos d rest
      rw [nameLength, if_pos rfl] at one
      split at one
      · omega
      · cases one
  · cases y with
    | nil => exact absurd rfl no_name
    | cons d y =>
      refine ⟨d, y, rfl, .inl ?_⟩
      have newline : isNewline d = true := by simpa [startsName, startsEscape] using no_name
      unfold isBlank
      rw [newline, Bool.or_true]

theorem startsName_cons {c : Char} (no_hyphen : c ≠ '-') (no_backslash : c ≠ '\\')
    (rest : List Char) :
    startsName (c :: rest) = isNameStart c := by
  simp [startsName, no_hyphen]

theorem tokenAt_name {c : Char} (no_blank : ¬ isBlank c = true) (no_opener : c ∉ openers)
    (no_digit : ¬ isDigit c = true) (starts : startsName (c :: rest) = true) :
    tokenAt c rest = nameToken (c :: rest) := by
  rw [tokenAt_word no_blank no_opener, if_neg no_digit, if_pos starts]

theorem tokenAt_no_name {c : Char} (no_blank : ¬ isBlank c = true) (no_opener : c ∉ openers)
    (no_digit : ¬ isDigit c = true) (no_name : ¬ startsName (c :: rest) = true) :
    tokenAt c rest = (.other, 1) := by
  rw [tokenAt_word no_blank no_opener, if_neg no_digit, if_neg no_name]

theorem word_cut_off {c : Char} (no_blank : ¬ isBlank c = true) (no_opener : c ∉ openers)
    (no_digit : ¬ isDigit c = true) (starts : startsName (c :: x) = true)
    (no_name : ¬ startsName (c :: y) = true)
    (same : x.take ((tokenAt c x).2 - 1) = y.take ((tokenAt c y).2 - 1)) :
    x.drop ((tokenAt c x).2 - 1) = [] ∧ Continues (y.drop ((tokenAt c y).2 - 1)) := by
  have backslash : c = '\\' := by
    refine Decidable.byContradiction fun no_backslash => no_name ?_
    have no_hyphen : c ≠ '-' := by
      rintro rfl
      exact no_opener (by decide)
    rw [startsName_cons no_hyphen no_backslash] at starts ⊢
    exact starts
  subst backslash
  rw [tokenAt_name no_blank no_opener no_digit starts,
    tokenAt_no_name no_blank no_opener no_digit no_name] at same ⊢
  exact backslash_same starts no_name same

theorem tokenAt_word_same {c : Char} (no_blank : ¬ isBlank c = true) (no_opener : c ∉ openers)
    (same : x.take ((tokenAt c x).2 - 1) = y.take ((tokenAt c y).2 - 1)) : SameKind c x y := by
  by_cases digit : isDigit c = true
  · have number (rest : List Char) : (tokenAt c rest).1 = .other := by
      rw [tokenAt_word no_blank no_opener, if_pos digit]
    exact .of_eq (by rw [number, number])
  by_cases starts : startsName (c :: x) = true
  · by_cases starts' : startsName (c :: y) = true
    · have read := tokenAt_name no_blank no_opener digit starts
      have read' := tokenAt_name no_blank no_opener digit starts'
      unfold SameKind
      rw [read, read'] at same ⊢
      refine ((named_cons starts).same (named_cons starts') (by rw [same])).imp_left ?_
      intro kinds
      rw [kinds]
    · exact .inr (.inl (word_cut_off no_blank no_opener digit starts starts' same))
  · by_cases starts' : startsName (c :: y) = true
    · obtain ⟨finished, goes⟩ := word_cut_off no_blank no_opener digit starts' starts same.symm
      exact .inr (.inr ⟨goes, finished⟩)
    · exact .of_eq (by rw [tokenAt_no_name no_blank no_opener digit starts,
        tokenAt_no_name no_blank no_opener digit starts'])

theorem tokenAt_same {c : Char} (no_comment : (tokenAt c x).1 ≠ .comment)
    (no_comment' : (tokenAt c y).1 ≠ .comment)
    (same : x.take ((tokenAt c x).2 - 1) = y.take ((tokenAt c y).2 - 1)) : SameKind c x y := by
  cases opening c with
  | blank blank => exact .of_eq (by rw [tokenAt_blank blank, tokenAt_blank blank])
  | quote quote => exact .of_eq (by rw [tokenAt_quote quote, tokenAt_quote quote])
  | hash => exact .of_eq (by rw [tokenAt_hash, tokenAt_hash])
  | single single => exact .of_eq (by rw [tokenAt_single single, tokenAt_single single y])
  | sign sign =>
    rcases sign with rfl | rfl
    · exact .of_eq (by rw [tokenAt_plus, tokenAt_plus])
    · have hyphen' := tokenAt_hyphen y
      rw [← same] at hyphen'
      exact (tokenAt_hyphen x).same hyphen'
  | point =>
    have other (rest : List Char) : (tokenAt '.' rest).1 = .other := by
      rw [tokenAt_point]
      split <;> rfl
    exact .of_eq (by rw [other, other])
  | slash => exact .of_eq (by rw [tokenAt_slash_other no_comment, tokenAt_slash_other no_comment'])
  | angle =>
    have page : (afterPrefix? ['<', '!', '-', '-'] ('<' :: x)).isSome =
        (afterPrefix? ['<', '!', '-', '-'] ('<' :: y)).isSome :=
      Bool.eq_iff_iff.mpr ⟨angle_same same, angle_same same.symm⟩
    refine .of_eq ?_
    rw [tokenAt_angle, tokenAt_angle, page]
  | keyword =>
    have starts : startsName x = startsName y :=
      Bool.eq_iff_iff.mpr ⟨keyword_same same, keyword_same same.symm⟩
    refine .of_eq ?_
    rw [tokenAt_keyword, tokenAt_keyword, starts] at same ⊢
    split
    · rename_i named
      rw [if_pos named, if_pos named, Nat.add_sub_cancel_left, Nat.add_sub_cancel_left] at same
      rw [same]
    · rfl
  | operator operator => exact .of_eq (by rw [tokenAt_operator operator, tokenAt_operator operator])
  | word no_blank no_opener => exact tokenAt_word_same no_blank no_opener same

/-! ### All tokens -/

namespace Token

def written (t : Token) : Option (List Char) :=
  if t.kind = .comment then none else some t.text

/-- A token without its place and with the kind that its text tells, unless it is a comment. -/
def bare (t : Token) : Option Token :=
  if t.kind = .comment then none else some ⟨spelledKind t.text t.kind, t.text, {}⟩

theorem written_comment {t : Token} (comment : t.kind = .comment) : t.written = none :=
  if_pos comment

theorem written_other {t : Token} (no_comment : t.kind ≠ .comment) : t.written = some t.text :=
  if_neg no_comment

theorem bare_comment {t : Token} (comment : t.kind = .comment) : t.bare = none :=
  if_pos comment

theorem bare_other {t : Token} (no_comment : t.kind ≠ .comment) :
    t.bare = some ⟨spelledKind t.text t.kind, t.text, {}⟩ :=
  if_neg no_comment

end Token

theorem written_continues (p : Position) (continues : Continues text) :
    (tokens p text).filterMap Token.written ≠ [] := by
  obtain ⟨c, rest, rfl, start⟩ := continues
  have no_comment : (tokenAt c rest).1 ≠ .comment := by
    rcases start with blank | quote
    · rw [tokenAt_blank blank]
      exact TokenKind.noConfusion
    · rw [tokenAt_quote quote]
      exact TokenKind.noConfusion
  rw [tokens_cons, List.filterMap_cons_some (Token.written_other no_comment)]
  exact List.cons_ne_nil _ _

theorem bare_of_written_nil {ts : List Token} (nothing : ts.filterMap Token.written = []) :
    ts.filterMap Token.bare = [] := by
  rw [List.filterMap_eq_nil_iff] at nothing ⊢
  intro t member
  refine Token.bare_comment ?_
  have no_text := nothing t member
  unfold Token.written at no_text
  split at no_text
  · assumption
  · cases no_text

/-- The tokens of two texts are the same, comments aside, if their texts are. -/
theorem bare_of_written {a b : List Char} {p q : Position}
    (same : (tokens p a).filterMap Token.written = (tokens q b).filterMap Token.written) :
    (tokens p a).filterMap Token.bare = (tokens q b).filterMap Token.bare := by
  -- A comment is skipped on one side at a time, so it is the sum of the lengths that goes down.
  induction n : a.length + b.length using Nat.strongRecOn generalizing a b p q with
  | _ n ih =>
    cases a with
    | nil =>
      rw [tokens.eq_def p []] at same ⊢
      exact (bare_of_written_nil same.symm).symm
    | cons c x =>
      cases b with
      | nil =>
        rw [tokens.eq_def q []] at same ⊢
        exact bare_of_written_nil same
      | cons d y =>
        have shorter : (x.drop ((tokenAt c x).2 - 1)).length ≤ x.length := by
          rw [List.length_drop]
          exact Nat.sub_le _ _
        have shorter' : (y.drop ((tokenAt d y).2 - 1)).length ≤ y.length := by
          rw [List.length_drop]
          exact Nat.sub_le _ _
        rw [List.length_cons, List.length_cons] at n
        by_cases comment : (tokenAt c x).1 = .comment
        · rw [tokens_cons, List.filterMap_cons_none (Token.written_comment comment)] at same
          rw [tokens_cons p c, List.filterMap_cons_none (Token.bare_comment comment)]
          exact ih _ (by rw [List.length_cons]; omega) same rfl
        by_cases comment' : (tokenAt d y).1 = .comment
        · rw [tokens_cons q, List.filterMap_cons_none (Token.written_comment comment')] at same
          rw [tokens_cons q, List.filterMap_cons_none (Token.bare_comment comment')]
          exact ih _ (by rw [List.length_cons]; omega) same rfl
        rw [tokens_cons p, tokens_cons q, List.filterMap_cons_some (Token.written_other comment),
          List.filterMap_cons_some (Token.written_other comment')] at same
        obtain ⟨texts, others⟩ := List.cons.inj same
        obtain ⟨rfl, taken⟩ := List.cons.inj texts
        rw [tokens_cons p, tokens_cons q, List.filterMap_cons_some (Token.bare_other comment),
          List.filterMap_cons_some (Token.bare_other comment'), ih _ (by omega) others rfl]
        dsimp only
        rcases tokenAt_same comment comment' taken with kinds | ⟨finished, goes⟩ | ⟨goes, finished⟩
        · rw [← taken, kinds]
        · rw [finished, tokens] at others
          exact absurd others.symm (written_continues _ goes)
        · rw [finished, tokens.eq_def _ []] at others
          exact absurd others (written_continues _ goes)

/-! ### Lone hyphens -/

def Token.isHyphen (t : Token) : Prop :=
  t.text = ['-'] ∧ ∃ name, t.kind = .ident name

/-- What stands after a lone hyphen that is read as a name is a single character. -/
def HyphensFollowed (ts : List Token) : Prop :=
  ∀ t u, [t, u] <:+: ts → t.isHyphen → u.kind = .other

theorem hyphen_name {name : List Char} (ident : (tokenAt '-' rest).1 = .ident name) :
    startsName ('-' :: rest) = true ∧ tokenAt '-' rest = nameToken ('-' :: rest) := by
  rw [tokenAt_sign (.inr rfl)] at ident ⊢
  by_cases number : startsNumber rest = true
  · rw [if_pos number] at ident
    cases ident
  by_cases page : (afterPrefix? ['-', '-', '>'] ('-' :: rest)).isSome = true
  · rw [if_neg number, if_pos page] at ident
    cases ident
  by_cases starts : ('-' = '-' && startsName ('-' :: rest)) = true
  · rw [if_neg number, if_neg page, if_pos starts]
    exact ⟨(Bool.and_eq_true_iff.mp starts).2, rfl⟩
  · rw [if_neg number, if_neg page, if_neg starts] at ident
    cases ident

theorem hyphen_followed {name : List Char} (ident : (tokenAt '-' rest).1 = .ident name)
    (lone : rest.take ((tokenAt '-' rest).2 - 1) = []) :
    ∃ after, rest = '\\' :: after ∧ tokenAt '\\' after = (.other, 1) := by
  obtain ⟨starts, read⟩ := hyphen_name ident
  rw [read] at lone
  have named := named_cons starts
  have split := List.take_append_drop ((nameToken ('-' :: rest)).2 - 1) rest
  rw [lone, List.nil_append] at split
  rw [lone, split] at named
  obtain ⟨one, _⟩ := named.single (by decide) rfl
  have name_char : isNameChar '-' = true := rfl
  rw [nameLength, if_neg (by decide), if_pos name_char] at one
  have no_name : ¬ startsName rest = true := by
    intro starts
    have positive := nameLength_pos starts
    omega
  cases rest with
  | nil => cases starts
  | cons d after =>
    have start : (isNameStart d || d == '-' || d == '\\') = true := starts
    have no_char (name : isNameChar d = true) : d = '\\' := by
      refine Decidable.byContradiction fun no_backslash => ?_
      rw [nameLength, if_neg no_backslash, if_pos name] at one
      omega
    have backslash : d = '\\' := by
      simp only [Bool.or_eq_true, beq_iff_eq] at start
      rcases start with (start | rfl) | backslash
      · exact no_char (isNameChar_of_isNameStart start)
      · exact no_char rfl
      · exact backslash
    subst backslash
    exact ⟨after, rfl, tokenAt_no_name (by decide) (by decide) (by decide) no_name⟩

theorem tokens_hyphens (p : Position) (text : List Char) : HyphensFollowed (tokens p text) := by
  induction n : text.length using Nat.strongRecOn generalizing text p with
  | _ n ih =>
    cases text with
    | nil =>
      intro t u inside
      rw [tokens] at inside
      cases List.eq_nil_of_infix_nil inside
    | cons c rest =>
      intro t u inside hyphen
      rw [tokens_cons, List.infix_cons_iff] at inside
      rcases inside with here | later
      · obtain ⟨rfl, next⟩ := List.cons_prefix_cons.mp here
        obtain ⟨text, name, ident⟩ := hyphen
        obtain ⟨rfl, lone⟩ := List.cons.inj text
        obtain ⟨after, rfl, read⟩ := hyphen_followed ident lone
        have split := List.take_append_drop ((tokenAt '-' ('\\' :: after)).2 - 1) ('\\' :: after)
        rw [lone, List.nil_append] at split
        rw [split, tokens_cons] at next
        obtain ⟨rfl, _⟩ := List.cons_prefix_cons.mp next
        exact congrArg Prod.fst read
      · rw [List.length_cons] at n
        refine ih _ ?_ _ _ rfl t u later hyphen
        rw [List.length_drop]
        omega

end PageLint.Stylesheet
