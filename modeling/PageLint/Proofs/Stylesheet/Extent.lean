import PageLint.Stylesheet.Extent

/-!
# How far a token reaches before a mark

A mark is `;`, a brace or a closing bracket. No name or number goes on with a mark; only what is
still open takes one: a string, a comment, an unquoted URL or an escape. So a count of characters
that leaves out a `;` after the text is the same whatever mark follows.
-/

namespace PageLint.Stylesheet

open Text

def marks : List Char := [';', ')', ']', '\x7b', '\x7d']

/-- A text that is empty or starts with a mark. -/
inductive Marked : List Char → Prop
  | nil : Marked []
  | cons {c rest} (mark : c ∈ marks) : Marked (c :: rest)

variable {text tail : List Char}

theorem Marked.semicolon {rest : List Char} : Marked (';' :: rest) := .cons (by decide)

theorem Marked.cases (marked : Marked tail) :
    tail = [] ∨ ∃ rest, tail = ';' :: rest ∨ tail = ')' :: rest ∨ tail = ']' :: rest ∨
      tail = '\x7b' :: rest ∨ tail = '\x7d' :: rest := by
  cases marked with
  | nil => exact .inl rfl
  | @cons c rest mark =>
    simp only [marks, List.mem_cons, List.not_mem_nil, or_false] at mark
    refine .inr ⟨rest, ?_⟩
    simpa only [List.cons.injEq, and_true] using mark

theorem forall_marks {p : Char → Prop} (semicolon : p ';') (paren : p ')') (bracket : p ']')
    (opening : p '\x7b') (closing : p '\x7d') : ∀ c ∈ marks, p c := by
  simp only [marks, List.mem_cons, List.not_mem_nil, or_false]
  rintro c (rfl | rfl | rfl | rfl | rfl)
  · exact semicolon
  · exact paren
  · exact bracket
  · exact opening
  · exact closing

/-! ### Runs of characters -/

theorem takeWhile_append_cons {p : Char → Bool} {c : Char} {rest : List Char} (stops : ¬ p c = true)
    (text : List Char) : (text ++ c :: rest).takeWhile p = text.takeWhile p := by
  induction text with
  | nil => exact List.takeWhile_cons_of_neg stops
  | cons d text ih => rw [List.cons_append, List.takeWhile_cons, List.takeWhile_cons, ih]

theorem takeWhile_marked (marked : Marked tail) {p : Char → Bool}
    (stops : ∀ c ∈ marks, p c = false) (text : List Char) :
    (text ++ tail).takeWhile p = text.takeWhile p := by
  cases marked with
  | nil => rw [List.append_nil]
  | cons mark => exact takeWhile_append_cons (Bool.eq_false_iff.mp (stops _ mark)) text

theorem afterPrefix?_marked (marked : Marked tail) {start : List Char}
    (no_mark : ∀ c ∈ marks, c ∉ start) (text : List Char) :
    (afterPrefix? start (text ++ tail)).isSome = (afterPrefix? start text).isSome := by
  induction text generalizing start with
  | nil =>
    cases start with
    | nil => rfl
    | cons s start =>
      cases marked with
      | nil => rfl
      | @cons c rest mark =>
        have differ : s ≠ c := fun same => no_mark c mark (same ▸ List.mem_cons_self)
        simp only [List.nil_append, afterPrefix?, if_neg differ]
  | cons c text ih =>
    cases start with
    | nil => rfl
    | cons s start =>
      rw [List.cons_append, afterPrefix?, afterPrefix?]
      split
      · exact ih fun c mark inside => no_mark c mark (List.mem_cons_of_mem _ inside)
      · rfl

/-! ### Escapes and names -/

/-- A text that an escape before it takes nothing of. -/
inductive Apart : List Char → Prop
  | nil : Apart []
  | cons {c rest} (no_digit : isHexDigit c = false) (no_blank : isBlank c = false) :
      Apart (c :: rest)

theorem Marked.apart (marked : Marked tail) : Apart tail := by
  have no_digit : ∀ c ∈ marks, isHexDigit c = false := forall_marks rfl rfl rfl rfl rfl
  have no_blank : ∀ c ∈ marks, isBlank c = false := forall_marks rfl rfl rfl rfl rfl
  cases marked with
  | nil => exact .nil
  | cons mark => exact .cons (no_digit _ mark) (no_blank _ mark)

theorem isNewline_of_no_blank {c : Char} (no_blank : isBlank c = false) : isNewline c = false :=
  (Bool.or_eq_false_iff.mp no_blank).2

theorem newlineLength_apart (apart : Apart tail) (c : Char) (text : List Char) :
    newlineLength (c :: (text ++ tail)) = newlineLength (c :: text) := by
  cases text with
  | nil =>
    cases apart with
    | nil => rfl
    | @cons d _ _ no_blank =>
      have no_feed : d ≠ '\n' := by
        rintro rfl
        cases no_blank
      simp [newlineLength, no_feed]
  | cons d text =>
    unfold newlineLength
    split <;> split <;> simp_all

theorem escapeBlankLength_apart (apart : Apart tail) (text : List Char) :
    escapeBlankLength (text ++ tail) = escapeBlankLength text := by
  cases text with
  | nil =>
    cases apart with
    | nil => rfl
    | cons _ no_blank =>
      rw [List.nil_append, escapeBlankLength, isNewline_of_no_blank no_blank, no_blank]
      rfl
  | cons c text =>
    rw [List.cons_append, escapeBlankLength, newlineLength_apart apart, escapeBlankLength]

/-- An escape with at least one character takes no more of what stands apart. An empty one takes
whatever follows. -/
theorem escapeLength_apart (apart : Apart tail) (nonempty : text ≠ []) :
    escapeLength (text ++ tail) = escapeLength text := by
  have digits :
      ((text ++ tail).take 6).takeWhile isHexDigit = (text.take 6).takeWhile isHexDigit := by
    rw [List.take_append]
    cases apart with
    | nil => rw [List.take_nil, List.append_nil]
    | cons no_digit =>
      cases 6 - text.length with
      | zero => rw [List.take_zero, List.append_nil]
      | succ n => exact takeWhile_append_cons (Bool.eq_false_iff.mp no_digit) _
  have within : ((text.take 6).takeWhile isHexDigit).length ≤ text.length := by
    have taken := length_takeWhile_le isHexDigit (text.take 6)
    rw [List.length_take] at taken
    omega
  have positive := List.length_pos_iff.mpr nonempty
  unfold escapeLength
  dsimp only
  rw [digits, List.drop_append_of_le_length within, escapeBlankLength_apart apart,
    List.length_append]
  split
  · omega
  · rfl

theorem escapeLength_pos (c : Char) (text : List Char) : 0 < escapeLength (c :: text) := by
  unfold escapeLength
  dsimp only
  split
  · rw [List.length_cons]
    omega
  · omega

theorem drop_escape_apart (apart : Apart tail) (nonempty : text ≠ []) :
    (text ++ tail).drop (escapeLength (text ++ tail)) = text.drop (escapeLength text) ++ tail := by
  rw [escapeLength_apart apart nonempty, List.drop_append_of_le_length (escapeLength_le text)]

theorem startsEscape_apart (apart : Apart tail) (c : Char) (text : List Char) :
    startsEscape (c :: text ++ tail) = startsEscape (c :: text) := by
  by_cases backslash : c = '\\'
  · subst backslash
    cases text with
    | nil =>
      cases apart with
      | nil => rfl
      | cons _ no_blank => exact congrArg Bool.not (isNewline_of_no_blank no_blank)
    | cons => rfl
  · simp [startsEscape, backslash]

theorem startsEscape_marked (marked : Marked tail) (text : List Char) :
    startsEscape (text ++ tail) = startsEscape text := by
  cases text with
  | nil => rcases marked.cases with rfl | ⟨rest, rfl | rfl | rfl | rfl | rfl⟩ <;> rfl
  | cons c text => exact startsEscape_apart marked.apart c text

theorem startsName_marked (marked : Marked tail) (text : List Char) :
    startsName (text ++ tail) = startsName text := by
  match text with
  | [] => rcases marked.cases with rfl | ⟨rest, rfl | rfl | rfl | rfl | rfl⟩ <;> rfl
  | c :: text =>
    by_cases hyphen : c = '-'
    · subst hyphen
      cases text with
      | nil => rcases marked.cases with rfl | ⟨rest, rfl | rfl | rfl | rfl | rfl⟩ <;> rfl
      | cons d text => rfl
    · by_cases backslash : c = '\\'
      · subst backslash
        exact startsEscape_marked marked ('\\' :: text)
      · simp [startsName, hyphen]

theorem nameLength_mark {c : Char} (mark : c ∈ marks) (rest : List Char) :
    nameLength (c :: rest) = 0 := by
  have no_backslash : ∀ c ∈ marks, c ≠ '\\' :=
    forall_marks (by decide) (by decide) (by decide) (by decide) (by decide)
  have no_name : ∀ c ∈ marks, isNameChar c = false := forall_marks rfl rfl rfl rfl rfl
  rw [nameLength, if_neg (no_backslash c mark), no_name c mark, if_neg Bool.false_ne_true]

theorem nameLength_escape {rest : List Char} (escape : startsEscape ('\\' :: rest) = true) :
    nameLength ('\\' :: rest) =
      1 + escapeLength rest + nameLength (rest.drop (escapeLength rest)) := by
  rw [nameLength, if_pos rfl, if_pos escape]

/-- A name that leaves out what stands apart after it is the same before anything else that does and
does not go on with it. -/
theorem nameLength_apart {c : Char} {rest : List Char} (other : Apart (c :: rest))
    (whole : nameLength (text ++ c :: rest) ≤ text.length) (apart : Apart tail)
    (stops : nameLength tail = 0) : nameLength (text ++ tail) = nameLength text := by
  fun_induction nameLength text with
  | case1 => exact stops
  | case2 inner escape ih =>
    have still {tail : List Char} (apart : Apart tail) :
        startsEscape ('\\' :: (inner ++ tail)) = true :=
      (startsEscape_apart apart '\\' inner).trans escape
    have nonempty : inner ≠ [] := by
      rintro rfl
      have positive := escapeLength_pos c rest
      rw [List.cons_append, nameLength_escape (still other), List.nil_append, List.length_singleton]
        at whole
      omega
    have reach := escapeLength_le inner
    have read {tail : List Char} (apart : Apart tail) :
        nameLength ('\\' :: inner ++ tail) =
          1 + escapeLength inner + nameLength (inner.drop (escapeLength inner) ++ tail) := by
      rw [List.cons_append, nameLength_escape (still apart), drop_escape_apart apart nonempty,
        escapeLength_apart apart nonempty]
    rw [read other, List.length_cons] at whole
    rw [read apart, ih (by rw [List.length_drop]; omega)]
  | case3 inner no_escape =>
    rw [List.cons_append, nameLength, if_pos rfl, ← List.cons_append,
      startsEscape_apart apart '\\' inner, if_neg no_escape]
  | case4 d inner no_backslash name ih =>
    rw [List.cons_append, nameLength, if_neg no_backslash, if_pos name, List.length_cons] at whole
    rw [List.cons_append, nameLength, if_neg no_backslash, if_pos name, ih (by omega)]
  | case5 d inner no_backslash no_name =>
    rw [List.cons_append, nameLength, if_neg no_backslash, if_neg no_name]

theorem nameLength_marked (marked : Marked tail)
    (whole : nameLength (text ++ [';']) ≤ text.length) :
    nameLength (text ++ tail) = nameLength text := by
  refine nameLength_apart Marked.semicolon.apart whole marked.apart ?_
  cases marked with
  | nil => rw [nameLength]
  | cons mark => exact nameLength_mark mark _

/-! ### Strings and comments -/

theorem stringEscapeLength_marked (marked : Marked tail) (nonempty : text ≠ []) :
    stringEscapeLength (text ++ tail) = stringEscapeLength text := by
  obtain ⟨c, rest, rfl⟩ := List.exists_cons_of_ne_nil nonempty
  rw [List.cons_append, stringEscapeLength, newlineLength_apart marked.apart, ← List.cons_append,
    escapeLength_apart marked.apart nonempty, stringEscapeLength]

theorem stringLength_escape {quote : Char} {rest : List Char} (no_quote : ¬ '\\' = quote) :
    stringLength quote ('\\' :: rest) =
      1 + stringEscapeLength rest + stringLength quote (rest.drop (stringEscapeLength rest)) := by
  rw [stringLength, if_neg no_quote, if_neg (by decide), if_pos rfl]

theorem stringLength_marked (marked : Marked tail) {quote : Char}
    (whole : stringLength quote (text ++ [';']) ≤ text.length) :
    stringLength quote (text ++ tail) = stringLength quote text := by
  fun_induction stringLength quote text with
  | case1 =>
    rw [List.nil_append, stringLength] at whole
    split at whole
    · exact absurd whole (by decide)
    · exact absurd whole (by simp [isNewline])
  | case2 rest => rw [List.cons_append, stringLength, if_pos rfl]
  | case3 c rest no_quote newline =>
    rw [List.cons_append, stringLength, if_neg no_quote, if_pos newline]
  | case4 rest no_quote _ ih =>
    have nonempty : rest ≠ [] := by
      rintro rfl
      have taken : stringEscapeLength [';'] = 1 := by decide
      rw [List.cons_append, stringLength_escape no_quote, List.nil_append, taken,
        List.length_singleton] at whole
      omega
    have reach := stringEscapeLength_le rest
    have read {tail : List Char} (marked : Marked tail) :
        stringLength quote ('\\' :: rest ++ tail) =
          1 + stringEscapeLength rest +
            stringLength quote (rest.drop (stringEscapeLength rest) ++ tail) := by
      rw [List.cons_append, stringLength_escape no_quote,
        stringEscapeLength_marked marked nonempty, List.drop_append_of_le_length reach]
    rw [read .semicolon, List.length_cons] at whole
    rw [read marked, ih (by rw [List.length_drop]; omega)]
  | case5 c rest no_quote no_newline no_backslash ih =>
    rw [List.cons_append, stringLength, if_neg no_quote, if_neg no_newline, if_neg no_backslash,
      List.length_cons] at whole
    rw [List.cons_append, stringLength, if_neg no_quote, if_neg no_newline, if_neg no_backslash,
      ih (by omega)]

theorem commentLength_append (tail : List Char)
    (whole : commentLength (text ++ [';']) ≤ text.length) :
    commentLength (text ++ tail) = commentLength text := by
  fun_induction commentLength text with
  | case1 => rfl
  | case2 c rest no_end ih =>
    cases rest with
    | nil =>
      have taken : commentLength [';'] = 1 := rfl
      rw [List.cons_append, commentLength_cons (by simp), List.nil_append, taken] at whole
      exact absurd whole (by simp)
    | cons d rest =>
      have still {tail : List Char} :
          ∀ after, c = '*' → d :: rest ++ tail = '/' :: after → False := by
        rintro _ star slash
        exact no_end rest star (by rw [(List.cons.inj slash).1])
      rw [List.cons_append, commentLength_cons still, List.length_cons] at whole
      rw [List.cons_append, commentLength_cons still, ih (by omega)]
  | case3 => exact absurd whole (by decide)

/-! ### Numbers -/

theorem digitsLength_marked (marked : Marked tail) (text : List Char) :
    digitsLength (text ++ tail) = digitsLength text := by
  rw [digitsLength, takeWhile_marked marked (forall_marks rfl rfl rfl rfl rfl), digitsLength]

theorem fractionLength_marked (marked : Marked tail) (text : List Char) :
    fractionLength (text ++ tail) = fractionLength text := by
  cases text with
  | nil => rcases marked.cases with rfl | ⟨rest, rfl | rfl | rfl | rfl | rfl⟩ <;> rfl
  | cons c rest =>
    by_cases point : c = '.'
    · subst point
      simp only [List.cons_append, fractionLength, digitsLength_marked marked]
    · simp [fractionLength, point]

theorem exponentLength_marked (marked : Marked tail) (text : List Char) :
    exponentLength (text ++ tail) = exponentLength text := by
  match text with
  | [] =>
    rcases marked.cases with rfl | ⟨rest, rfl | rfl | rfl | rfl | rfl⟩ <;> simp [exponentLength]
  | [e] =>
    rcases marked.cases with rfl | ⟨rest, rfl | rfl | rfl | rfl | rfl⟩ <;>
      simp [exponentLength, digitsLength, isDigit]
  | e :: c :: rest =>
    have digits (n : Nat) (short : n ≤ 1) :
        digitsLength ((c :: (rest ++ tail)).drop n) = digitsLength ((c :: rest).drop n) := by
      rw [← List.cons_append, List.drop_append_of_le_length (Nat.le_trans short (by simp)),
        digitsLength_marked marked]
    simp only [exponentLength, List.cons_append]
    split
    · rw [digits 1 (Nat.le_refl 1)]
    · rw [digits 0 (Nat.zero_le 1)]

theorem unitLength_marked (marked : Marked tail)
    (whole : unitLength (text ++ [';']) ≤ text.length) :
    unitLength (text ++ tail) = unitLength text := by
  cases text with
  | nil => rcases marked.cases with rfl | ⟨rest, rfl | rfl | rfl | rfl | rfl⟩ <;> rfl
  | cons c rest =>
    by_cases percent : c = '%'
    · subst percent; rfl
    · have unit (text : List Char) :
          unitLength (c :: text) =
            if startsName (c :: text) then nameLength (c :: text) else 0 := by
        simp [unitLength, percent]
      rw [List.cons_append, unit, ← List.cons_append, startsName_marked .semicolon] at whole
      rw [List.cons_append, unit, ← List.cons_append, startsName_marked marked, unit]
      split
      · rename_i starts
        rw [if_pos starts] at whole
        exact nameLength_marked marked whole
      · rfl

def digitalLength (text : List Char) : Nat :=
  let whole := digitsLength text
  let fraction := fractionLength (text.drop whole)
  whole + fraction + exponentLength (text.drop (whole + fraction))

theorem numberLength_eq (text : List Char) :
    numberLength text = digitalLength text + unitLength (text.drop (digitalLength text)) := rfl

theorem digitalLength_marked (marked : Marked tail) (text : List Char) :
    digitalLength (text ++ tail) = digitalLength text ∧ digitalLength text ≤ text.length := by
  have digits := digitsLength_le text
  have fraction := fractionLength_le (text.drop (digitsLength text))
  unfold digitalLength
  dsimp only
  rw [digitsLength_marked marked, List.drop_append_of_le_length digits,
    fractionLength_marked marked]
  generalize fractionLength (text.drop (digitsLength text)) = length at *
  rw [List.length_drop] at fraction
  have exponent := exponentLength_le (text.drop (digitsLength text + length))
  rw [List.drop_append_of_le_length (by omega), exponentLength_marked marked]
  rw [List.length_drop] at exponent
  exact ⟨rfl, by omega⟩

theorem numberLength_marked (marked : Marked tail)
    (whole : numberLength (text ++ [';']) ≤ text.length) :
    numberLength (text ++ tail) = numberLength text := by
  have read {tail : List Char} (marked : Marked tail) :
      numberLength (text ++ tail) =
        digitalLength text + unitLength (text.drop (digitalLength text) ++ tail) := by
    obtain ⟨same, reach⟩ := digitalLength_marked marked text
    rw [numberLength_eq, same, List.drop_append_of_le_length reach]
  rw [read .semicolon] at whole
  rw [read marked, unitLength_marked marked (by rw [List.length_drop]; omega), numberLength_eq]

theorem startsNumber_marked (marked : Marked tail) (text : List Char) :
    startsNumber (text ++ tail) = startsNumber text := by
  match text with
  | [] => rcases marked.cases with rfl | ⟨rest, rfl | rfl | rfl | rfl | rfl⟩ <;> rfl
  | c :: text =>
    by_cases point : c = '.'
    · subst point
      cases text with
      | nil => rcases marked.cases with rfl | ⟨rest, rfl | rfl | rfl | rfl | rfl⟩ <;> rfl
      | cons d text => rfl
    · simp [startsNumber, point]

/-! ### Unquoted URLs -/

theorem badUrlLength_cons {c : Char} {rest : List Char} (no_end : c ≠ ')')
    (no_escape : c = '\\' → ∀ after, rest ≠ ')' :: after ∧ rest ≠ '\\' :: after) :
    badUrlLength (c :: rest) = 1 + badUrlLength rest := by
  rw [badUrlLength]
  · exact no_end
  · rintro after rfl paren
    exact (no_escape rfl after).1 paren
  · rintro after rfl backslash
    exact (no_escape rfl after).2 backslash

theorem badUrlLength_append (tail : List Char)
    (whole : badUrlLength (text ++ [';']) ≤ text.length) :
    badUrlLength (text ++ tail) = badUrlLength text := by
  fun_induction badUrlLength text with
  | case1 => exact absurd whole (by decide)
  | case2 => rfl
  | case3 rest ih =>
    simp only [List.cons_append, badUrlLength, List.length_cons] at whole ⊢
    rw [ih (by omega)]
  | case4 rest ih =>
    simp only [List.cons_append, badUrlLength, List.length_cons] at whole ⊢
    rw [ih (by omega)]
  | case5 c rest no_end no_paren no_backslash ih =>
    cases rest with
    | nil =>
      have taken : badUrlLength [';'] = 1 := rfl
      rw [List.cons_append, badUrlLength_cons no_end (by simp), List.nil_append, taken] at whole
      exact absurd whole (by simp)
    | cons d rest =>
      have still {tail : List Char} (backslash : c = '\\') (after : List Char) :
          d :: rest ++ tail ≠ ')' :: after ∧ d :: rest ++ tail ≠ '\\' :: after := by
        constructor
        · intro same
          exact no_paren rest backslash (by rw [(List.cons.inj same).1])
        · intro same
          exact no_backslash rest backslash (by rw [(List.cons.inj same).1])
      rw [List.cons_append, badUrlLength_cons no_end still, List.length_cons] at whole
      rw [List.cons_append, badUrlLength_cons no_end still, ih (by omega)]

theorem urlEndLength_append (tail : List Char)
    (whole : urlEndLength (text ++ [';']) ≤ text.length) :
    urlEndLength (text ++ tail) = urlEndLength text := by
  induction text with
  | nil => exact absurd whole (by decide)
  | cons c rest ih =>
    simp only [List.cons_append, urlEndLength, List.length_cons] at whole ⊢
    split
    · rfl
    · rename_i no_end
      rw [if_neg no_end] at whole
      split
      · rename_i blank
        rw [if_pos blank] at whole
        rw [ih (by omega)]
      · rename_i no_blank
        rw [if_neg no_blank] at whole
        rw [badUrlLength_append tail (by omega)]

theorem urlBodyLength_backslash (rest : List Char) :
    urlBodyLength ('\\' :: rest) =
      if startsEscape ('\\' :: rest) then
        1 + escapeLength rest + urlBodyLength (rest.drop (escapeLength rest))
      else 1 + badUrlLength rest := by
  rw [urlBodyLength, if_neg (by decide), if_neg (by decide), if_neg (by decide), if_pos rfl]

theorem urlBodyLength_marked (marked : Marked tail)
    (whole : urlBodyLength (text ++ [';']) ≤ text.length) :
    urlBodyLength (text ++ tail) = urlBodyLength text := by
  fun_induction urlBodyLength text with
  | case1 => exact absurd whole (by decide +kernel)
  | case2 c rest blank =>
    rw [List.cons_append, urlBodyLength, if_pos blank, ← List.cons_append] at whole ⊢
    exact urlEndLength_append tail whole
  | case3 rest => rw [List.cons_append, urlBodyLength, if_neg (by decide), if_pos rfl]
  | case4 c rest no_blank no_end bad =>
    rw [List.cons_append, urlBodyLength, if_neg no_blank, if_neg no_end, if_pos bad,
      List.length_cons] at whole
    rw [List.cons_append, urlBodyLength, if_neg no_blank, if_neg no_end, if_pos bad,
      badUrlLength_append tail (by omega)]
  | case5 rest _ _ _ escape ih =>
    have nonempty : rest ≠ [] := by
      rintro rfl
      exact absurd whole (by decide +kernel)
    have reach := escapeLength_le rest
    have read {tail : List Char} (marked : Marked tail) :
        urlBodyLength ('\\' :: rest ++ tail) =
          1 + escapeLength rest + urlBodyLength (rest.drop (escapeLength rest) ++ tail) := by
      have still : startsEscape ('\\' :: (rest ++ tail)) = true :=
        (startsEscape_marked marked ('\\' :: rest)).trans escape
      rw [List.cons_append, urlBodyLength_backslash, if_pos still,
        drop_escape_apart marked.apart nonempty, escapeLength_apart marked.apart nonempty]
    rw [read .semicolon, List.length_cons] at whole
    rw [read marked, ih (by rw [List.length_drop]; omega)]
  | case6 rest _ _ _ no_escape =>
    have read {tail : List Char} (marked : Marked tail) :
        urlBodyLength ('\\' :: rest ++ tail) = 1 + badUrlLength (rest ++ tail) := by
      have still : ¬ startsEscape ('\\' :: (rest ++ tail)) = true :=
        fun escape => no_escape ((startsEscape_marked marked ('\\' :: rest)).symm.trans escape)
      rw [List.cons_append, urlBodyLength_backslash, if_neg still]
    rw [read .semicolon, List.length_cons] at whole
    rw [read marked, badUrlLength_append tail (by omega)]
  | case7 c rest no_blank no_end good no_backslash ih =>
    rw [List.cons_append, urlBodyLength, if_neg no_blank, if_neg no_end, if_neg good,
      if_neg no_backslash, List.length_cons] at whole
    rw [List.cons_append, urlBodyLength, if_neg no_blank, if_neg no_end, if_neg good,
      if_neg no_backslash, ih (by omega)]

theorem urlLength?_marked (marked : Marked tail)
    (whole : ∀ n, urlLength? (text ++ [';']) = some n → n ≤ text.length) :
    urlLength? (text ++ tail) = urlLength? text := by
  have blanks {tail : List Char} (marked : Marked tail) :
      (text ++ tail).takeWhile isBlank = text.takeWhile isBlank :=
    takeWhile_marked marked (forall_marks rfl rfl rfl rfl rfl) text
  have reach := length_takeWhile_le isBlank text
  have after : (text.drop (text.takeWhile isBlank).length).length =
      text.length - (text.takeWhile isBlank).length := List.length_drop
  unfold urlLength? at whole ⊢
  rw [blanks .semicolon] at whole
  rw [blanks marked]
  dsimp only at whole ⊢
  rw [List.drop_append_of_le_length reach] at whole ⊢
  cases rest : text.drop (text.takeWhile isBlank).length with
  | nil =>
    have taken : urlBodyLength [';'] = 1 := by decide +kernel
    rw [rest] at whole after
    have short := whole _ (if_neg (by decide))
    rw [taken] at short
    rw [List.length_nil] at after
    omega
  | cons c rest' =>
    rw [rest] at whole after
    simp only [List.cons_append] at whole ⊢
    split
    · rfl
    · rename_i no_quote
      rw [if_neg no_quote] at whole
      have short := whole _ rfl
      rw [← List.cons_append] at short ⊢
      rw [urlBodyLength_marked marked (by omega)]

end PageLint.Stylesheet
