import PageLint.Proofs.Stylesheet.Extent
import PageLint.Proofs.Stylesheet.LineEnd

/-!
# Where one token ends and the next begins

If a `;` after a text is a token of its own, nothing in the text is still open that could take it:
no string, comment, unquoted URL or escape. `tokens_marked` says that then the tokens of the text
are the same before any other mark.
-/

namespace PageLint.Stylesheet

open Text

variable {text tail : List Char}

/-! ### One token before a mark -/

theorem nameLength_le_nameToken (text : List Char) : nameLength text ≤ (nameToken text).2 := by
  unfold nameToken
  dsimp only
  split
  · split
    · split <;> omega
    · omega
  · exact Nat.le_refl _

theorem nameToken_marked (marked : Marked tail)
    (whole : (nameToken (text ++ [';'])).2 ≤ text.length) :
    nameToken (text ++ tail) = nameToken text := by
  have name_whole := Nat.le_trans (nameLength_le_nameToken _) whole
  have reach := nameLength_le text
  have after : (text.drop (nameLength text)).length = text.length - nameLength text :=
    List.length_drop
  unfold nameToken at whole ⊢
  rw [nameLength_marked .semicolon name_whole] at whole
  rw [nameLength_marked marked name_whole]
  dsimp only at whole ⊢
  rw [List.take_append_of_le_length reach, List.drop_append_of_le_length reach] at whole ⊢
  cases rest : text.drop (nameLength text) with
  | nil => rcases marked.cases with rfl | ⟨_, rfl | rfl | rfl | rfl | rfl⟩ <;> simp
  | cons d rest' =>
    rw [rest, List.length_cons] at after
    rw [rest] at whole
    by_cases paren : d = '('
    · subst paren
      simp only [List.cons_append] at whole ⊢
      split
      · rename_i url
        rw [if_pos url] at whole
        rw [urlLength?_marked marked]
        intro m found
        rw [found] at whole
        dsimp only at whole
        omega
      · rfl
    · simp [paren]

theorem tokenAt_hash_marked (marked : Marked tail)
    (whole : (tokenAt '#' (text ++ [';'])).2 ≤ text.length + 1) :
    tokenAt '#' (text ++ tail) = tokenAt '#' text := by
  have second {tail : List Char} (marked : Marked tail) :
      (text ++ tail).head?.any (fun d => isDigit d || d = '-') =
        text.head?.any (fun d => isDigit d || d = '-') := by
    cases text with
    | nil => rcases marked.cases with rfl | ⟨_, rfl | rfl | rfl | rfl | rfl⟩ <;> rfl
    | cons => rfl
  rw [tokenAt_hash, second .semicolon, startsName_marked .semicolon] at whole
  rw [tokenAt_hash, second marked, startsName_marked marked, tokenAt_hash]
  dsimp only at whole
  split
  · rename_i named
    rw [if_pos named] at whole
    rw [nameLength_marked marked (by omega)]
  · rfl

theorem tokenAt_sign_marked (marked : Marked tail) {c : Char} (sign : c = '+' ∨ c = '-')
    (whole : (tokenAt c (text ++ [';'])).2 ≤ text.length + 1) :
    tokenAt c (text ++ tail) = tokenAt c text := by
  have no_mark : ∀ c ∈ marks, c ∉ ['-', '-', '>'] :=
    forall_marks (by decide) (by decide) (by decide) (by decide) (by decide)
  rw [tokenAt_sign sign, startsNumber_marked .semicolon, ← List.cons_append,
    afterPrefix?_marked .semicolon no_mark, startsName_marked .semicolon] at whole
  rw [tokenAt_sign sign, startsNumber_marked marked, ← List.cons_append,
    afterPrefix?_marked marked no_mark, startsName_marked marked, tokenAt_sign sign]
  split
  · rename_i number
    rw [if_pos number] at whole
    dsimp only at whole
    rw [numberLength_marked marked (by omega)]
  · rename_i no_number
    rw [if_neg no_number] at whole
    split
    · rfl
    · rename_i no_comment
      rw [if_neg no_comment] at whole
      split
      · rename_i named
        rw [if_pos named] at whole
        exact nameToken_marked marked whole
      · rfl

theorem tokenAt_point_marked (marked : Marked tail)
    (whole : (tokenAt '.' (text ++ [';'])).2 ≤ text.length + 1) :
    tokenAt '.' (text ++ tail) = tokenAt '.' text := by
  rw [tokenAt_point, ← List.cons_append, startsNumber_marked .semicolon] at whole
  rw [tokenAt_point, ← List.cons_append, startsNumber_marked marked, tokenAt_point]
  split
  · rename_i starts
    rw [if_pos starts] at whole
    rw [numberLength_marked marked whole]
  · rfl

theorem tokenAt_slash_marked (marked : Marked tail)
    (whole : (tokenAt '/' (text ++ [';'])).2 ≤ text.length + 1) :
    tokenAt '/' (text ++ tail) = tokenAt '/' text := by
  cases text with
  | nil => rcases marked.cases with rfl | ⟨_, rfl | rfl | rfl | rfl | rfl⟩ <;> rfl
  | cons d rest =>
    by_cases star : d = '*'
    · subst star
      rw [List.cons_append, tokenAt_comment, List.length_cons] at whole
      rw [List.cons_append, tokenAt_comment, commentLength_append _ (by omega), tokenAt_comment]
    · rw [List.cons_append, tokenAt_slash star, tokenAt_slash star]

theorem tokenAt_keyword_marked (marked : Marked tail)
    (whole : (tokenAt '@' (text ++ [';'])).2 ≤ text.length + 1) :
    tokenAt '@' (text ++ tail) = tokenAt '@' text := by
  have reach := nameLength_le text
  rw [tokenAt_keyword, startsName_marked .semicolon] at whole
  rw [tokenAt_keyword, startsName_marked marked, tokenAt_keyword]
  split
  · rename_i named
    rw [if_pos named] at whole
    dsimp only at whole
    rw [nameLength_marked marked (by omega), List.take_append_of_le_length reach]
  · rfl

theorem tokenAt_operator_marked (marked : Marked tail) {c : Char}
    (operator : c ∈ ['$', '*', '^', '|', '~']) (text : List Char) :
    tokenAt c (text ++ tail) = tokenAt c text := by
  have second : (text ++ tail).head? = some '=' ↔ text.head? = some '=' := by
    cases text with
    | nil => rcases marked.cases with rfl | ⟨_, rfl | rfl | rfl | rfl | rfl⟩ <;> simp
    | cons => rfl
  simp only [tokenAt_operator operator, second]

theorem tokenAt_word_marked (marked : Marked tail) {c : Char} (no_blank : ¬ isBlank c = true)
    (no_opener : c ∉ openers) (whole : (tokenAt c (text ++ [';'])).2 ≤ text.length + 1) :
    tokenAt c (text ++ tail) = tokenAt c text := by
  rw [tokenAt_word no_blank no_opener, ← List.cons_append, startsName_marked .semicolon] at whole
  rw [tokenAt_word no_blank no_opener, ← List.cons_append, startsName_marked marked,
    tokenAt_word no_blank no_opener]
  split
  · rename_i digit
    rw [if_pos digit] at whole
    rw [numberLength_marked marked whole]
  · rename_i no_digit
    rw [if_neg no_digit] at whole
    split
    · rename_i named
      rw [if_pos named] at whole
      exact nameToken_marked marked whole
    · rfl

/-- A token that leaves out a `;` after its text is the same before any mark. -/
theorem tokenAt_marked (marked : Marked tail) {c : Char}
    (whole : (tokenAt c (text ++ [';'])).2 ≤ text.length + 1) :
    tokenAt c (text ++ tail) = tokenAt c text := by
  cases opening c with
  | blank blank =>
    have no_mark : ∀ c ∈ marks, isBlank c = false := forall_marks rfl rfl rfl rfl rfl
    rw [tokenAt_blank blank, ← List.cons_append, takeWhile_marked marked no_mark,
      tokenAt_blank blank]
  | quote quote =>
    rw [tokenAt_quote quote] at whole
    dsimp only at whole
    rw [tokenAt_quote quote, stringLength_marked marked (by omega), tokenAt_quote quote]
  | hash => exact tokenAt_hash_marked marked whole
  | single single => rw [tokenAt_single single, tokenAt_single single text]
  | sign sign => exact tokenAt_sign_marked marked sign whole
  | point => exact tokenAt_point_marked marked whole
  | slash => exact tokenAt_slash_marked marked whole
  | angle =>
    have no_mark : ∀ c ∈ marks, c ∉ ['<', '!', '-', '-'] :=
      forall_marks (by decide) (by decide) (by decide) (by decide) (by decide)
    rw [tokenAt_angle, ← List.cons_append, afterPrefix?_marked marked no_mark, tokenAt_angle]
  | keyword => exact tokenAt_keyword_marked marked whole
  | operator operator => exact tokenAt_operator_marked marked operator text
  | word no_blank no_opener => exact tokenAt_word_marked marked no_blank no_opener whole

/-! ### All tokens -/

/-- What follows a text is not read as a part of its last token: a `;` is a token of its own. -/
def EndsBetweenTokens (text : List Char) : Prop :=
  (tokens {} (text ++ [';'])).getLast?.map Token.text = some [';']

instance : Decidable (EndsBetweenTokens text) :=
  inferInstanceAs (Decidable (_ = _))

theorem tokens_cons (p : Position) (c : Char) (rest : List Char) :
    tokens p (c :: rest) =
      ⟨(tokenAt c rest).1, c :: rest.take ((tokenAt c rest).2 - 1), p⟩ ::
        tokens (p.advance (c :: rest.take ((tokenAt c rest).2 - 1)))
          (rest.drop ((tokenAt c rest).2 - 1)) := by
  rw [tokens]

theorem tokens_ne_nil (p : Position) (nonempty : text ≠ []) : tokens p text ≠ [] := by
  obtain ⟨c, rest, rfl⟩ := List.exists_cons_of_ne_nil nonempty
  rw [tokens_cons]
  exact List.cons_ne_nil _ _

theorem clean_token (c : Char) (rest : List Char) :
    Clean (c :: rest) (c :: rest.take ((tokenAt c rest).2 - 1)).length := by
  have found := clean_tokenAt c rest
  rw [List.length_cons, List.length_take]
  by_cases past : rest.length ≤ (tokenAt c rest).2 - 1
  · exact .past (by rw [List.length_cons]; omega)
  by_cases empty : (tokenAt c rest).2 = 0
  · have no_return : c ≠ '\r' := by
      rintro rfl
      rw [tokenAt_blank rfl, List.takeWhile_cons_of_pos rfl] at empty
      cases empty
    rw [empty]
    exact .one no_return
  · rwa [Nat.min_eq_left (by omega), Nat.sub_add_cancel (by omega)]

/-- The position after a token and some of what follows it is reached over the token. -/
theorem advance_token_append (p : Position) (c : Char) (rest : List Char) {more : List Char}
    (follows : more <+: rest.drop ((tokenAt c rest).2 - 1)) :
    p.advance (c :: rest.take ((tokenAt c rest).2 - 1) ++ more) =
      (p.advance (c :: rest.take ((tokenAt c rest).2 - 1))).advance more := by
  refine advance_append p ((clean_token c rest).prefix_of ?_)
  obtain ⟨later, split⟩ := follows
  refine ⟨later, ?_⟩
  rw [List.append_assoc, split, List.cons_append, List.take_append_drop]

theorem advance_token (p : Position) (c : Char) (rest : List Char) :
    p.advance (c :: rest) =
      (p.advance (c :: rest.take ((tokenAt c rest).2 - 1))).advance
        (rest.drop ((tokenAt c rest).2 - 1)) := by
  rw [← advance_token_append p c rest (List.prefix_refl _), List.cons_append,
    List.take_append_drop]

theorem tokens_marked (marked : Marked tail) (p : Position)
    (whole : (tokens p (text ++ [';'])).getLast?.map Token.text = some [';']) :
    tokens p (text ++ tail) = tokens p text ++ tokens (p.advance text) tail := by
  induction n : text.length using Nat.strongRecOn generalizing text p with
  | _ n ih =>
    cases text with
    | nil => rw [tokens.eq_def p []]; rfl
    | cons c rest =>
      rw [List.cons_append, tokens_cons] at whole
      have short : (tokenAt c (rest ++ [';'])).2 ≤ rest.length + 1 := by
        -- A token that takes the `;` as well as `c` would be the last one, and is not `;`.
        refine Nat.le_of_not_lt fun long => ?_
        have all : (rest ++ [';']).length ≤ (tokenAt c (rest ++ [';'])).2 - 1 := by
          rw [List.length_append, List.length_singleton]
          omega
        rw [List.take_of_length_le all, List.drop_eq_nil_of_le all, tokens.eq_def _ []] at whole
        simp at whole
      have same : tokenAt c (rest ++ tail) = tokenAt c rest := tokenAt_marked marked short
      rw [tokenAt_marked .semicolon short] at whole short
      have reach : (tokenAt c rest).2 - 1 ≤ rest.length := by omega
      rw [List.take_append_of_le_length reach, List.drop_append_of_le_length reach] at whole
      rw [List.cons_append, tokens_cons, same, List.take_append_of_le_length reach,
        List.drop_append_of_le_length reach, tokens_cons, advance_token p c rest, List.cons_append]
      have more : tokens (p.advance (c :: rest.take ((tokenAt c rest).2 - 1)))
          (rest.drop ((tokenAt c rest).2 - 1) ++ [';']) ≠ [] := tokens_ne_nil _ (by simp)
      rw [List.getLast?_cons_of_ne_nil more] at whole
      rw [List.length_cons] at n
      rw [ih _ (by rw [List.length_drop]; omega) _ whole rfl]

/-- A mark after a text is a token of its own, and what follows is read as it is anywhere else. -/
theorem tokens_at_mark {c : Char} {kind : TokenKind} (mark : c ∈ marks)
    (single : ∀ rest, tokenAt c rest = (kind, 1)) (whole : EndsBetweenTokens text) :
    ∃ p q, ∀ rest,
      tokens {} (text ++ c :: rest) = tokens {} text ++ ⟨kind, [c], p⟩ :: tokens q rest := by
  refine ⟨Position.advance {} text, (Position.advance {} text).advance [c], fun rest => ?_⟩
  rw [tokens_marked (.cons mark) {} whole, tokens_cons, single]
  rfl

end PageLint.Stylesheet
