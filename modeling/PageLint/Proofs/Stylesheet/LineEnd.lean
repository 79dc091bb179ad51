import Mathlib.Data.List.TakeWhile
import PageLint.Proofs.Stylesheet.Opening

/-!
# Tokens keep line ends whole

A carriage return and its line feed end one line, so the position after a text is that after its
parts only if no cut comes between the two. `clean_tokenAt` says that the end of a token never does.
-/

namespace PageLint.Stylesheet

open Text

/-- A cut after `n` characters does not come between a carriage return and its line feed. -/
def Clean (text : List Char) (n : Nat) : Prop :=
  ∀ m, n = m + 1 → text[m]? = some '\r' → text[m + 1]? ≠ some '\n'

variable {text rest : List Char} {c : Char} {m n : Nat}

namespace Clean

theorem zero (text : List Char) : Clean text 0 := by
  rintro m ⟨⟩

theorem one (no_return : c ≠ '\r') : Clean (c :: rest) 1 := by
  rintro m ⟨⟩ return_
  exact absurd (Option.some.inj return_) no_return

theorem past (short : text.length ≤ n) : Clean text n := by
  rintro m rfl _ feed
  rw [List.getElem?_eq_none short] at feed
  cases feed

theorem after (back : Clean (text.drop m) n) (front : n ≠ 0 ∨ Clean text m) :
    Clean text (m + n) := by
  cases n with
  | zero => exact front.resolve_left (absurd rfl)
  | succ n =>
    rintro k eq
    obtain rfl : m + n = k := by omega
    have inner := back n rfl
    rwa [List.getElem?_drop, List.getElem?_drop] at inner

theorem add (front : Clean text m) (back : Clean (text.drop m) n) : Clean text (m + n) :=
  back.after (.inr front)

theorem cons (no_return : c ≠ '\r') (back : Clean rest n) : Clean (c :: rest) (1 + n) :=
  (Clean.one no_return).add back

theorem of_prefix {front : List Char} (starts : front <+: text) (no_return : '\r' ∉ front) :
    Clean text front.length := by
  obtain ⟨back, rfl⟩ := starts
  rintro m length is_return _
  rw [List.getElem?_append_left (by omega)] at is_return
  exact no_return (List.mem_of_getElem? is_return)

/-- Only the character after a cut says whether it is clean. -/
theorem prefix_of {a b : List Char} (starts : a <+: b) (clean : Clean b n) : Clean a n := by
  rintro m rfl is_return is_feed
  have same {k : Nat} {d : Char} (found : a[k]? = some d) : b[k]? = some d := by
    obtain ⟨back, rfl⟩ := starts
    obtain ⟨inside, _⟩ := List.getElem?_eq_some_iff.mp found
    rw [List.getElem?_append_left inside, found]
  exact clean m rfl (same is_return) (same is_feed)

/-- A run that takes line feeds, or takes no carriage return, ends clean. -/
theorem takeWhile {p : Char → Bool} (whole : p '\r' = false ∨ p '\n' = true) (text : List Char) :
    Clean text (text.takeWhile p).length := by
  induction text with
  | nil => exact zero []
  | cons c rest ih =>
    by_cases passes : p c = true
    · rw [List.takeWhile_cons_of_pos passes, List.length_cons, Nat.add_comm]
      refine after ih ?_
      by_cases last : (rest.takeWhile p).length = 0
      · refine .inr ?_
        rintro m ⟨⟩ is_return is_feed
        obtain rfl : c = '\r' := Option.some.inj is_return
        cases rest with
        | nil => cases is_feed
        | cons d rest =>
          obtain rfl : d = '\n' := Option.some.inj is_feed
          rcases whole with no_return | feed
          · rw [no_return] at passes
            cases passes
          · rw [List.takeWhile_cons_of_pos feed] at last
            cases last
      · exact .inl last
    · rw [List.takeWhile_cons_of_neg passes]
      exact zero _

end Clean

open Clean

/-! ### Positions -/

theorem advance_cons (p : Position) {c : Char} {rest : List Char}
    (no_pair : ∀ after, c = '\r' → rest = '\n' :: after → False) :
    p.advance (c :: rest) =
      (if isNewline c then (⟨p.line + 1, 1⟩ : Position) else ⟨p.line, p.column + units16 c⟩).advance
        rest := by
  rw [Position.advance]
  rintro after ⟨⟩ rfl
  exact no_pair after rfl rfl

/-- The position after a text is that after its parts, if the cut between them is clean. -/
theorem advance_append (p : Position) {a b : List Char} (clean : Clean (a ++ b) a.length) :
    p.advance (a ++ b) = (p.advance a).advance b := by
  fun_induction Position.advance p a with
  | case1 => rfl
  | case2 p rest ih =>
    refine ih fun m length => ?_
    exact clean (m + 2) (by rw [List.length_cons, List.length_cons, length])
  | case3 p c rest no_pair ih =>
    have still : ∀ after, c = '\r' → rest ++ b = '\n' :: after → False := by
      rintro after rfl feed
      cases rest with
      | nil => exact clean 0 rfl rfl (by rw [List.nil_append] at feed; rw [feed]; rfl)
      | cons d rest =>
        obtain ⟨rfl, -⟩ := List.cons.inj feed
        exact no_pair rest rfl rfl
    rw [List.cons_append, advance_cons p still]
    refine ih fun m length => ?_
    exact clean (m + 1) (by rw [List.length_cons, length])

/-! ### Escapes and names -/

theorem clean_newlineLength (c : Char) (rest : List Char) :
    Clean (c :: rest) (newlineLength (c :: rest)) := by
  unfold newlineLength
  split
  · rename_i eq
    obtain ⟨rfl, rfl⟩ := List.cons.inj eq
    rintro m length is_return
    obtain rfl : m = 1 := by omega
    exact absurd (Option.some.inj is_return) (by decide)
  · rename_i no_pair
    rintro m ⟨⟩ is_return is_feed
    cases rest with
    | nil => cases is_feed
    | cons d rest =>
      obtain rfl := Option.some.inj is_return
      obtain rfl := Option.some.inj is_feed
      exact no_pair rest rfl

theorem clean_escapeBlankLength (text : List Char) : Clean text (escapeBlankLength text) := by
  cases text with
  | nil => exact zero []
  | cons c rest =>
    rw [escapeBlankLength]
    split
    · exact clean_newlineLength c rest
    · rename_i no_newline
      split
      · exact one (by rintro rfl; exact no_newline rfl)
      · exact zero _

theorem clean_escapeLength (no_return : text.head? ≠ some '\r') :
    Clean text (escapeLength text) := by
  have digits : Clean text ((text.take 6).takeWhile isHexDigit).length := by
    refine of_prefix ((List.takeWhile_prefix _).trans (List.take_prefix 6 text)) fun inside => ?_
    exact absurd (List.mem_takeWhile_imp inside) (by decide)
  unfold escapeLength
  dsimp only
  split
  · cases text with
    | nil => exact zero []
    | cons c rest =>
      rw [List.length_cons, Nat.min_eq_left (by omega)]
      exact one fun same => no_return (congrArg some same)
  · exact digits.add (clean_escapeBlankLength _)

theorem head?_of_escape (escape : startsEscape ('\\' :: rest) = true) : rest.head? ≠ some '\r' := by
  cases rest with
  | nil => rintro ⟨⟩
  | cons c rest =>
    rintro is_return
    obtain rfl := Option.some.inj is_return
    exact absurd escape (by simp [startsEscape, isNewline])

theorem clean_nameLength (text : List Char) : Clean text (nameLength text) := by
  fun_induction nameLength text with
  | case1 => exact zero []
  | case2 rest escape ih =>
    rw [Nat.add_assoc]
    exact cons (by decide) ((clean_escapeLength (head?_of_escape escape)).add ih)
  | case3 => exact zero _
  | case4 c rest no_backslash name ih =>
    exact cons (by rintro rfl; exact absurd name (by decide)) ih
  | case5 => exact zero _

/-! ### Strings and comments -/

theorem clean_stringEscapeLength (text : List Char) : Clean text (stringEscapeLength text) := by
  cases text with
  | nil => exact zero []
  | cons c rest =>
    rw [stringEscapeLength]
    split
    · exact clean_newlineLength c rest
    · rename_i no_newline
      refine clean_escapeLength ?_
      rintro is_return
      obtain rfl := Option.some.inj is_return
      exact no_newline rfl

theorem clean_stringLength {quote : Char} (no_return : quote ≠ '\r') (text : List Char) :
    Clean text (stringLength quote text) := by
  fun_induction stringLength quote text with
  | case1 => exact zero []
  | case2 => exact one no_return
  | case3 => exact zero _
  | case4 rest _ _ ih =>
    rw [Nat.add_assoc]
    exact cons (by decide) ((clean_stringEscapeLength rest).add ih)
  | case5 c rest _ no_newline _ ih => exact cons (by rintro rfl; exact no_newline rfl) ih

/-- A cut that takes one character and what a count takes, if the count takes anything there is. -/
theorem Clean.step (back : Clean rest n) (positive : rest ≠ [] → n ≠ 0) :
    Clean (c :: rest) (1 + n) := by
  refine after back ?_
  by_cases last : rest = []
  · exact .inr (past (Nat.le_of_eq (by rw [last]; rfl)))
  · exact .inl (positive last)

theorem clean_commentLength (text : List Char) : Clean text (commentLength text) := by
  fun_induction commentLength text with
  | case1 => exact cons (by decide) (one (by decide))
  | case2 c rest _ ih => exact ih.step commentLength_ne_zero
  | case3 => exact zero []

theorem clean_digitsLength (text : List Char) : Clean text (digitsLength text) :=
  .takeWhile (.inl (by decide)) text

theorem clean_fractionLength (text : List Char) : Clean text (fractionLength text) := by
  unfold fractionLength
  split
  · split
    · exact zero _
    · exact cons (by decide) (clean_digitsLength _)
  · exact zero _

theorem clean_exponentLength (text : List Char) : Clean text (exponentLength text) := by
  cases text with
  | nil => exact zero []
  | cons e rest =>
    obtain ⟨sign, eq⟩ : ∃ sign, exponentLength (e :: rest) =
        if (e = 'e' || e = 'E') && digitsLength (rest.drop sign) != 0 then
          1 + sign + digitsLength (rest.drop sign) else 0 := ⟨_, rfl⟩
    rw [eq]
    split
    · rename_i holds
      rw [Bool.and_eq_true, bne_iff_ne] at holds
      refine after ?_ (.inl holds.2)
      rw [Nat.add_comm]
      exact clean_digitsLength (rest.drop sign)
    · exact zero _

theorem clean_unitLength (text : List Char) : Clean text (unitLength text) := by
  unfold unitLength
  split
  · exact one (by decide)
  · split
    · exact clean_nameLength text
    · exact zero text

theorem clean_numberLength (text : List Char) : Clean text (numberLength text) := by
  unfold numberLength
  have digital := (clean_digitsLength text).add (clean_fractionLength _)
  exact (digital.add (clean_exponentLength _)).add (clean_unitLength _)

theorem badUrlLength_ne_zero (nonempty : text ≠ []) : badUrlLength text ≠ 0 := by
  unfold badUrlLength
  split
  · exact absurd rfl nonempty
  all_goals omega

theorem urlEndLength_ne_zero (nonempty : text ≠ []) : urlEndLength text ≠ 0 := by
  unfold urlEndLength
  split
  · exact absurd rfl nonempty
  · repeat' split
    all_goals omega

theorem clean_badUrlLength (text : List Char) : Clean text (badUrlLength text) := by
  fun_induction badUrlLength text with
  | case1 => exact zero []
  | case2 => exact one (by decide)
  | case3 rest ih => exact (cons (by decide) (one (by decide))).add ih
  | case4 rest ih => exact (cons (by decide) (one (by decide))).add ih
  | case5 c rest _ _ _ ih => exact ih.step badUrlLength_ne_zero

theorem clean_urlEndLength (text : List Char) : Clean text (urlEndLength text) := by
  induction text with
  | nil => exact zero []
  | cons c rest ih =>
    unfold urlEndLength
    split
    · rename_i paren
      exact one (by rw [paren]; decide)
    · split
      · exact ih.step urlEndLength_ne_zero
      · exact (clean_badUrlLength rest).step badUrlLength_ne_zero

theorem clean_urlBodyLength (text : List Char) : Clean text (urlBodyLength text) := by
  fun_induction urlBodyLength text with
  | case1 => exact zero []
  | case2 => exact clean_urlEndLength _
  | case3 => exact one (by decide)
  | case4 c rest no_blank _ _ =>
    exact cons (by rintro rfl; exact no_blank rfl) (clean_badUrlLength rest)
  | case5 rest _ _ _ escape ih =>
    rw [Nat.add_assoc]
    exact cons (by decide) ((clean_escapeLength (head?_of_escape escape)).add ih)
  | case6 rest => exact cons (by decide) (clean_badUrlLength rest)
  | case7 c rest no_blank _ _ _ ih => exact cons (by rintro rfl; exact no_blank rfl) ih

theorem clean_urlLength? (found : urlLength? text = some n) : Clean text n := by
  unfold urlLength? at found
  have blanks : Clean text (text.takeWhile isBlank).length := .takeWhile (.inr (by decide)) text
  dsimp only at found
  split at found
  · cases found
    exact blanks
  · split at found
    · cases found
    · rename_i rest eq _
      cases found
      exact blanks.add (by rw [eq]; exact clean_urlBodyLength _)

theorem clean_nameToken (text : List Char) : Clean text (nameToken text).2 := by
  unfold nameToken
  dsimp only
  split
  · rename_i rest eq
    have opened : Clean text (nameLength text + 1) :=
      (clean_nameLength text).add (by rw [eq]; exact one (by decide))
    split
    · split
      · rename_i m found
        refine opened.add ?_
        rw [← List.drop_drop, eq]
        exact clean_urlLength? found
      · exact opened
    · exact opened
  · exact clean_nameLength text

theorem clean_afterPrefix? {start : List Char} (starts : (afterPrefix? start text).isSome = true)
    (no_return : '\r' ∉ start) : Clean text start.length := by
  obtain ⟨back, found⟩ := Option.isSome_iff_exists.mp starts
  rw [afterPrefix?_eq_some_iff] at found
  exact of_prefix ⟨back, found.symm⟩ no_return

theorem clean_tokenAt (c : Char) (rest : List Char) : Clean (c :: rest) (tokenAt c rest).2 := by
  cases opening c with
  | blank blank =>
    rw [tokenAt_blank blank]
    exact .takeWhile (.inr (by decide)) _
  | quote quote =>
    rw [tokenAt_quote quote]
    rcases quote with rfl | rfl
    · exact cons (by decide) (clean_stringLength (by decide) rest)
    · exact cons (by decide) (clean_stringLength (by decide) rest)
  | hash =>
    rw [tokenAt_hash]
    dsimp only
    split
    · exact cons (by decide) (clean_nameLength rest)
    · exact one (by decide)
  | single single =>
    rw [tokenAt_single single]
    exact one (by rintro rfl; exact absurd single (by decide))
  | sign sign =>
    have no_return : c ≠ '\r' := by rcases sign with rfl | rfl <;> decide
    rw [tokenAt_sign sign]
    repeat' split
    · exact cons no_return (clean_numberLength rest)
    · rename_i page
      exact clean_afterPrefix? page (by decide)
    · exact clean_nameToken _
    · exact one no_return
  | point =>
    rw [tokenAt_point]
    split
    · exact clean_numberLength _
    · exact one (by decide)
  | slash =>
    cases rest with
    | nil => exact one (by decide)
    | cons d rest =>
      by_cases star : d = '*'
      · subst star
        exact (cons (by decide) (one (by decide))).add (clean_commentLength rest)
      · rw [tokenAt_slash star]
        exact one (by decide)
  | angle =>
    rw [tokenAt_angle]
    split
    · rename_i page
      exact clean_afterPrefix? page (by decide)
    · exact one (by decide)
  | keyword =>
    rw [tokenAt_keyword]
    split
    · exact cons (by decide) (clean_nameLength rest)
    · exact one (by decide)
  | operator operator =>
    rw [tokenAt_operator operator]
    have no_return : c ≠ '\r' := by
      rintro rfl
      exact absurd operator (by decide)
    split
    · rename_i equals
      obtain ⟨after, rfl⟩ := List.head?_eq_some_iff.mp equals
      exact cons no_return (one (by decide))
    · exact one no_return
  | word no_blank no_opener =>
    rw [tokenAt_word no_blank no_opener]
    repeat' split
    · exact clean_numberLength _
    · exact clean_nameToken _
    · exact one (by rintro rfl; exact no_blank rfl)

end PageLint.Stylesheet
