import Mathlib.Data.List.Infix
import Mathlib.Data.List.ReduceOption
import PageLint.Proofs.Markup.RawText
import PageLint.Proofs.Markup.Returns

/-!
# How a source falls into segments

`Segmentation` says what text, comments, start tags and raw texts are, and how they follow each other
in a source. Every source has one segmentation, the one that `segments` reads, and what it hides are
its comments, its raw texts and the quoted values in its start tags. `segmentation_exact` says this,
and that a reader may start over in front of any segment but a raw text.
-/

namespace PageLint.Markup

open Text

/-! ### Runs up to a mark -/

/-- Whether a run goes on up to the first place at which a property holds of what is left, or to the
end of the text: `rest` is what is left behind the run. -/
structure Reaches (mark : List Char → Prop) (run rest : List Char) : Prop where
  unmarked : ∀ front back, run = front ++ back → back ≠ [] → ¬ mark (back ++ rest)
  stops : rest = [] ∨ mark rest

theorem reaches_nil_iff {mark : List Char → Prop} {rest : List Char} :
    Reaches mark [] rest ↔ rest = [] ∨ mark rest := by
  constructor
  · exact Reaches.stops
  · intro stops
    refine ⟨?_, stops⟩
    intro front back split nonempty
    exact absurd (List.append_eq_nil_iff.mp split.symm).2 nonempty

theorem reaches_cons_iff {mark : List Char → Prop} {c : Char} {run rest : List Char} :
    Reaches mark (c :: run) rest ↔ ¬ mark (c :: (run ++ rest)) ∧ Reaches mark run rest := by
  constructor
  · rintro ⟨unmarked, stops⟩
    refine ⟨unmarked [] (c :: run) rfl (List.cons_ne_nil c run), ?_, stops⟩
    intro front back split
    exact unmarked (c :: front) back (by rw [split, List.cons_append])
  · rintro ⟨first, later⟩
    refine ⟨?_, later.stops⟩
    intro front back split nonempty
    cases front with
    | nil =>
      rw [List.nil_append] at split
      rwa [← split]
    | cons d front => exact later.unmarked front back (List.cons.inj split).2 nonempty

def splitBefore (test : List Char → Bool) : List Char → List Char × List Char
  | [] => ([], [])
  | c :: rest =>
    if test (c :: rest) then ([], c :: rest)
    else (c :: (splitBefore test rest).1, (splitBefore test rest).2)

theorem splitBefore_eq_iff {test : List Char → Bool} {mark : List Char → Prop}
    (tests : ∀ text, test text = true ↔ mark text) {text run rest : List Char} :
    splitBefore test text = (run, rest) ↔ text = run ++ rest ∧ Reaches mark run rest := by
  induction text generalizing run with
  | nil =>
    rw [splitBefore, Prod.mk.injEq, List.nil_eq_append_iff]
    constructor
    · rintro ⟨rfl, rfl⟩
      exact ⟨⟨rfl, rfl⟩, reaches_nil_iff.mpr (.inl rfl)⟩
    · rintro ⟨⟨rfl, rfl⟩, _⟩
      exact ⟨rfl, rfl⟩
  | cons c text ih =>
    rw [splitBefore]
    split
    · rename_i passes
      have marked := (tests _).mp passes
      rw [Prod.mk.injEq]
      constructor
      · rintro ⟨rfl, rfl⟩
        exact ⟨rfl, reaches_nil_iff.mpr (.inr marked)⟩
      · rintro ⟨whole, reaches⟩
        cases run with
        | nil => exact ⟨rfl, whole⟩
        | cons d run =>
          rw [whole] at marked
          exact absurd marked (reaches_cons_iff.mp reaches).1
    · rename_i fails
      have unmarked : ¬ mark (c :: text) := fun marked => fails ((tests _).mpr marked)
      constructor
      · intro split
        obtain ⟨rfl, rfl⟩ := Prod.mk.inj split
        obtain ⟨whole, reaches⟩ := ih.mp rfl
        exact ⟨by rw [List.cons_append, ← whole], reaches_cons_iff.mpr ⟨whole ▸ unmarked, reaches⟩⟩
      · rintro ⟨whole, reaches⟩
        cases run with
        | nil =>
          rcases reaches_nil_iff.mp reaches with rfl | marked
          · cases whole
          · exact absurd (whole ▸ marked) unmarked
        | cons d run =>
          obtain ⟨rfl, split⟩ := List.cons.inj whole
          rw [ih.mpr ⟨split, (reaches_cons_iff.mp reaches).2⟩]

theorem splitText_eq_splitBefore (text : List Char) :
    splitText text = splitBefore startsMarkup text := by
  induction text with
  | nil => rfl
  | cons c text ih => rw [splitText, splitBefore, ih]

theorem splitRaw_eq_splitBefore (element text : List Char) :
    splitRaw element text = splitBefore (startsWith ('<' :: '/' :: element)) text := by
  induction text with
  | nil => rfl
  | cons c text ih => rw [splitRaw, splitBefore, ih]

/-! ### What segments are -/

def BeginsMarkup (text : List Char) : Prop :=
  commentStart <+: text ∨ ∃ c rest, text = '<' :: c :: rest ∧ isLetter c = true

def EndsInEquals (parts : List TagPart) : Prop :=
  ∃ (front : List TagPart) (blanks : List Char), parts = front ++ .plain '=' :: blanks.map .plain ∧
    ∀ c ∈ blanks, isAsciiBlank c = true

def OpensQuote (before : List TagPart) (c : Char) : Prop :=
  EndsInEquals before ∧ (c = '"' ∨ c = '\'')

/-- The parts of a start tag behind other parts of it: up to and with the first `>` that is in no
quoted value, or to the end of the text, and then nothing follows it. A quoted value goes up to and
with the next quote of its kind, or to the end of the text. -/
inductive TagReading : List TagPart → List Char → List TagPart → Option (List Char) → Prop
  | finished {before : List TagPart} {rest : List Char} :
    TagReading before ('>' :: rest) [.plain '>'] (some rest)
  | cut {before : List TagPart} : TagReading before [] [] none
  | plain {before parts : List TagPart} {c : Char} {text : List Char} {rest : Option (List Char)}
    (inside : c ≠ '>') (unquoted : ¬ OpensQuote before c)
    (later : TagReading (before ++ [.plain c]) text parts rest) :
    TagReading before (c :: text) (.plain c :: parts) rest
  | quoted {before parts : List TagPart} {quote : Char} {value text : List Char}
    {rest : Option (List Char)} (opens : OpensQuote before quote) (inside : quote ∉ value)
    (later : TagReading (before ++ [.quoted (quote :: value ++ [quote])]) text parts rest) :
    TagReading before (quote :: (value ++ quote :: text))
      (.quoted (quote :: value ++ [quote]) :: parts) rest
  | openQuote {before : List TagPart} {quote : Char} {value : List Char}
    (opens : OpensQuote before quote) (inside : quote ∉ value) :
    TagReading before (quote :: value) [.quoted (quote :: value)] none

inductive StartTag : List Char → List Char → List TagPart → Option (List Char) → Prop
  | intro {name behind : List Char} {parts : List TagPart} {rest : Option (List Char)}
    (letter : name.head?.any isLetter = true) (word : name.all isNameChar = true)
    (ends : behind.head?.any isNameChar = false)
    (reading : TagReading (('<' :: name).map .plain) behind parts rest) :
    StartTag ('<' :: (name ++ behind)) name (('<' :: name).map .plain ++ parts) rest

inductive Segmentation : List Char → List Segment → Prop
  | done : Segmentation [] []
  | text {run rest : List Char} {later : List Segment} (nonempty : run ≠ [])
    (reaches : Reaches BeginsMarkup run rest) (next : Segmentation rest later) :
    Segmentation (run ++ rest) (.text run :: later)
  | comment {inside rest : List Char} {later : List Segment}
    (reaches : Reaches (commentEnd <+: ·) inside (commentEnd ++ rest))
    (next : Segmentation rest later) :
    Segmentation (commentStart ++ (inside ++ (commentEnd ++ rest)))
      (.comment (commentStart ++ inside ++ commentEnd) :: later)
  | openComment {inside : List Char} (reaches : Reaches (commentEnd <+: ·) inside []) :
    Segmentation (commentStart ++ inside) [.comment (commentStart ++ inside)]
  | startTag {text name rest : List Char} {parts : List TagPart} {later : List Segment}
    (tag : StartTag text name parts (some rest))
    (ordinary : rest = [] ∨ lower name ∉ rawTextElements) (next : Segmentation rest later) :
    Segmentation text (.startTag parts :: later)
  | openTag {text name : List Char} {parts : List TagPart} (tag : StartTag text name parts none) :
    Segmentation text [.startTag parts]
  /-- a raw text follows a start tag that is not the last of the source -/
  | rawText {text name body rest : List Char} {parts : List TagPart} {later : List Segment}
    (tag : StartTag text name parts (some (body ++ rest))) (nonempty : body ++ rest ≠ [])
    (raw : lower name ∈ rawTextElements)
    (reaches : Reaches (lower ('<' :: '/' :: name) <+: lower ·) body rest)
    (next : Segmentation rest later) :
    Segmentation text (.startTag parts :: .rawText body :: later)

/-! ### Reading segments -/

theorem isSome_afterPrefix?_iff {start text : List Char} :
    (afterPrefix? start text).isSome = true ↔ start <+: text := by
  rw [Option.isSome_iff_exists]
  constructor
  · rintro ⟨rest, found⟩
    exact ⟨rest, (afterPrefix?_eq_some_iff.mp found).symm⟩
  · rintro ⟨rest, whole⟩
    exact ⟨rest, afterPrefix?_eq_some_iff.mpr whole.symm⟩

theorem startsMarkup_iff {text : List Char} : startsMarkup text = true ↔ BeginsMarkup text := by
  unfold startsMarkup
  rw [Bool.or_eq_true, isSome_afterPrefix?_iff, BeginsMarkup]
  refine or_congr_right ?_
  constructor
  · intro letter
    split at letter
    · exact ⟨_, _, rfl, letter⟩
    · cases letter
  · rintro ⟨c, rest, rfl, letter⟩
    exact letter

theorem splitAtFirst?_marked {mark inside rest : List Char} (nonempty : mark ≠ [])
    (reaches : Reaches (mark <+: ·) inside (mark ++ rest)) :
    splitAtFirst? mark (inside ++ (mark ++ rest)) = some (inside, rest) := by
  induction inside with
  | nil =>
    have found : afterPrefix? mark (mark ++ rest) = some rest := afterPrefix?_eq_some_iff.mpr rfl
    obtain ⟨m, mark, rfl⟩ := List.exists_cons_of_ne_nil nonempty
    rw [List.nil_append]
    rw [List.cons_append] at found ⊢
    rw [splitAtFirst?, found]
  | cons c inside ih =>
    obtain ⟨unmarked, later⟩ := reaches_cons_iff.mp reaches
    have none : afterPrefix? mark (c :: (inside ++ (mark ++ rest))) = none :=
      Option.not_isSome_iff_eq_none.mp (isSome_afterPrefix?_iff.not.mpr unmarked)
    rw [List.cons_append, splitAtFirst?, none, ih later]
    rfl

theorem splitAtFirst?_unmarked {mark text : List Char} (nonempty : mark ≠ [])
    (reaches : Reaches (mark <+: ·) text []) : splitAtFirst? mark text = none := by
  induction text with
  | nil =>
    obtain ⟨m, mark, rfl⟩ := List.exists_cons_of_ne_nil nonempty
    rfl
  | cons c text ih =>
    obtain ⟨unmarked, later⟩ := reaches_cons_iff.mp reaches
    rw [List.append_nil] at unmarked
    have none : afterPrefix? mark (c :: text) = none :=
      Option.not_isSome_iff_eq_none.mp (isSome_afterPrefix?_iff.not.mpr unmarked)
    rw [splitAtFirst?, none, ih later]
    rfl

theorem splitComment_closed {inside rest : List Char}
    (reaches : Reaches (commentEnd <+: ·) inside (commentEnd ++ rest)) :
    splitComment (inside ++ (commentEnd ++ rest)) =
      (commentStart ++ inside ++ commentEnd, rest) := by
  rw [splitComment, splitAtFirst?_marked (by decide) reaches]

theorem splitComment_open {inside : List Char} (reaches : Reaches (commentEnd <+: ·) inside []) :
    splitComment inside = (commentStart ++ inside, []) := by
  rw [splitComment, splitAtFirst?_unmarked (by decide) reaches]

/-- A comment is closed, or it goes on to the end of the text. -/
theorem comment_cases (text : List Char) :
    (∃ inside rest, text = inside ++ (commentEnd ++ rest) ∧
      Reaches (commentEnd <+: ·) inside (commentEnd ++ rest)) ∨
    Reaches (commentEnd <+: ·) text [] := by
  obtain ⟨inside, back, split⟩ : ∃ inside back,
    splitBefore (fun t => (afterPrefix? commentEnd t).isSome) text = (inside, back) := ⟨_, _, rfl⟩
  obtain ⟨rfl, reaches⟩ := (splitBefore_eq_iff fun _ => isSome_afterPrefix?_iff).mp split
  rcases reaches.stops with rfl | ⟨rest, rfl⟩
  · exact .inr ((List.append_nil inside).symm ▸ reaches)
  · exact .inl ⟨inside, rest, rfl, reaches⟩

theorem splitText_eq_iff {text run rest : List Char} :
    splitText text = (run, rest) ↔ text = run ++ rest ∧ Reaches BeginsMarkup run rest := by
  rw [splitText_eq_splitBefore]
  exact splitBefore_eq_iff fun _ => startsMarkup_iff

theorem splitRaw_lower_eq_iff {name text body rest : List Char} :
    splitRaw (lower name) text = (body, rest) ↔
      text = body ++ rest ∧ Reaches (lower ('<' :: '/' :: name) <+: lower ·) body rest := by
  have lowered : lower ('<' :: '/' :: lower name) = lower ('<' :: '/' :: name) :=
    congrArg (fun word => '<' :: '/' :: word) (lower_lower name)
  rw [splitRaw_eq_splitBefore]
  refine splitBefore_eq_iff fun text => ?_
  rw [startsWith_iff, lowered]

/-! ### Reading start tags -/

theorem endsInEquals_plain {parts : List TagPart} {c : Char} :
    EndsInEquals (parts ++ [.plain c]) ↔ c = '=' ∨ (EndsInEquals parts ∧ isAsciiBlank c = true) := by
  constructor
  · rintro ⟨front, blanks, split, blank⟩
    rcases List.eq_nil_or_concat' blanks with rfl | ⟨blanks, d, rfl⟩
    · obtain ⟨_, last⟩ := List.append_inj' split rfl
      cases last
      exact .inl rfl
    · have split' : parts ++ [.plain c] =
          (front ++ .plain '=' :: blanks.map .plain) ++ [.plain d] := by
        rw [split]
        simp
      obtain ⟨rfl, last⟩ := List.append_inj' split' rfl
      cases last
      refine .inr ⟨⟨front, blanks, rfl, ?_⟩, blank _ (by simp)⟩
      intro e member
      exact blank e (List.mem_append_left _ member)
  · rintro (rfl | ⟨⟨front, blanks, rfl, blank⟩, last⟩)
    · exact ⟨parts, [], rfl, by simp⟩
    · refine ⟨front, blanks ++ [c], by simp, ?_⟩
      intro e member
      rcases List.mem_append.mp member with earlier | here
      · exact blank e earlier
      · exact List.mem_singleton.mp here ▸ last

theorem not_endsInEquals_quoted {parts : List TagPart} {value : List Char} :
    ¬ EndsInEquals (parts ++ [.quoted value]) := by
  rintro ⟨front, blanks, split, _⟩
  rcases List.eq_nil_or_concat' blanks with rfl | ⟨blanks, d, rfl⟩
  · cases (List.append_inj' split rfl).2
  · rw [List.map_append, ← List.cons_append, ← List.append_assoc] at split
    cases (List.append_inj' split rfl).2

theorem opensQuote_iff {before : List TagPart} {afterEquals : Bool}
    (state : afterEquals = true ↔ EndsInEquals before) {c : Char} :
    OpensValue afterEquals c ↔ OpensQuote before c := by
  rw [OpensValue, OpensQuote, Bool.and_eq_true, state, Bool.or_eq_true, decide_eq_true_eq,
    decide_eq_true_eq]

theorem endsInEquals_step {before : List TagPart} {afterEquals : Bool}
    (state : afterEquals = true ↔ EndsInEquals before) (c : Char) :
    (c = '=' || (afterEquals && isAsciiBlank c)) = true ↔ EndsInEquals (before ++ [.plain c]) := by
  rw [endsInEquals_plain, ← state]
  simp

theorem TagReading.splitTag_eq {before parts : List TagPart} {text : List Char}
    {rest : Option (List Char)} (reading : TagReading before text parts rest) {afterEquals : Bool}
    (state : afterEquals = true ↔ EndsInEquals before) :
    splitTag afterEquals text = (parts, rest) := by
  have other {quote : Char} {value : List Char} (inside : quote ∉ value) :
      ∀ c ∈ value, decide (c ≠ quote) = true :=
    fun c member => decide_eq_true fun same => inside (same ▸ member)
  induction reading generalizing afterEquals with
  | finished => rw [splitTag, if_pos rfl]
  | cut => rw [splitTag]
  | plain inside unquoted _ ih =>
    have unopened := (opensQuote_iff state).not.mpr unquoted
    rw [splitTag_plain inside unopened, ih (endsInEquals_step state _)]
  | @quoted before parts quote value text rest opens inside _ ih =>
    have ended : (value ++ quote :: text).dropWhile (· ≠ quote) = quote :: text := by
      rw [List.dropWhile_append_of_pos (other inside), List.dropWhile_cons_of_neg (by simp)]
    have written : (value ++ quote :: text).takeWhile (· ≠ quote) = value := by
      rw [List.takeWhile_append_of_pos (other inside), List.takeWhile_cons_of_neg (by simp),
        List.append_nil]
    have closed : (false = true) ↔ EndsInEquals (before ++ [.quoted (quote :: value ++ [quote])]) :=
      iff_of_false Bool.false_ne_true not_endsInEquals_quoted
    rw [splitTag_quoted ((opensQuote_iff state).mpr opens) ended, written, ih closed]
  | @openQuote before quote value opens inside =>
    have unended : value.dropWhile (· ≠ quote) = [] :=
      List.dropWhile_eq_nil_iff.mpr (other inside)
    rw [splitTag_unended ((opensQuote_iff state).mpr opens) unended,
      List.takeWhile_eq_self_iff.mpr (other inside)]

/-- The flag of `splitTag` says whether the parts so far end in an equals sign. -/
theorem splitTag_reading (afterEquals : Bool) (text : List Char) :
    ∀ before, (afterEquals = true ↔ EndsInEquals before) →
      TagReading before text (splitTag afterEquals text).1 (splitTag afterEquals text).2 := by
  have quoteless (quote : Char) (rest : List Char) : quote ∉ rest.takeWhile (· ≠ quote) := by
    intro member
    simpa using List.mem_takeWhile_imp member
  fun_induction splitTag afterEquals text with
  | case1 => exact fun before _ => .cut
  | case2 => exact fun before _ => .finished
  | case3 afterEquals c rest _ opens value unended =>
    intro before state
    have whole := List.takeWhile_append_dropWhile (p := (· ≠ c)) (l := rest)
    rw [unended, List.append_nil] at whole
    have all : value = rest := whole
    rw [all]
    exact .openQuote ((opensQuote_iff state).mp opens) (whole ▸ quoteless c rest)
  | case4 afterEquals c rest _ opens value closing after ended parts rest' found ih =>
    intro before state
    have whole := List.takeWhile_append_dropWhile (p := (· ≠ c)) (l := rest)
    have quote : closing = c := eq_of_dropWhile_ne ended
    rw [ended, quote] at whole
    rw [quote, ← whole]
    refine .quoted ((opensQuote_iff state).mp opens) (quoteless c rest) ?_
    have later := ih (before ++ [.quoted (c :: value ++ [c])])
      (iff_of_false Bool.false_ne_true not_endsInEquals_quoted)
    rwa [found] at later
  | case5 afterEquals c rest inside unquoted parts rest' found ih =>
    intro before state
    have later := ih _ (endsInEquals_step state c)
    rw [found] at later
    exact .plain inside (fun opens => unquoted ((opensQuote_iff state).mpr opens)) later

theorem not_endsInEquals_plain {word : List Char} (clean : '=' ∉ word) :
    ¬ EndsInEquals (word.map .plain) := by
  rintro ⟨front, blanks, split, _⟩
  have member : TagPart.plain '=' ∈ word.map TagPart.plain := by
    rw [split]
    simp
  obtain ⟨c, inside, same⟩ := List.mem_map.mp member
  cases same
  exact clean inside

/-- No equals sign comes before the name of a tag has ended. -/
theorem unequal_name {name : List Char} (word : name.all isNameChar = true) :
    (false = true) ↔ EndsInEquals (('<' :: name).map .plain) := by
  refine iff_of_false Bool.false_ne_true (not_endsInEquals_plain ?_)
  intro member
  rcases List.mem_cons.mp member with angle | inside
  · cases angle
  · exact absurd (List.all_eq_true.mp word _ inside) (by decide)

theorem span_name {name behind : List Char} (word : name.all isNameChar = true)
    (ends : behind.head?.any isNameChar = false) :
    (name ++ behind).takeWhile isNameChar = name ∧
      (name ++ behind).dropWhile isNameChar = behind := by
  have front := List.all_eq_true.mp word
  rw [List.takeWhile_append_of_pos front, List.dropWhile_append_of_pos front]
  cases behind with
  | nil => exact ⟨List.append_nil name, rfl⟩
  | cons c behind =>
    have stop : ¬ isNameChar c = true := Bool.not_eq_true _ ▸ ends
    rw [List.takeWhile_cons_of_neg stop, List.append_nil]
    exact ⟨rfl, List.dropWhile_cons_of_neg stop⟩

theorem startTag_iff {text name : List Char} {parts : List TagPart} {rest : Option (List Char)} :
    StartTag ('<' :: text) name parts rest ↔
      text.head?.any isLetter = true ∧ splitStartTag text = (name, parts, rest) := by
  constructor
  · rintro ⟨letter, word, ends, reading⟩
    obtain ⟨taken, dropped⟩ := span_name word ends
    constructor
    · cases name with
      | nil => cases letter
      | cons c name => exact letter
    · rw [splitStartTag, taken, dropped, reading.splitTag_eq (unequal_name word)]
  · rintro ⟨letter, split⟩
    have word : (text.takeWhile isNameChar).all isNameChar = true := List.all_takeWhile
    have ends : (text.dropWhile isNameChar).head?.any isNameChar = false := by
      have stops := List.head?_dropWhile_not isNameChar text
      cases first : (text.dropWhile isNameChar).head? with
      | none => rfl
      | some c =>
        rw [first] at stops
        exact stops
    have named : (text.takeWhile isNameChar).head?.any isLetter = true := by
      cases text with
      | nil => cases letter
      | cons c text =>
        have start : isNameChar c = true := Bool.or_eq_true _ _ ▸ .inl letter
        rw [List.takeWhile_cons_of_pos start]
        exact letter
    have reading := splitTag_reading false (text.dropWhile isNameChar) _ (unequal_name word)
    have tag := StartTag.intro named word ends reading
    rw [List.takeWhile_append_dropWhile] at tag
    rw [splitStartTag] at split
    cases split
    exact tag

theorem StartTag.begins {text name : List Char} {parts : List TagPart} {rest : Option (List Char)}
    (tag : StartTag text name parts rest) :
    ∃ inside, text = '<' :: inside ∧ afterPrefix? commentStart text = none ∧
      startsMarkup text = true ∧ splitStartTag inside = (name, parts, rest) := by
  cases tag with
  | intro letter word ends reading =>
    have marked := startsMarkup_letter letter
    exact ⟨_, rfl, (marked _).1, (marked _).2, (startTag_iff.mp (.intro letter word ends reading)).2⟩

/-! ### Reading a source -/

theorem segmentation_segments (text : List Char) : Segmentation text (segments text) := by
  have opening {c : Char} {rest name : List Char} {parts : List TagPart}
      {after : Option (List Char)} (found : afterPrefix? commentStart (c :: rest) = none)
      (starts : startsMarkup (c :: rest) = true)
      (split : splitStartTag rest = (name, parts, after)) :
      StartTag (c :: rest) name parts after := by
    obtain rfl := eq_lt_of_startsMarkup found starts
    refine startTag_iff.mpr ⟨?_, split⟩
    rcases startsMarkup_iff.mp starts with comment | ⟨d, later, same, letter⟩
    · rw [← isSome_afterPrefix?_iff, found] at comment
      cases comment
    · obtain rfl := (List.cons.inj same).2
      exact letter
  fun_induction segments text with
  | case1 => exact .done
  | case2 c rest inside found ih =>
    rw [afterPrefix?_eq_some_iff.mp found]
    rcases comment_cases inside with ⟨inside, rest, rfl, reaches⟩ | reaches
    · rw [splitComment_closed reaches] at ih ⊢
      exact .comment reaches ih
    · rw [splitComment_open reaches, segments]
      exact .openComment reaches
  | case3 c rest found starts name parts split => exact .openTag (opening found starts split)
  | case4 c rest found starts name parts split =>
    exact .startTag (opening found starts split) (.inl rfl) .done
  | case5 c rest found starts name parts d after split raw ih =>
    have tag := opening found starts split
    have nonempty := List.cons_ne_nil d after
    generalize d :: after = behind at tag nonempty ih ⊢
    obtain ⟨body, rest, cut⟩ : ∃ body rest, splitRaw (lower name) behind = (body, rest) :=
      ⟨_, _, rfl⟩
    obtain ⟨rfl, reaches⟩ := splitRaw_lower_eq_iff.mp cut
    rw [cut] at ih ⊢
    exact .rawText tag nonempty (List.contains_iff_mem.mp raw) reaches ih
  | case6 c rest found starts name parts d after split ordinary ih =>
    refine .startTag (opening found starts split) (.inr ?_) ih
    exact fun raw => ordinary (List.contains_iff_mem.mpr raw)
  | case7 c rest found unmarked ih =>
    have front : splitText (c :: rest) = (c :: (splitText rest).1, (splitText rest).2) := by
      rw [splitText, if_neg unmarked]
    obtain ⟨whole, reaches⟩ := splitText_eq_iff.mp front
    rw [whole]
    exact .text (List.cons_ne_nil _ _) reaches ih

theorem Segmentation.eq_segments {text : List Char} {parts : List Segment}
    (segmentation : Segmentation text parts) : parts = segments text := by
  induction segmentation with
  | done => rw [segments]
  | @text run rest later nonempty reaches _ ih =>
    obtain ⟨c, run, rfl⟩ := List.exists_cons_of_ne_nil nonempty
    have unmarked : startsMarkup (c :: (run ++ rest)) = false := by
      rw [← Bool.not_eq_true, startsMarkup_iff]
      exact (reaches_cons_iff.mp reaches).1
    have split := splitText_eq_iff.mpr ⟨rfl, reaches⟩
    rw [List.cons_append] at split ⊢
    rw [segments_text (List.cons_ne_nil _ _) unmarked, split, ih]
  | comment reaches _ ih =>
    rw [segments_comment (afterPrefix?_eq_some_iff.mpr rfl), splitComment_closed reaches, ih]
  | openComment reaches =>
    rw [segments_comment (afterPrefix?_eq_some_iff.mpr rfl), splitComment_open reaches, segments]
  | @startTag text name rest parts later tag ordinary _ ih =>
    obtain ⟨inside, rfl, found, starts, split⟩ := tag.begins
    rw [segments_startTag found starts split, ih]
    cases rest with
    | nil => rw [segments, segmentsAfter]
    | cons d rest =>
      have other := ordinary.resolve_left (List.cons_ne_nil d rest)
      rw [segmentsAfter, if_neg (List.contains_iff_mem.not.mpr other)]
  | openTag tag =>
    obtain ⟨inside, rfl, found, starts, split⟩ := tag.begins
    rw [segments_startTag found starts split, segmentsAfter]
  | rawText tag nonempty raw reaches _ ih =>
    obtain ⟨inside, rfl, found, starts, split⟩ := tag.begins
    rw [segments_startTag found starts split, segmentsAfter_some nonempty,
      if_pos (List.contains_iff_mem.mpr raw), splitRaw_lower_eq_iff.mpr ⟨rfl, reaches⟩, ih]

theorem Segmentation.source_eq {text : List Char} {parts : List Segment}
    (segmentation : Segmentation text parts) : parts.flatMap Segment.source = text := by
  rw [segmentation.eq_segments]
  exact segments_source text

/-- What comes behind a segment is read on its own, but for a raw text, which is read with its tag. -/
theorem Segmentation.behind {text : List Char} {s : Segment} {later : List Segment}
    (segmentation : Segmentation text (s :: later)) :
    Segmentation (later.flatMap Segment.source) later ∨
      ∃ body more, later = .rawText body :: more ∧
        Segmentation (more.flatMap Segment.source) more := by
  have alone {rest : List Char} {parts : List Segment} (next : Segmentation rest parts) :
      Segmentation (parts.flatMap Segment.source) parts := next.source_eq.symm ▸ next
  cases segmentation with
  | text _ _ next => exact .inl (alone next)
  | comment _ next => exact .inl (alone next)
  | openComment => exact .inl .done
  | startTag _ _ next => exact .inl (alone next)
  | openTag => exact .inl .done
  | rawText _ _ _ _ next => exact .inr ⟨_, _, rfl, alone next⟩

theorem Segmentation.restart {back : List Segment}
    (outside : ∀ body, back.head? ≠ some (.rawText body)) {text : List Char}
    {front : List Segment} (segmentation : Segmentation text (front ++ back)) :
    Segmentation (back.flatMap Segment.source) back := by
  cases front with
  | nil => exact segmentation.source_eq.symm ▸ segmentation
  | cons s front =>
    rcases segmentation.behind with next | ⟨body, more, same, next⟩
    · exact next.restart outside
    · cases front with
      | nil => exact absurd (congrArg List.head? same) (outside body)
      | cons r front =>
        obtain ⟨-, rfl⟩ := List.cons.inj same
        exact next.restart outside
termination_by front.length

/-! ### What is hidden -/

structure Piece where
  hidden : Bool
  source : List Char

def TagPart.piece : TagPart → Piece
  | plain c => ⟨false, [c]⟩
  | quoted s => ⟨true, s⟩

/-- The pieces of a segment. Comments, raw texts and quoted values are the hidden ones. -/
def Segment.pieces : Segment → List Piece
  | text s => [⟨false, s⟩]
  | comment s => [⟨true, s⟩]
  | startTag parts => parts.map TagPart.piece
  | rawText s => [⟨true, s⟩]

def Piece.range? (before : List Piece) (piece : Piece) : Option Span :=
  let start := byteLength (before.flatMap source)
  if piece.hidden then some ⟨start, start + byteLength piece.source⟩ else none

def hiddenRanges (pieces : List Piece) : List Span :=
  (List.zipWith Piece.range? pieces.inits pieces).reduceOption

theorem Span.shift_comp (m n : Nat) : Span.shift m ∘ Span.shift n = Span.shift (m + n) := by
  funext s
  rw [Function.comp_apply, Span.shift, Span.shift, Span.shift, Nat.add_assoc, Nat.add_assoc]

theorem Span.map_shift_zero (spans : List Span) : spans.map (Span.shift 0) = spans := by
  refine (List.map_congr_left fun s _ => ?_).trans (List.map_id spans)
  rw [Span.shift, Nat.zero_add, Nat.zero_add, id]

theorem Piece.range?_cons (first : Piece) (before : List Piece) (piece : Piece) :
    range? (first :: before) piece =
      (range? before piece).map (Span.shift (byteLength first.source)) := by
  unfold range?
  rw [List.flatMap_cons, byteLength_append]
  dsimp only
  split
  · rw [Option.map_some, Span.shift, Nat.add_assoc]
  · rfl

theorem hiddenRanges_cons (piece : Piece) (pieces : List Piece) :
    hiddenRanges (piece :: pieces) =
      (piece.range? []).toList ++
        (hiddenRanges pieces).map (Span.shift (byteLength piece.source)) := by
  have later : List.zipWith Piece.range? (pieces.inits.map (piece :: ·)) pieces =
      (List.zipWith Piece.range? pieces.inits pieces).map
        (Option.map (Span.shift (byteLength piece.source))) := by
    rw [List.zipWith_map_left, List.map_zipWith]
    simp only [Piece.range?_cons]
  rw [hiddenRanges, List.inits_cons, List.zipWith_cons_cons, later]
  cases piece.range? [] with
  | none => rw [List.reduceOption_cons_of_none, List.reduceOption_map]; rfl
  | some span => rw [List.reduceOption_cons_of_some, List.reduceOption_map]; rfl

theorem hiddenRanges_append (front back : List Piece) :
    hiddenRanges (front ++ back) =
      hiddenRanges front ++
        (hiddenRanges back).map (Span.shift (byteLength (front.flatMap Piece.source))) := by
  induction front with
  | nil => exact (Span.map_shift_zero _).symm
  | cons piece front ih =>
    rw [List.cons_append, hiddenRanges_cons, hiddenRanges_cons piece front, ih, List.map_append,
      List.map_map, Span.shift_comp, List.append_assoc, List.flatMap_cons, byteLength_append]

theorem TagPart.spans_eq (parts : List TagPart) :
    TagPart.spans 0 parts = hiddenRanges (parts.map piece) := by
  induction parts with
  | nil => rfl
  | cons part parts ih =>
    rw [List.map_cons, hiddenRanges_cons, ← ih, ← spans_shift, Nat.add_zero]
    cases part with
    | plain c =>
      rw [spans, Nat.zero_add]
      rfl
    | quoted s =>
      exact congrArg (Span.mk 0 (0 + byteLength s) :: TagPart.spans · parts) (Nat.zero_add _)

theorem Segment.spans_eq (s : Segment) : s.spans 0 = hiddenRanges s.pieces := by
  cases s with
  | startTag parts => exact TagPart.spans_eq parts
  | _ => rfl

theorem Segment.source_pieces (s : Segment) : s.pieces.flatMap Piece.source = s.source := by
  cases s with
  | startTag parts =>
    rw [pieces, source, List.flatMap_map]
    exact List.flatMap_congr fun part _ => by cases part <;> rfl
  | _ => exact List.append_nil _

theorem source_pieces (parts : List Segment) :
    (parts.flatMap Segment.pieces).flatMap Piece.source = parts.flatMap Segment.source := by
  rw [List.flatMap_assoc]
  exact List.flatMap_congr fun s _ => s.source_pieces

/-- The spans of a list of segments are the ranges of the hidden pieces. -/
theorem spansFrom_eq (parts : List Segment) :
    spansFrom 0 parts = hiddenRanges (parts.flatMap Segment.pieces) := by
  induction parts with
  | nil => rfl
  | cons s parts ih =>
    rw [List.flatMap_cons, hiddenRanges_append, ← ih, ← spansFrom_shift, s.source_pieces,
      ← s.spans_eq, Nat.add_zero, spansFrom, Nat.zero_add]

/-- Every source has one segmentation, whose segments make up the source, and what is hidden are the
ranges of its comments, its quoted values and its raw texts, in their order. In front of any segment
but a raw text, the rest of the source has the remaining segments and spans that it has alone. -/
theorem segmentation_exact (text : List Char) :
    ∃ parts, Segmentation text parts ∧ (∀ others, Segmentation text others → others = parts) ∧
      parts.flatMap Segment.source = text ∧
      hiddenSpans text = hiddenRanges (parts.flatMap Segment.pieces) ∧
      ∀ front back, parts = front ++ back → (∀ body, back.head? ≠ some (.rawText body)) →
        Segmentation (back.flatMap Segment.source) back ∧
        hiddenSpans text = hiddenRanges (front.flatMap Segment.pieces) ++
          (hiddenSpans (back.flatMap Segment.source)).map
            (Span.shift (byteLength (front.flatMap Segment.source))) := by
  have spans {text : List Char} {parts : List Segment} (segmentation : Segmentation text parts) :
      hiddenSpans text = hiddenRanges (parts.flatMap Segment.pieces) := by
    rw [hiddenSpans, ← segmentation.eq_segments, spansFrom_eq]
  have whole := segmentation_segments text
  refine ⟨segments text, whole, fun others other => other.eq_segments, segments_source text,
    spans whole, ?_⟩
  intro front back split outside
  have rest : Segmentation (back.flatMap Segment.source) back := (split ▸ whole).restart outside
  refine ⟨rest, ?_⟩
  rw [spans whole, spans rest, split, List.flatMap_append, hiddenRanges_append, source_pieces]

def scriptPage : List Char := "<script><img src=x></script>".toList

/-- The raw text of the script is hidden, though alone it would be an image. -/
theorem spans_inside_script : ∃ front back,
    Segmentation scriptPage (front ++ back) ∧
      back.flatMap Segment.source = "<img src=x></script>".toList ∧
      hiddenSpans scriptPage = [⟨8, 19⟩] ∧ hiddenSpans (back.flatMap Segment.source) = [] ∧
      hiddenSpans scriptPage ≠ hiddenRanges (front.flatMap Segment.pieces) ++
        (hiddenSpans (back.flatMap Segment.source)).map
          (Span.shift (byteLength (front.flatMap Segment.source))) := by
  refine ⟨(segments scriptPage).take 1, (segments scriptPage).drop 1, ?_, by decide +kernel⟩
  rw [List.take_append_drop]
  exact segmentation_segments scriptPage

def piecesPage : List Char := "<!-- <b> --><p class= '<i>' id=x'>t</p><style>a</b></STYLE>".toList

theorem segmentation_exact_piecesPage :
    hiddenSpans piecesPage = [⟨0, 12⟩, ⟨22, 27⟩, ⟨46, 51⟩] ∧
      hiddenSpans piecesPage = [⟨0, 12⟩, ⟨22, 27⟩] ++
        (hiddenSpans "<style>a</b></STYLE>".toList).map (Span.shift 39) := by
  obtain ⟨parts, segmentation, _, _, _, restart⟩ := segmentation_exact piecesPage
  obtain rfl := segmentation.eq_segments
  have ahead : ((segments piecesPage).drop 3).head? =
      some (.startTag (bareTag "style".toList)) := by decide +kernel
  obtain ⟨_, spans⟩ := restart ((segments piecesPage).take 3) ((segments piecesPage).drop 3)
    (List.take_append_drop 3 _).symm (fun body raw => by cases ahead.symm.trans raw)
  have front : hiddenRanges (((segments piecesPage).take 3).flatMap Segment.pieces) =
      [⟨0, 12⟩, ⟨22, 27⟩] ∧
      byteLength (((segments piecesPage).take 3).flatMap Segment.source) = 39 := by decide +kernel
  have rest : ((segments piecesPage).drop 3).flatMap Segment.source =
      "<style>a</b></STYLE>".toList := by decide +kernel
  rw [front.1, front.2, rest] at spans
  exact ⟨by decide +kernel, spans⟩

end PageLint.Markup
