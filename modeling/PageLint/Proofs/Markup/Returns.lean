import PageLint.Proofs.Markup.Alignment
import PageLint.Proofs.Text.Returns

/-!
# Carriage returns between tags

A source with a carriage return before each line feed falls into the segments of the source without
them (`segments_withReturns`), so it hides the same pieces and has its tags at the places that the
returns move them to: `aligned_withReturns`.
-/

namespace PageLint.Markup

open Text

/-! ### Segments -/

def TagPart.withReturns : TagPart → List TagPart
  | plain c => (Text.withReturns [c]).map plain
  | quoted s => [quoted (Text.withReturns s)]

def Segment.withReturns : Segment → Segment
  | text s => text (Text.withReturns s)
  | comment s => comment (Text.withReturns s)
  | startTag parts => startTag (parts.flatMap TagPart.withReturns)
  | rawText s => rawText (Text.withReturns s)

theorem TagPart.source_withReturns (parts : List TagPart) :
    (parts.flatMap TagPart.withReturns).flatMap TagPart.source =
      Text.withReturns (parts.flatMap TagPart.source) := by
  induction parts with
  | nil => rfl
  | cons part parts ih =>
    have first : part.withReturns.flatMap TagPart.source = Text.withReturns part.source := by
      cases part with
      | plain c =>
        rw [TagPart.withReturns, List.flatMap_map]
        exact List.flatMap_singleton' _
      | quoted s => exact List.append_nil _
    rw [List.flatMap_cons, List.flatMap_append, ih, first, ← Text.withReturns_append,
      List.flatMap_cons]

theorem Segment.source_withReturns (s : Segment) :
    s.withReturns.source = Text.withReturns s.source := by
  cases s with
  | startTag parts => exact TagPart.source_withReturns parts
  | _ => rfl

/-! ### Splitting -/

theorem oneLine_commentStart : OneLine commentStart := by decide

theorem startsMarkup_withReturns (text : List Char) :
    startsMarkup (withReturns text) = startsMarkup text := by
  cases text with
  | nil => rfl
  | cons c text =>
    by_cases angle : c = '<'
    · subst angle
      have comment := afterPrefix?_withReturns oneLine_commentStart ('<' :: text)
      rw [withReturns_cons (by decide)] at comment ⊢
      unfold startsMarkup
      rw [comment, Option.isSome_map]
      cases text with
      | nil => rfl
      | cons d text =>
        by_cases newline : d = '\n'
        · subst newline
          rfl
        · rw [withReturns_cons newline]
          rfl
    · by_cases newline : c = '\n'
      · subst newline
        rfl
      · rw [withReturns_cons newline, startsMarkup_eq_false angle, startsMarkup_eq_false angle]

/-- What goes on in front of a line feed goes on in front of its carriage return. -/
theorem splitText_withReturns (text : List Char) :
    splitText (withReturns text) =
      (withReturns (splitText text).1, withReturns (splitText text).2) := by
  induction text with
  | nil => rfl
  | cons c text ih =>
    by_cases newline : c = '\n'
    · subst newline
      have plain (d : Char) (rest : List Char) (other : d ≠ '<') :
          splitText (d :: rest) = (d :: (splitText rest).1, (splitText rest).2) := by
        rw [splitText, if_neg (Bool.not_eq_true _ ▸ startsMarkup_eq_false other rest)]
      rw [withReturns_newline, plain _ _ (by decide), plain _ _ (by decide), ih,
        plain _ _ (by decide)]
      rfl
    · have same := startsMarkup_withReturns (c :: text)
      rw [withReturns_cons newline] at same ⊢
      rw [splitText, splitText, same, ih]
      split
      · rw [withReturns_nil, withReturns_cons newline]
      · rw [withReturns_cons newline]

theorem splitComment_withReturns (text : List Char) :
    splitComment (withReturns text) =
      (withReturns (splitComment text).1, withReturns (splitComment text).2) := by
  have stop : OneLine commentEnd := by decide
  unfold splitComment
  rw [splitAtFirst?_withReturns stop (by decide)]
  cases splitAtFirst? commentEnd text with
  | none =>
    dsimp only [Option.map_none]
    rw [withReturns_word oneLine_commentStart, withReturns_nil]
  | some parts =>
    dsimp only [Option.map_some, Prod.map]
    rw [List.append_assoc, List.append_assoc, withReturns_word oneLine_commentStart,
      withReturns_append, stop.withReturns_eq]

def OpensValue (afterEquals : Bool) (c : Char) : Prop :=
  (afterEquals && (c = '"' || c = '\'')) = true

theorem OpensValue.ne {afterEquals : Bool} {c d : Char} (opens : OpensValue afterEquals c)
    (other : d ≠ '"' ∧ d ≠ '\'') : c ≠ d := by
  rintro rfl
  have quote := (Bool.and_eq_true_iff.mp opens).2
  simp [other] at quote

theorem splitTag_unended {afterEquals : Bool} {c : Char} (opens : OpensValue afterEquals c)
    {rest : List Char} (unended : rest.dropWhile (· ≠ c) = []) :
    splitTag afterEquals (c :: rest) = ([.quoted (c :: rest.takeWhile (· ≠ c))], none) := by
  have inside : c ≠ '>' := opens.ne (by decide)
  unfold OpensValue at opens
  rw [splitTag, if_neg inside, if_pos opens]
  dsimp only
  split
  · rfl
  · rename_i ended
    rw [unended] at ended
    cases ended

theorem splitTag_quoted {afterEquals : Bool} {c : Char} (opens : OpensValue afterEquals c)
    {rest after : List Char} {closing : Char} (ended : rest.dropWhile (· ≠ c) = closing :: after) :
    splitTag afterEquals (c :: rest) =
      (.quoted (c :: rest.takeWhile (· ≠ c) ++ [closing]) :: (splitTag false after).1,
        (splitTag false after).2) := by
  have inside : c ≠ '>' := opens.ne (by decide)
  unfold OpensValue at opens
  rw [splitTag, if_neg inside, if_pos opens]
  dsimp only
  split
  · rename_i unended
    rw [ended] at unended
    cases unended
  · rename_i ended'
    rw [ended] at ended'
    cases ended'
    rfl

theorem splitTag_plain {afterEquals : Bool} {c : Char} (inside : c ≠ '>')
    (unquoted : ¬ OpensValue afterEquals c) (rest : List Char) :
    splitTag afterEquals (c :: rest) =
      (.plain c :: (splitTag (c = '=' || (afterEquals && isAsciiBlank c)) rest).1,
        (splitTag (c = '=' || (afterEquals && isAsciiBlank c)) rest).2) := by
  unfold OpensValue at unquoted
  rw [splitTag, if_neg inside, if_neg unquoted]

/-- A run of other characters ends at the character itself. -/
theorem eq_of_dropWhile_ne {c d : Char} {text after : List Char}
    (ended : text.dropWhile (· ≠ c) = d :: after) : d = c := by
  have stops := List.head?_dropWhile_not (· ≠ c) text
  rw [ended] at stops
  simpa using stops

theorem splitTag_withReturns (afterEquals : Bool) (text : List Char) :
    splitTag afterEquals (withReturns text) =
      ((splitTag afterEquals text).1.flatMap TagPart.withReturns,
        (splitTag afterEquals text).2.map withReturns) := by
  have lineEnd {c : Char} (no_return : c ≠ '\r') (no_newline : c ≠ '\n') :
      decide ('\r' ≠ c) = decide ('\n' ≠ c) := by
    rw [decide_eq_true (Ne.symm no_return), decide_eq_true (Ne.symm no_newline)]
  fun_induction splitTag afterEquals text with
  | case1 afterEquals => rw [withReturns_nil, splitTag]; rfl
  | case2 afterEquals rest =>
    rw [withReturns_cons (by decide), splitTag, if_pos rfl]
    rfl
  | case3 afterEquals c rest _ opens value unended =>
    have no_newline : c ≠ '\n' := OpensValue.ne opens (by decide)
    have same := lineEnd (OpensValue.ne opens (by decide)) no_newline
    have unended' : (withReturns rest).dropWhile (· ≠ c) = [] := by
      rw [dropWhile_withReturns same, unended, withReturns_nil]
    rw [withReturns_cons no_newline, splitTag_unended opens unended', takeWhile_withReturns same,
      ← withReturns_cons no_newline]
    rfl
  | case4 afterEquals c rest _ opens value closing after ended parts rest' found ih =>
    have no_newline : c ≠ '\n' := OpensValue.ne opens (by decide)
    have same := lineEnd (OpensValue.ne opens (by decide)) no_newline
    have quote : closing = c := eq_of_dropWhile_ne ended
    have ended' : (withReturns rest).dropWhile (· ≠ c) = closing :: withReturns after := by
      rw [dropWhile_withReturns same, ended, withReturns_cons (quote ▸ no_newline)]
    have whole : withReturns (c :: value ++ [closing]) = withReturns (c :: value) ++ [closing] := by
      rw [withReturns_append, quote, withReturns_cons no_newline [], withReturns_nil]
    rw [withReturns_cons no_newline, splitTag_quoted opens ended', ih, found,
      takeWhile_withReturns same, ← withReturns_cons no_newline, ← whole]
    rfl
  | case5 afterEquals c rest inside unquoted parts rest' found ih =>
    rw [found] at ih
    by_cases newline : c = '\n'
    · subst newline
      have plain (d : Char) (b : Bool) (text : d ≠ '"' ∧ d ≠ '\'') : ¬ OpensValue b d :=
        fun opens => opens.ne text rfl
      have state (b : Bool) : ('\r' = '=' || b && isAsciiBlank '\r') = b := by cases b <;> rfl
      rw [withReturns_newline, splitTag_plain (by decide) (plain _ _ (by decide)), state,
        splitTag_plain (by decide) (plain _ _ (by decide)), ih]
      rfl
    · rw [withReturns_cons newline, splitTag_plain inside unquoted, ih, List.flatMap_cons,
        TagPart.withReturns, withReturns_cons newline]
      rfl

theorem splitStartTag_withReturns (text : List Char) :
    splitStartTag (withReturns text) =
      ((splitStartTag text).1, (splitStartTag text).2.1.flatMap TagPart.withReturns,
        (splitStartTag text).2.2.map withReturns) := by
  have name : OneLine (text.takeWhile isNameChar) := oneLine_takeWhile (by decide) (by decide)
  have parts (word : List Char) (clean : OneLine word) :
      (word.map TagPart.plain).flatMap TagPart.withReturns = word.map .plain := by
    induction word with
    | nil => rfl
    | cons c word ih =>
      obtain ⟨_, no_newline, later⟩ := clean.cons
      rw [List.map_cons, List.flatMap_cons, ih later, TagPart.withReturns,
        withReturns_cons no_newline]
      rfl
  have start := parts ('<' :: text.takeWhile isNameChar) (oneLine_cons (by decide) (by decide) name)
  unfold splitStartTag
  rw [takeWhile_withReturns (by decide), dropWhile_withReturns (by decide), splitTag_withReturns,
    name.withReturns_eq]
  dsimp only
  rw [List.flatMap_append, start]

theorem splitRaw_withReturns {element : List Char} (clean : OneLine element) (text : List Char) :
    splitRaw element (withReturns text) =
      (withReturns (splitRaw element text).1, withReturns (splitRaw element text).2) := by
  have closing : OneLine ('<' :: '/' :: element) :=
    oneLine_cons (by decide) (by decide) (oneLine_cons (by decide) (by decide) clean)
  induction text with
  | nil => rfl
  | cons c text ih =>
    by_cases newline : c = '\n'
    · subst newline
      have goesOn (d : Char) (rest : List Char) (other : d.toLower ≠ '<') :
          splitRaw element (d :: rest) =
            (d :: (splitRaw element rest).1, (splitRaw element rest).2) := by
        rw [splitRaw, if_neg]
        intro starts
        exact other (List.cons_prefix_cons.mp (startsWith_iff.mp starts)).1.symm
      rw [withReturns_newline, goesOn _ _ (by decide), goesOn _ _ (by decide), ih,
        goesOn _ _ (by decide)]
      rfl
    · have same := startsWith_withReturns closing (c :: text)
      rw [withReturns_cons newline] at same ⊢
      rw [splitRaw, splitRaw, same, ih]
      split
      · rw [withReturns_nil, withReturns_cons newline]
      · rw [withReturns_cons newline]

theorem segments_startTag_withReturns {rest name : List Char} {parts : List TagPart}
    {after : Option (List Char)} (found : afterPrefix? commentStart ('<' :: rest) = none)
    (starts : startsMarkup ('<' :: rest) = true)
    (split : splitStartTag rest = (name, parts, after)) :
    segments (withReturns ('<' :: rest)) = .startTag (parts.flatMap TagPart.withReturns) ::
      segmentsAfter name (after.map withReturns) := by
  have found' := afterPrefix?_withReturns oneLine_commentStart ('<' :: rest)
  have starts' := (startsMarkup_withReturns ('<' :: rest)).trans starts
  have split' := splitStartTag_withReturns rest
  rw [found, Option.map_none, withReturns_cons (by decide)] at found'
  rw [withReturns_cons (by decide)] at starts' ⊢
  rw [split] at split'
  exact segments_startTag found' starts' split'

/-- The returns fall into the segments of the source, each into the one that its line feed is in. -/
theorem segments_withReturns (text : List Char) :
    segments (withReturns text) = (segments text).map Segment.withReturns := by
  have nonempty (c : Char) (rest : List Char) : withReturns (c :: rest) ≠ [] :=
    withReturns_eq_nil.not.mpr (List.cons_ne_nil c rest)
  fun_induction segments text with
  | case1 => rw [withReturns_nil, segments, List.map_nil]
  | case2 c rest inside found ih =>
    have found' := afterPrefix?_withReturns oneLine_commentStart (c :: rest)
    rw [found, Option.map_some] at found'
    rw [segments_comment found', splitComment_withReturns, ih]
    rfl
  | case3 c rest found starts name parts split =>
    obtain rfl := eq_lt_of_startsMarkup found starts
    exact segments_startTag_withReturns found starts split
  | case4 c rest found starts name parts split =>
    obtain rfl := eq_lt_of_startsMarkup found starts
    exact segments_startTag_withReturns found starts split
  | case5 c rest found starts name parts d after split raw ih =>
    obtain rfl := eq_lt_of_startsMarkup found starts
    have clean : OneLine (lower name) := by
      rw [← (Prod.mk.inj split).1]
      exact (oneLine_takeWhile (by decide) (by decide)).lower
    rw [segments_startTag_withReturns found starts split, Option.map_some,
      segmentsAfter_some (nonempty d after), if_pos raw, splitRaw_withReturns clean, ih]
    rfl
  | case6 c rest found starts name parts d after split element ih =>
    obtain rfl := eq_lt_of_startsMarkup found starts
    rw [segments_startTag_withReturns found starts split, Option.map_some,
      segmentsAfter_some (nonempty d after), if_neg element, ih]
    rfl
  | case7 c rest found unmarked ih =>
    have plain : startsMarkup (c :: rest) = false := Bool.not_eq_true _ ▸ unmarked
    have front : splitText (c :: rest) = (c :: (splitText rest).1, (splitText rest).2) := by
      rw [splitText, if_neg unmarked]
    rw [segments_text (nonempty c rest) ((startsMarkup_withReturns _).trans plain),
      splitText_withReturns, front, ih]
    rfl

/-! ### Places -/

/-- Whether the returns of a source move its byte `p` to `p'`. -/
def Moved (text : List Char) (p p' : Nat) : Prop :=
  ∃ front back, text = front ++ back ∧ p = byteLength front ∧ p' = byteLength (withReturns front)

theorem byteLength_pos {text : List Char} : 0 < byteLength text ↔ text ≠ [] := by
  cases text with
  | nil => simp
  | cons c text => simp [Nat.add_pos_left c.utf8Size_pos]

theorem Moved.order {text : List Char} {p p' q q' : Nat} (first : Moved text p p')
    (second : Moved text q q') : p < q ↔ p' < q' := by
  have apart (front more : List Char) :
      (byteLength front < byteLength (front ++ more) ↔
        byteLength (withReturns front) < byteLength (withReturns (front ++ more))) ∧
      (byteLength (front ++ more) < byteLength front ↔
        byteLength (withReturns (front ++ more)) < byteLength (withReturns front)) := by
    have longer : 0 < byteLength more ↔ 0 < byteLength (withReturns more) := by
      rw [byteLength_pos, byteLength_pos, Ne, Ne, withReturns_eq_nil]
    rw [withReturns_append, byteLength_append, byteLength_append]
    omega
  obtain ⟨front, back, split, rfl, rfl⟩ := first
  obtain ⟨front', back', split', rfl, rfl⟩ := second
  rcases List.prefix_or_prefix_of_prefix ⟨back, split.symm⟩ ⟨back', split'.symm⟩ with
    ⟨more, rfl⟩ | ⟨more, rfl⟩
  · exact (apart front more).1
  · exact (apart front' more).2

theorem Moved.line {text : List Char} {p p' : Nat} (moved : Moved text p p') :
    lineOf (some p) text = lineOf (some p') (withReturns text) := by
  obtain ⟨front, back, rfl, rfl, rfl⟩ := moved
  rw [withReturns_append, lineOf_byteLength, lineOf_byteLength, count_withReturns]

def Span.Moved (text : List Char) (s s' : Span) : Prop :=
  Markup.Moved text s.start s'.start ∧ Markup.Moved text s.stop s'.stop

theorem Span.Moved.of_split {text front inside back : List Char}
    (split : text = front ++ (inside ++ back)) :
    Span.Moved text ⟨byteLength front, byteLength front + byteLength inside⟩
      ⟨byteLength (withReturns front),
        byteLength (withReturns front) + byteLength (withReturns inside)⟩ := by
  refine ⟨⟨front, inside ++ back, split, rfl, rfl⟩, front ++ inside, back, ?_, ?_, ?_⟩
  · rw [split, List.append_assoc]
  · rw [byteLength_append]
  · rw [withReturns_append, byteLength_append]

theorem TagPart.spans_withReturns {text : List Char} (front : List Char) {back : List Char}
    {parts : List TagPart} (split : text = front ++ (parts.flatMap TagPart.source ++ back)) :
    List.Forall₂ (Span.Moved text) (TagPart.spans (byteLength front) parts)
      (TagPart.spans (byteLength (Text.withReturns front))
        (parts.flatMap TagPart.withReturns)) := by
  induction parts generalizing front with
  | nil => exact .nil
  | cons part parts ih =>
    rw [List.flatMap_cons, List.append_assoc] at split
    have later := ih (front ++ part.source) (by rw [split, List.append_assoc])
    rw [Text.withReturns_append, byteLength_append, byteLength_append] at later
    rw [List.flatMap_cons]
    cases part with
    | plain c =>
      rw [TagPart.withReturns, TagPart.spans_plain]
      exact later
    | quoted s => exact .cons (.of_split split) later

theorem Segment.spans_withReturns {text front back : List Char} {s : Segment}
    (split : text = front ++ (s.source ++ back)) :
    List.Forall₂ (Span.Moved text) (s.spans (byteLength front))
      (s.withReturns.spans (byteLength (Text.withReturns front))) := by
  cases s with
  | text s => exact .nil
  | comment s => exact .cons (.of_split split) .nil
  | startTag parts => exact TagPart.spans_withReturns front split
  | rawText s => exact .cons (.of_split split) .nil

theorem spansFrom_withReturns {text : List Char} (front : List Char) {segments : List Segment}
    (split : text = front ++ segments.flatMap Segment.source) :
    List.Forall₂ (Span.Moved text) (spansFrom (byteLength front) segments)
      (spansFrom (byteLength (withReturns front)) (segments.map Segment.withReturns)) := by
  induction segments generalizing front with
  | nil => exact .nil
  | cons s segments ih =>
    rw [List.flatMap_cons] at split
    have later := ih (front ++ s.source) (by rw [split, List.append_assoc])
    rw [withReturns_append, byteLength_append, byteLength_append] at later
    rw [List.map_cons, spansFrom, spansFrom, Segment.source_withReturns]
    exact List.rel_append (Segment.spans_withReturns split) later

theorem hiddenSpans_withReturns (text : List Char) :
    List.Forall₂ (Span.Moved text) (hiddenSpans text) (hiddenSpans (withReturns text)) := by
  rw [hiddenSpans, hiddenSpans, segments_withReturns]
  exact spansFrom_withReturns [] (segments_source text).symm

theorem visible_withReturns {text : List Char} {p p' : Nat} (moved : Moved text p p') :
    (∀ s ∈ hiddenSpans text, ¬ (s.start ≤ p ∧ p < s.stop)) ↔
      ∀ s ∈ hiddenSpans (withReturns text), ¬ (s.start ≤ p' ∧ p' < s.stop) := by
  have spans := hiddenSpans_withReturns text
  generalize hiddenSpans text = before at spans
  generalize hiddenSpans (withReturns text) = after at spans
  induction spans with
  | nil => exact ⟨fun _ _ => List.not_mem_nil.elim, fun _ _ => List.not_mem_nil.elim⟩
  | cons first _ ih =>
    have start := moved.order first.1
    have stop := moved.order first.2
    rw [List.forall_mem_cons, List.forall_mem_cons]
    exact and_congr (by omega) ih

/-! ### Tags -/

theorem afterPrefixFolded?_withReturns {name : List Char} (clean : OneLine name)
    (text : List Char) :
    afterPrefixFolded? name (withReturns text) =
      (afterPrefixFolded? name text).map withReturns := by
  have spelledClean {spelled : List Char} (same : SameName name spelled) : OneLine spelled :=
    ⟨same.not_mem (by decide) clean.1, same.not_mem (by decide) clean.2⟩
  refine Option.ext fun back => ?_
  rw [afterPrefixFolded?_eq_some_iff, Option.map_eq_some_iff]
  constructor
  · rintro ⟨spelled, split, same⟩
    obtain ⟨rest, whole, moved⟩ := rest_of_withReturns (spelledClean same) split
    exact ⟨rest, afterPrefixFolded?_eq_some_iff.mpr ⟨spelled, whole, same⟩, moved.symm⟩
  · rintro ⟨rest, found, rfl⟩
    obtain ⟨spelled, rfl, same⟩ := afterPrefixFolded?_eq_some_iff.mp found
    exact ⟨spelled, withReturns_word (spelledClean same) rest, same⟩

theorem endsName_withReturns (text : List Char) : endsName (withReturns text) = endsName text := by
  cases text with
  | nil => rfl
  | cons c text =>
    by_cases newline : c = '\n'
    · subst newline
      rfl
    · rw [withReturns_cons newline]
      rfl

/-- Whether a test passes in front of a `<` only, and as well if there are returns behind it. -/
structure AtTags (test : List Char → Bool) : Prop where
  angle {c rest} : test (c :: rest) = true → c = '<'
  withReturns rest : test ('<' :: withReturns rest) = test ('<' :: rest)

theorem atTags_opensTag {name : List Char} (clean : OneLine name) : AtTags (opensTag name) where
  angle opens := by
    obtain ⟨_, _, split, _⟩ := opensTag_iff.mp opens
    exact (List.cons.inj split).1
  withReturns rest := by
    rw [opensTag, opensTag, afterPrefixFolded?_withReturns clean, Option.any_map]
    exact congrArg (Option.any · _) (funext endsName_withReturns)

namespace AtTags

variable {test : List Char → Bool} (atTags : AtTags test)
include atTags

theorem placesFrom_withReturns {text : List Char} (front : List Char) {rest : List Char}
    (split : text = front ++ rest) :
    List.Forall₂ (Moved text) (placesFrom (byteLength front) test rest)
      (placesFrom (byteLength (Text.withReturns front)) test (Text.withReturns rest)) := by
  induction rest generalizing front with
  | nil => exact .nil
  | cons c rest ih =>
    have later := ih (front ++ [c]) (by rw [split, List.append_assoc]; rfl)
    rw [withReturns_append, byteLength_append, byteLength_append] at later
    have fails {d : Char} (other : d ≠ '<') (rest : List Char) : ¬ test (d :: rest) = true :=
      fun passes => other (atTags.angle passes)
    by_cases newline : c = '\n'
    · subst newline
      rw [withReturns_newline, placesFrom, if_neg (fails (by decide) _), placesFrom,
        if_neg (fails (by decide) _), placesFrom, if_neg (fails (by decide) _)]
      exact later
    · rw [withReturns_cons newline] at later ⊢
      by_cases angle : c = '<'
      · subst angle
        rw [placesFrom, placesFrom, atTags.withReturns]
        split
        · exact .cons ⟨front, '<' :: rest, split, rfl, rfl⟩ later
        · exact later
      · rw [placesFrom, if_neg (fails angle rest), placesFrom, if_neg (fails angle _)]
        exact later

theorem places_withReturns (text : List Char) :
    List.Forall₂ (Moved text) (places test text) (places test (Text.withReturns text)) :=
  atTags.placesFrom_withReturns [] rfl

end AtTags

theorem exists_of_forall₂ {α β : Type} {R : α → β → Prop} {xs : List α} {ys : List β}
    (related : List.Forall₂ R xs ys) {x : α} (member : x ∈ xs) : ∃ y ∈ ys, R x y := by
  induction related with
  | nil => cases member
  | cons first _ ih =>
    rcases List.mem_cons.mp member with rfl | later
    · exact ⟨_, List.mem_cons_self, first⟩
    · obtain ⟨y, inside, same⟩ := ih later
      exact ⟨y, List.mem_cons_of_mem _ inside, same⟩

/-- The returns move the tags of a source, and neither make nor hide one. -/
theorem aligned_withReturns (text : List Char) :
    Aligned text (withReturns text) OneLine (Moved text) where
  forth clean tag := by
    obtain ⟨place, visible⟩ := tagAt_iff_places.mp tag
    obtain ⟨p', place', moved⟩ :=
      exists_of_forall₂ ((atTags_opensTag clean).places_withReturns text) place
    exact ⟨p', moved, tagAt_iff_places.mpr ⟨place', visible_iff.mp
      ((visible_withReturns moved).mp tag.visible)⟩⟩
  back clean tag := by
    obtain ⟨place, visible⟩ := tagAt_iff_places.mp tag
    obtain ⟨p', place', moved⟩ :=
      exists_of_forall₂ ((atTags_opensTag clean).places_withReturns text).flip place
    exact ⟨p', moved, tagAt_iff_places.mpr ⟨place', visible_iff.mp
      ((visible_withReturns moved).mpr tag.visible)⟩⟩
  order := Moved.order
  line _ moved := moved.line

end PageLint.Markup
