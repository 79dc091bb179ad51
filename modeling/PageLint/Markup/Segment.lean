import PageLint.Text.Blank
import PageLint.Text.Letters

/-!
# Segments of a page's source

The source of a page is split into text, comments, start tags and the raw text after the start tags
of some elements. `segments_source` says that the segments, put together, are the source.
-/

namespace PageLint.Markup

open Text

/-- A part of a start tag: a quoted value with its quotes, or any other character. -/
inductive TagPart where
  | plain (c : Char)
  | quoted (text : List Char)
  deriving DecidableEq, Repr

inductive Segment where
  | text (text : List Char)
  | comment (text : List Char)
  | startTag (parts : List TagPart)
  | rawText (text : List Char)
  deriving DecidableEq, Repr

def TagPart.source : TagPart → List Char
  | plain c => [c]
  | quoted s => s

def Segment.source : Segment → List Char
  | text s => s
  | comment s => s
  | startTag parts => parts.flatMap TagPart.source
  | rawText s => s

def rawTextElements : List (List Char) :=
  ["script", "style", "textarea", "title", "xmp", "iframe", "noembed", "noframes"].map String.toList

def commentStart : List Char := ['<', '!', '-', '-']

def commentEnd : List Char := ['-', '-', '>']

def startsMarkup (text : List Char) : Bool :=
  (afterPrefix? commentStart text).isSome ||
    match text with
    | '<' :: c :: _ => isLetter c
    | _ => false

def splitText : List Char → List Char × List Char
  | [] => ([], [])
  | c :: rest =>
    if startsMarkup (c :: rest) then ([], c :: rest)
    else
      let (front, back) := splitText rest
      (c :: front, back)

/-- Splits off a comment, of which `text` follows the first four characters. -/
def splitComment (text : List Char) : List Char × List Char :=
  match splitAtFirst? commentEnd text with
  | some (inside, rest) => (commentStart ++ inside ++ commentEnd, rest)
  | none => (commentStart ++ text, [])

def isNameChar (c : Char) : Bool :=
  isLetter c || isDigit c

/-- Splits off the rest of a start tag after its name, up to its `>`. A value is quoted if its
quote follows an equals sign, blanks aside; `afterEquals` says that one has come. The last part of
the answer is missing if the text ends first. -/
def splitTag (afterEquals : Bool) (text : List Char) : List TagPart × Option (List Char) :=
  match text with
  | [] => ([], none)
  | c :: rest =>
    if c = '>' then ([.plain c], some rest)
    else if afterEquals && (c = '"' || c = '\'') then
      let value := rest.takeWhile (· ≠ c)
      match _h : rest.dropWhile (· ≠ c) with
      -- A value whose quote never closes goes on to the end of the text.
      | [] => ([.quoted (c :: value)], none)
      | quote :: after =>
        let (parts, rest) := splitTag false after
        (.quoted (c :: value ++ [quote]) :: parts, rest)
    else
      let (parts, rest) := splitTag (c = '=' || (afterEquals && isAsciiBlank c)) rest
      (.plain c :: parts, rest)
termination_by text.length
decreasing_by
  · have := (List.dropWhile_suffix (l := rest) (· ≠ c)).length_le
    rw [_h, List.length_cons] at this
    simp_wf; omega
  · simp_wf

def splitRaw (element : List Char) : List Char → List Char × List Char
  | [] => ([], [])
  | c :: rest =>
    if startsWith ('<' :: '/' :: element) (c :: rest) then ([], c :: rest)
    else
      let (front, back) := splitRaw element rest
      (c :: front, back)

theorem splitText_source (text : List Char) : (splitText text).1 ++ (splitText text).2 = text := by
  induction text with
  | nil => rfl
  | cons c rest ih =>
    unfold splitText
    split
    · rfl
    · simp [ih]

theorem splitComment_source (text : List Char) :
    (splitComment text).1 ++ (splitComment text).2 = commentStart ++ text := by
  unfold splitComment
  split
  · rename_i h; simp [eq_append_of_splitAtFirst? h]
  · simp

theorem splitTag_source (afterEquals : Bool) (text : List Char) :
    (splitTag afterEquals text).1.flatMap TagPart.source ++ (splitTag afterEquals text).2.getD [] =
      text := by
  fun_induction splitTag afterEquals text with
  | case1 => rfl
  | case2 => rfl
  | case3 afterEquals c rest _ _ value eq =>
    have := List.takeWhile_append_dropWhile (p := (· ≠ c)) (l := rest)
    rw [eq] at this
    simpa [TagPart.source, value] using this
  | case4 afterEquals c rest _ _ value quote after eq parts rest' found ih =>
    have := List.takeWhile_append_dropWhile (p := (· ≠ c)) (l := rest)
    rw [eq] at this
    rw [found] at ih
    simp only [List.flatMap_cons, TagPart.source, List.append_assoc, ih]
    simpa [value] using this
  | case5 afterEquals c rest _ _ parts rest' found ih =>
    rw [found] at ih
    simp [TagPart.source, ih]

theorem splitRaw_source (element text : List Char) :
    (splitRaw element text).1 ++ (splitRaw element text).2 = text := by
  induction text with
  | nil => rfl
  | cons c rest ih =>
    unfold splitRaw
    split
    · rfl
    · simp [ih]

theorem length_le_of_append_eq {front back text : List Char} (h : front ++ back = text) :
    back.length ≤ text.length := by
  rw [← h, List.length_append]; exact Nat.le_add_left ..

/-- The rest of a start tag after its `<`: its name, all of its parts, and what follows it. -/
def splitStartTag (text : List Char) : List Char × List TagPart × Option (List Char) :=
  let name := text.takeWhile isNameChar
  let (parts, rest) := splitTag false (text.dropWhile isNameChar)
  (name, ('<' :: name).map .plain ++ parts, rest)

theorem splitStartTag_source (text : List Char) :
    (splitStartTag text).2.1.flatMap TagPart.source ++ (splitStartTag text).2.2.getD [] =
      '<' :: text := by
  have inside := splitTag_source false (text.dropWhile isNameChar)
  have whole := List.takeWhile_append_dropWhile (p := isNameChar) (l := text)
  have plain (s : List Char) : (s.map TagPart.plain).flatMap TagPart.source = s := by
    induction s with
    | nil => rfl
    | cons c s ih => simp [TagPart.source, ih]
  simp only [splitStartTag, List.flatMap_append, plain, List.append_assoc, inside]
  simp [whole]

theorem length_splitStartTag_le {text name rest : List Char} {parts : List TagPart}
    (h : splitStartTag text = (name, parts, some rest)) : rest.length ≤ text.length := by
  have dropped := (List.dropWhile_suffix (l := text) isNameChar).length_le
  have inside := length_le_of_append_eq (splitTag_source false (text.dropWhile isNameChar))
  simp only [splitStartTag, Prod.mk.injEq] at h
  rw [h.2.2] at inside
  exact Nat.le_trans inside dropped

theorem length_splitComment_le (text : List Char) :
    (splitComment text).2.length ≤ text.length := by
  unfold splitComment
  split
  · rename_i h
    rw [eq_append_of_splitAtFirst? h]
    exact length_le_of_append_eq rfl
  · exact Nat.zero_le _

def segments (text : List Char) : List Segment :=
  match text with
  | [] => []
  | c :: rest =>
    match _h : afterPrefix? commentStart (c :: rest) with
    | some inside =>
      .comment (splitComment inside).1 :: segments (splitComment inside).2
    | none =>
      if startsMarkup (c :: rest) then
        match _h : splitStartTag rest with
        | (_, parts, none) => [.startTag parts]
        | (_, parts, some []) => [.startTag parts]
        | (name, parts, some (d :: after)) =>
          if rawTextElements.contains (lower name) then
            .startTag parts :: .rawText (splitRaw (lower name) (d :: after)).1 ::
              segments (splitRaw (lower name) (d :: after)).2
          else .startTag parts :: segments (d :: after)
      else .text (c :: (splitText rest).1) :: segments (splitText rest).2
termination_by text.length
decreasing_by
  · have := length_splitComment_le inside
    have := congrArg List.length (afterPrefix?_eq_some_iff.1 _h)
    simp only [commentStart, List.length_append, List.length_cons, List.length_nil] at this
    simp_wf; omega
  · have := length_splitStartTag_le _h
    have := length_le_of_append_eq (splitRaw_source (lower name) (d :: after))
    simp_wf; omega
  · have := length_splitStartTag_le _h
    simp_wf; rw [List.length_cons] at this; omega
  · have := length_le_of_append_eq (splitText_source rest)
    simp_wf; omega

/-- Text does not end before a character other than `<`. -/
theorem startsMarkup_eq_false {c : Char} (other : c ≠ '<') (rest : List Char) :
    startsMarkup (c :: rest) = false := by
  have noComment : afterPrefix? commentStart (c :: rest) = none := if_neg (Ne.symm other)
  unfold startsMarkup
  rw [noComment, Option.isSome_none, Bool.false_or]
  split
  · rename_i same
    exact absurd (List.cons.inj same).1 other
  · rfl

theorem eq_lt_of_startsMarkup {c : Char} {rest : List Char}
    (none : afterPrefix? commentStart (c :: rest) = none)
    (starts : startsMarkup (c :: rest) = true) : c = '<' := by
  simp only [startsMarkup, none, Option.isSome_none, Bool.false_or] at starts
  split at starts
  · rename_i h; injection h
  · cases starts

/-! What `segments` makes of the start of a source -/

theorem segments_comment {text inside : List Char}
    (found : afterPrefix? commentStart text = some inside) :
    segments text = .comment (splitComment inside).1 :: segments (splitComment inside).2 := by
  cases text with
  | nil => cases found
  | cons c rest =>
    rw [segments]
    split
    · rename_i found'
      rw [found] at found'
      cases found'
      rfl
    · rename_i none
      rw [found] at none
      cases none

def segmentsAfter (name : List Char) : Option (List Char) → List Segment
  | none => []
  | some [] => []
  | some (d :: after) =>
    if rawTextElements.contains (lower name) then
      .rawText (splitRaw (lower name) (d :: after)).1 ::
        segments (splitRaw (lower name) (d :: after)).2
    else segments (d :: after)

theorem segmentsAfter_some {text : List Char} (nonempty : text ≠ []) (name : List Char) :
    segmentsAfter name (some text) =
      if rawTextElements.contains (lower name) then
        .rawText (splitRaw (lower name) text).1 :: segments (splitRaw (lower name) text).2
      else segments text := by
  obtain ⟨d, after, rfl⟩ := List.exists_cons_of_ne_nil nonempty
  rfl

theorem segments_startTag {rest name : List Char} {parts : List TagPart}
    {after : Option (List Char)} (none : afterPrefix? commentStart ('<' :: rest) = none)
    (starts : startsMarkup ('<' :: rest) = true)
    (split : splitStartTag rest = (name, parts, after)) :
    segments ('<' :: rest) = .startTag parts :: segmentsAfter name after := by
  rw [segments]
  split
  · rename_i found
    rw [none] at found
    cases found
  · rw [if_pos starts]
    split
    all_goals
      rename_i split'
      rw [split] at split'
      cases split'
    · rfl
    · rfl
    · rw [segmentsAfter]
      split <;> rfl

theorem segments_text {text : List Char} (nonempty : text ≠ [])
    (unmarked : startsMarkup text = false) :
    segments text = .text (splitText text).1 :: segments (splitText text).2 := by
  obtain ⟨c, rest, rfl⟩ := List.exists_cons_of_ne_nil nonempty
  have plain : ¬ startsMarkup (c :: rest) = true := Bool.not_eq_true _ ▸ unmarked
  have noComment := Option.not_isSome_iff_eq_none.mp
    (Bool.eq_false_iff.mp (Bool.or_eq_false_iff.mp unmarked).1)
  rw [segments]
  split
  · rename_i found
    rw [noComment] at found
    cases found
  · rw [if_neg plain, splitText, if_neg plain]

/-- The segments, put together, are the source. -/
theorem segments_source (text : List Char) : (segments text).flatMap Segment.source = text := by
  fun_induction segments text with
  | case1 => rfl
  | case2 c rest inside found ih =>
    simp [Segment.source, ih, splitComment_source, afterPrefix?_eq_some_iff.1 found]
  | case3 c rest found starts name parts eq =>
    have := splitStartTag_source rest
    rw [eq, ← eq_lt_of_startsMarkup found starts] at this
    simpa [Segment.source] using this
  | case4 c rest found starts name parts eq =>
    have := splitStartTag_source rest
    rw [eq, ← eq_lt_of_startsMarkup found starts] at this
    simpa [Segment.source] using this
  | case5 c rest found starts name parts d after eq _ ih =>
    have := splitStartTag_source rest
    rw [eq, ← eq_lt_of_startsMarkup found starts] at this
    simpa [Segment.source, ih, splitRaw_source] using this
  | case6 c rest found starts name parts d after eq _ ih =>
    have := splitStartTag_source rest
    rw [eq, ← eq_lt_of_startsMarkup found starts] at this
    simpa [Segment.source, ih] using this
  | case7 c rest _ _ ih => simp [Segment.source, ih, splitText_source]

end PageLint.Markup
