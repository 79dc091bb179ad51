import PageLint.Proofs.Html.RawText
import PageLint.Proofs.Markup.Alignment
import PageLint.Proofs.Text.Start

/-!
# Tags around a raw text

In a page that starts with a raw text there is no tag in that text, and the rest of the page has the
tags that it would have alone: `tagAt_rawPage`. So pages that differ in the raw text only are aligned.
-/

namespace PageLint.Markup

open Text
open Html (Plain PlainName textElements rawStart rawEnd rawPage)

/-! ### Segments -/

theorem segments_plain {name : List Char} (letter : name.head?.any isLetter = true)
    (plain : name.all isNameChar = true) (d : Char) (after : List Char) :
    segments ('<' :: (name ++ '>' :: d :: after)) = .startTag (bareTag name) ::
      if rawTextElements.contains (lower name) then
        .rawText (splitRaw (lower name) (d :: after)).1 ::
          segments (splitRaw (lower name) (d :: after)).2
      else segments (d :: after) := by
  obtain ⟨noComment, starts⟩ := startsMarkup_letter letter ('>' :: d :: after)
  exact segments_startTag noComment starts (splitStartTag_plain plain (d :: after))

theorem splitRaw_plain {name : List Char} (rest : List Char) {text : List Char}
    (plain : Plain text) :
    splitRaw name (text ++ rawEnd name rest) = (text, rawEnd name rest) := by
  induction text with
  | nil =>
    have starts : startsWith ('<' :: '/' :: name) ('<' :: '/' :: (name ++ '>' :: rest)) = true := by
      refine startsWith_iff.mpr ⟨lower ('>' :: rest), ?_⟩
      rw [lower, lower, ← List.map_append]
      rfl
    rw [List.nil_append, rawEnd, splitRaw, if_pos starts]
  | cons c text ih =>
    have goesOn : ¬ startsWith ('<' :: '/' :: name) (c :: (text ++ rawEnd name rest)) = true := by
      intro starts
      obtain ⟨first, later⟩ := List.cons_prefix_cons.mp (startsWith_iff.mp starts)
      obtain rfl := eq_of_toLower_eq (d := '<') (by decide) first.symm
      cases text with
      | nil => exact absurd (List.cons_prefix_cons.mp later).1 (by decide)
      | cons d text =>
        obtain rfl := eq_of_toLower_eq (d := '/') (by decide)
          (List.cons_prefix_cons.mp later).1.symm
        exact plain.closing ⟨[], text, rfl⟩
    rw [List.cons_append, splitRaw, if_neg goesOn,
      ih (plain.suffix (List.suffix_cons c text))]

/-! ### Hidden spans -/

def Span.shift (n : Nat) (s : Span) : Span :=
  ⟨n + s.start, n + s.stop⟩

theorem TagPart.spans_shift (n start : Nat) (parts : List TagPart) :
    TagPart.spans (n + start) parts = (TagPart.spans start parts).map (Span.shift n) := by
  induction parts generalizing start with
  | nil => rfl
  | cons part parts ih =>
    cases part with
    | plain c => rw [TagPart.spans, TagPart.spans, Nat.add_assoc, ih]
    | quoted s =>
      rw [TagPart.spans, TagPart.spans, Nat.add_assoc, ih]
      rfl

theorem Segment.spans_shift (n start : Nat) (s : Segment) :
    s.spans (n + start) = (s.spans start).map (Span.shift n) := by
  cases s with
  | text s => rfl
  | comment s =>
    rw [Segment.spans, Segment.spans, Nat.add_assoc]
    rfl
  | startTag parts => exact TagPart.spans_shift n start parts
  | rawText s =>
    rw [Segment.spans, Segment.spans, Nat.add_assoc]
    rfl

theorem spansFrom_shift (n start : Nat) (segments : List Segment) :
    spansFrom (n + start) segments = (spansFrom start segments).map (Span.shift n) := by
  induction segments generalizing start with
  | nil => rfl
  | cons s segments ih =>
    rw [spansFrom, spansFrom, Nat.add_assoc, ih, Segment.spans_shift, List.map_append]

/-! ### Names without `>` -/

theorem opensTag_gt {wanted : List Char} (clean : '>' ∉ wanted) {front back : List Char}
    (opens : opensTag wanted ('<' :: (front ++ '>' :: back)) = true) (back' : List Char) :
    opensTag wanted ('<' :: (front ++ '>' :: back')) = true := by
  obtain ⟨spelled, later, split, same, ends⟩ := opensTag_iff.mp opens
  have cleanSpelled : '>' ∉ spelled := same.not_mem (by decide) clean
  obtain ⟨middle, rfl, rfl⟩ :
      ∃ middle, front = spelled ++ middle ∧ later = middle ++ '>' :: back := by
    rcases List.append_eq_append_iff.mp (List.cons.inj split).2 with
      ⟨more, rfl, gt⟩ | ⟨more, rfl, later⟩
    · cases more with
      | nil => exact ⟨[], by simp, gt.symm⟩
      | cons d more =>
        obtain ⟨rfl, _⟩ := List.cons.inj gt
        exact absurd (by simp) cleanSpelled
    · exact ⟨more, rfl, later⟩
  refine opensTag_iff.mpr ⟨spelled, middle ++ '>' :: back', by simp, same, ?_⟩
  cases middle with
  | nil => exact .inr ⟨'>', back', rfl, .inr (.inr rfl)⟩
  | cons d middle =>
    rcases ends with none | ⟨e, _, first, ending⟩
    · cases none
    · obtain ⟨rfl, _⟩ := List.cons.inj first
      exact .inr ⟨d, _, rfl, ending⟩

/-! ### A text at the start of a page -/

/-- Whether a text stays text in an element: it neither ends it nor hides its end, and shows no tag
where a search for tags goes on in it. -/
structure Unread (name text : List Char) : Prop where
  plain : Plain text
  clear : name = "noscript".toList → '<' ∉ text

/-- Text makes no span, so it may be read one character at a time. -/
theorem spansFrom_unmarked {c : Char} {rest : List Char} (start : Nat)
    (unmarked : startsMarkup (c :: rest) = false) :
    spansFrom start (segments (c :: rest)) =
      spansFrom (start + c.utf8Size) (segments rest) := by
  have asText (text : List Char) (nonempty : text ≠ []) (unmarked : startsMarkup text = false)
      (start : Nat) : spansFrom start (segments text) =
        spansFrom (start + byteLength (splitText text).1) (segments (splitText text).2) := by
    rw [segments_text nonempty unmarked, spansFrom, Segment.spans, List.nil_append, Segment.source]
  rw [asText _ (List.cons_ne_nil c rest) unmarked, splitText,
    if_neg (Bool.not_eq_true _ ▸ unmarked), byteLength_cons, ← Nat.add_assoc]
  cases marked : startsMarkup rest with
  | true =>
    cases rest with
    | nil => rfl
    | cons d rest =>
      rw [splitText, if_pos marked]
      rfl
  | false =>
    by_cases empty : rest = []
    · subst empty
      rfl
    · rw [asText rest empty marked]

theorem spansFrom_unangled {text : List Char} (plain : '<' ∉ text) (start : Nat)
    (after : List Char) : spansFrom start (segments (text ++ after)) =
      spansFrom (start + byteLength text) (segments after) := by
  induction text generalizing start with
  | nil => rfl
  | cons c text ih =>
    obtain ⟨other, later⟩ := not_or.mp (List.mem_cons.not.mp plain)
    rw [List.cons_append, spansFrom_unmarked start (startsMarkup_eq_false (Ne.symm other) _),
      ih later, byteLength_cons, Nat.add_assoc]

variable {name : List Char} (known : name ∈ textElements)
include known

theorem textName_facts : name.head?.any isLetter = true ∧ name.all isNameChar = true ∧
    lower name = name := by
  have table : ∀ name ∈ textElements, name.head?.any isLetter = true ∧
      name.all isNameChar = true ∧ lower name = name := by decide +kernel
  exact table name known

theorem segments_rawPage {text : List Char} (plain : Plain text) (rest : List Char) :
    segments (rawPage name text rest) =
      .startTag (bareTag "body".toList) :: .startTag (bareTag name) ::
        if rawTextElements.contains name then .rawText text :: segments (rawEnd name rest)
        else segments (text ++ rawEnd name rest) := by
  obtain ⟨letter, nameChars, lowered⟩ := textName_facts known
  have page : rawPage name text rest = '<' :: ("body".toList ++ '>' :: '<' :: (name ++ '>' ::
      (text ++ rawEnd name rest))) := by
    rw [rawPage, Html.rawStart_eq]
    simp only [List.cons_append, List.append_assoc, List.nil_append]
  have bodyLetter : "body".toList.head?.any isLetter = true := by decide +kernel
  have body := segments_plain bodyLetter (by decide +kernel) '<'
    (name ++ '>' :: (text ++ rawEnd name rest))
  have ordinary : rawTextElements.contains (lower "body".toList) = false := by decide +kernel
  rw [ordinary] at body
  obtain ⟨d, after, something⟩ : ∃ d after, text ++ rawEnd name rest = d :: after := by
    cases text with
    | nil => exact ⟨_, _, rfl⟩
    | cons c text => exact ⟨_, _, rfl⟩
  have inside := segments_plain letter nameChars d after
  rw [lowered, ← something, splitRaw_plain rest plain] at inside
  rw [page, body, if_neg Bool.false_ne_true, inside]

/-- A text is hidden if its element is known to hold raw text. -/
theorem hiddenSpans_rawPage {text : List Char} (unread : Unread name text) (rest : List Char) :
    hiddenSpans (rawPage name text rest) =
      (if rawTextElements.contains name then
          [⟨byteLength (rawStart name), byteLength (rawStart name) + byteLength text⟩] else []) ++
        (hiddenSpans (rawEnd name rest)).map
          (Span.shift (byteLength (rawStart name) + byteLength text)) := by
  have start : byteLength (rawStart name) = 0 + byteLength ('<' :: ("body".toList ++ ['>'])) +
      byteLength ('<' :: (name ++ ['>'])) := by
    rw [Html.rawStart_eq]
    simp only [byteLength_cons, byteLength_append, byteLength_nil]
    omega
  have shifted := spansFrom_shift (byteLength (rawStart name) + byteLength text) 0
    (segments (rawEnd name rest))
  rw [Nat.add_zero] at shifted
  rw [hiddenSpans, segments_rawPage known unread.plain, spansFrom_bareTag, spansFrom_bareTag,
    ← start]
  split
  · rw [spansFrom, Segment.source, shifted]
    rfl
  · rename_i unlisted
    have noscript : name = "noscript".toList := by
      rcases List.mem_cons.mp known with noscript | raw
      · exact noscript
      · exact absurd (List.contains_iff_mem.mpr raw) unlisted
    rw [spansFrom_unangled (unread.clear noscript), shifted]
    rfl

theorem visible_rawPage {text : List Char} (unread : Unread name text) (rest : List Char)
    {p : Nat} :
    (∀ s ∈ hiddenSpans (rawPage name text rest), ¬ (s.start ≤ p ∧ p < s.stop)) ↔
      (name ∈ rawTextElements → ¬ (byteLength (rawStart name) ≤ p ∧
        p < byteLength (rawStart name) + byteLength text)) ∧
      ∀ s ∈ hiddenSpans (rawEnd name rest),
        ¬ (byteLength (rawStart name) + byteLength text + s.start ≤ p ∧
          p < byteLength (rawStart name) + byteLength text + s.stop) := by
  rw [hiddenSpans_rawPage known unread, List.forall_mem_append, List.forall_mem_map]
  refine and_congr_left fun _ => ?_
  split
  · rename_i listed
    simp [List.contains_iff_mem.mp listed]
  · rename_i unlisted
    simp [List.contains_iff_mem.not.mp unlisted]

omit known in
/-- A part of a source that starts with some character lies in front of a border or behind it. -/
theorem append_eq_append_cons {α : Type} {front back before after : List α} {x : α}
    (same : front ++ back = before ++ x :: after) :
    (∃ inner, front = before ++ x :: inner ∧ after = inner ++ back) ∨
      ∃ inner, before = front ++ inner ∧ back = inner ++ x :: after := by
  rcases List.append_eq_append_iff.mp same with ⟨more, split, rest⟩ | ⟨more, split, rest⟩
  · exact .inr ⟨more, split, rest⟩
  · cases more with
    | nil => exact .inr ⟨[], by simpa using split.symm, rest.symm⟩
    | cons d more =>
      obtain ⟨rfl, rfl⟩ := List.cons.inj rest
      exact .inl ⟨more, split, rfl⟩

omit known in
theorem rawStart_split {front back : List Char} (split : rawStart name = front ++ '<' :: back) :
    ∃ inner, back = inner ++ ['>'] := by
  unfold rawStart at split
  rcases List.eq_nil_or_concat back with rfl | ⟨inner, last, rfl⟩
  · cases (List.append_inj' split rfl).2
  · rw [List.concat_eq_append, ← List.cons_append, ← List.append_assoc] at split
    cases (List.append_inj' split rfl).2
    exact ⟨inner, List.concat_eq_append ..⟩

/-- A tag that starts before the text is one of the two before it. -/
theorem tagAt_rawStart {wanted : List Char} {p : Nat} :
    TagAt (rawStart name) wanted p ↔ ∃ front back, rawStart name = front ++ '<' :: back ∧
      p = byteLength front ∧ opensTag wanted ('<' :: back) = true := by
  have visible : ∀ name ∈ textElements, hiddenSpans (rawStart name) = [] := by decide +kernel
  rw [tagAt_iff, visible name known]
  exact and_iff_left fun s member => by cases member

/-- A tag of a page stands before the text at its start or behind it. -/
theorem TagAt.of_rawPage {text : List Char} (unread : Unread name text) {rest wanted : List Char}
    (clean : '>' ∉ wanted) {p : Nat} (tag : TagAt (rawPage name text rest) wanted p) :
    TagAt (rawStart name) wanted p ∨ ∃ q, TagAt (rawEnd name rest) wanted q ∧
      p = byteLength (rawStart name) + byteLength text + q := by
  rw [tagAt_iff, visible_rawPage known unread] at tag
  obtain ⟨⟨front, back, split, place, opens⟩, notInside, visible⟩ := tag
  rw [rawPage, List.append_assoc] at split
  rcases append_eq_append_cons split with ⟨inner, inFront, rfl⟩ | ⟨later, rfl, behindStart⟩
  · left
    obtain ⟨inner, rfl⟩ := rawStart_split inFront
    rw [List.append_assoc, List.singleton_append] at opens
    exact (tagAt_rawStart known).mpr ⟨front, _, inFront, place, opensTag_gt clean opens _⟩
  · right
    rw [byteLength_append] at place
    rcases append_eq_append_cons behindStart with ⟨inner, rfl, _⟩ | ⟨behind, rfl, inEnd⟩
    · -- A tag in the text would be hidden, and there is none where nothing is.
      exfalso
      rcases List.mem_cons.mp known with noscript | raw
      · exact unread.clear noscript (by simp)
      · have size := '<'.utf8Size_pos
        rw [byteLength_append, byteLength_cons] at notInside
        exact notInside raw (by omega)
    · rw [byteLength_append] at place
      refine ⟨byteLength behind, tagAt_iff.mpr ⟨⟨behind, back, inEnd, rfl, opens⟩, ?_⟩, by omega⟩
      intro s member
      have shifted := visible s member
      omega

/-- The tags of a page are those before the text at its start and those from the closing tag on. -/
theorem tagAt_rawPage {text : List Char} (unread : Unread name text) (rest : List Char)
    {wanted : List Char} (clean : '>' ∉ wanted) {p : Nat} :
    TagAt (rawPage name text rest) wanted p ↔ TagAt (rawStart name) wanted p ∨
      ∃ q, TagAt (rawEnd name rest) wanted q ∧
        p = byteLength (rawStart name) + byteLength text + q := by
  refine ⟨(·.of_rawPage known unread clean), fun found => tagAt_iff.mpr ?_⟩
  rw [visible_rawPage known unread]
  rcases found with tag | ⟨q, tag, rfl⟩
  · have before : p < byteLength (rawStart name) := tag.lt_byteLength
    obtain ⟨front, back, split, place, opens⟩ := (tagAt_rawStart known).mp tag
    obtain ⟨inner, rfl⟩ := rawStart_split split
    have opens' := opensTag_gt clean opens (text ++ rawEnd name rest)
    refine ⟨⟨front, _, ?_, place, opens'⟩, fun _ => by omega, fun s _ => by omega⟩
    rw [rawPage, split]
    simp
  · obtain ⟨⟨front, back, split, rfl, opens⟩, visible⟩ := tagAt_iff.mp tag
    refine ⟨⟨rawStart name ++ text ++ front, back, ?_, ?_, opens⟩, fun _ => by omega, ?_⟩
    · rw [rawPage, split]
      simp
    · rw [byteLength_append, byteLength_append]
    · intro s member
      have apart := visible s member
      omega

/-! ### Two texts -/

/-- Where a byte of a page comes to lie if what follows its first `start` bytes takes `size'` bytes
and not `size`. -/
def Resized (start size size' p p' : Nat) : Prop :=
  (p < start ∧ p' = p) ∨ ∃ q, p = start + size + q ∧ p' = start + size' + q

omit known in
theorem Resized.order {start size size' p p' q q' : Nat} (first : Resized start size size' p p')
    (second : Resized start size size' q q') : p < q ↔ p' < q' := by
  rcases first with ⟨_, rfl⟩ | ⟨m, rfl, rfl⟩ <;> rcases second with ⟨_, rfl⟩ | ⟨n, rfl, rfl⟩ <;>
    omega

/-- A tag of one page stands in the other, on the same line. -/
theorem tagAt_resized {text text' : List Char} (unread : Unread name text)
    (unread' : Unread name text') (lines : text.count '\n' = text'.count '\n') (rest : List Char)
    {wanted : List Char} (clean : '>' ∉ wanted) {p : Nat}
    (tag : TagAt (rawPage name text rest) wanted p) :
    ∃ p', Resized (byteLength (rawStart name)) (byteLength text) (byteLength text') p p' ∧
      TagAt (rawPage name text' rest) wanted p' ∧
      lineOf (some p) (rawPage name text rest) = lineOf (some p') (rawPage name text' rest) := by
  have found {q : Nat} := (tagAt_rawPage known unread' rest clean (p := q)).mpr
  rcases (tagAt_rawPage known unread rest clean).mp tag with early | ⟨q, late, rfl⟩
  · refine ⟨p, .inl ⟨early.lt_byteLength, rfl⟩, found (.inl early), ?_⟩
    obtain ⟨front, back, split, rfl, _⟩ := (tagAt_rawStart known).mp early
    simp only [rawPage, split, List.append_assoc, lineOf_byteLength]
  · refine ⟨_, .inr ⟨q, rfl, rfl⟩, found (.inr ⟨q, late, rfl⟩), ?_⟩
    obtain ⟨⟨front, back, split, rfl, _⟩, _⟩ := tagAt_iff.mp late
    have line (t : List Char) : lineOf (some (byteLength (rawStart name) + byteLength t +
        byteLength front)) (rawPage name t rest) =
          1 + (rawStart name ++ t ++ front).count '\n' := by
      rw [← byteLength_append, ← byteLength_append, rawPage, split, ← List.append_assoc,
        lineOf_byteLength]
    rw [line, line]
    simp only [List.count_append, lines]

theorem aligned_rawPage {text text' : List Char} (unread : Unread name text)
    (unread' : Unread name text') (lines : text.count '\n' = text'.count '\n') (rest : List Char) :
    Aligned (rawPage name text rest) (rawPage name text' rest) ('>' ∉ ·) fun p p' =>
      Resized (byteLength (rawStart name)) (byteLength text) (byteLength text') p p' ∧
        lineOf (some p) (rawPage name text rest) = lineOf (some p') (rawPage name text' rest) where
  forth clean tag := by
    obtain ⟨p', resized, tag', line⟩ :=
      tagAt_resized known unread unread' lines rest clean tag
    exact ⟨p', ⟨resized, line⟩, tag'⟩
  back clean tag' := by
    obtain ⟨p, resized, tag, line⟩ :=
      tagAt_resized known unread' unread lines.symm rest clean tag'
    refine ⟨p, ⟨?_, line.symm⟩, tag⟩
    rcases resized with ⟨before, rfl⟩ | ⟨q, there, here⟩
    · exact .inl ⟨before, rfl⟩
    · exact .inr ⟨q, here, there⟩
  order first second := first.1.order second.1
  line _ related := related.2

end PageLint.Markup
