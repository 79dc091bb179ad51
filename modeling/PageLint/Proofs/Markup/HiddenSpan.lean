import PageLint.Markup.Span

/-!
# Hidden spans in order

The spans of a source stand one after the other, so halving finds the only one that can hold a
byte: `isHidden_hiddenSpans` says that it answers whether any span does.
-/

namespace PageLint.Markup

open Text

structure SpansWithin (spans : List Span) (low high : Nat) : Prop where
  bounds : ∀ s ∈ spans, low ≤ s.start ∧ s.start ≤ s.stop ∧ s.stop ≤ high
  apart : spans.Pairwise fun a b => a.stop ≤ b.start

namespace SpansWithin

theorem nil (low high : Nat) : SpansWithin [] low high := ⟨by simp, List.Pairwise.nil⟩

theorem singleton {low start stop high : Nat} (first : low ≤ start) (order : start ≤ stop)
    (last : stop ≤ high) : SpansWithin [⟨start, stop⟩] low high := by
  refine ⟨?_, List.pairwise_singleton _ _⟩
  intro s member
  rw [List.mem_singleton.mp member]
  exact ⟨first, order, last⟩

theorem append {a b : List Span} {low middle high : Nat} (left : SpansWithin a low middle)
    (right : SpansWithin b middle high) (first : low ≤ middle) (last : middle ≤ high) :
    SpansWithin (a ++ b) low high := by
  refine ⟨?_, List.pairwise_append.mpr ⟨left.apart, right.apart, ?_⟩⟩
  · intro s member
    rcases List.mem_append.mp member with inLeft | inRight
    · obtain ⟨start, order, stop⟩ := left.bounds s inLeft
      exact ⟨start, order, Nat.le_trans stop last⟩
    · obtain ⟨start, order, stop⟩ := right.bounds s inRight
      exact ⟨Nat.le_trans first start, order, stop⟩
  · intro s inLeft t inRight
    exact Nat.le_trans (left.bounds s inLeft).2.2 (right.bounds t inRight).1

theorem mono {spans : List Span} {low low' high : Nat} (within : SpansWithin spans low high)
    (le : low' ≤ low) : SpansWithin spans low' high := by
  refine ⟨?_, within.apart⟩
  intro s member
  obtain ⟨start, rest⟩ := within.bounds s member
  exact ⟨Nat.le_trans le start, rest⟩

/-- A span that stands before another ends before that one starts. -/
theorem stop_le_start {spans : List Span} {low high i j : Nat} {s t : Span}
    (within : SpansWithin spans low high) (order : i < j) (first : spans[i]? = some s)
    (second : spans[j]? = some t) : s.stop ≤ t.start := by
  obtain ⟨hi, rfl⟩ := List.getElem?_eq_some_iff.mp first
  obtain ⟨hj, rfl⟩ := List.getElem?_eq_some_iff.mp second
  exact List.pairwise_iff_getElem.mp within.apart i j hi hj order

theorem start_le_start {spans : List Span} {low high i j : Nat} {s t : Span}
    (within : SpansWithin spans low high) (order : i ≤ j) (first : spans[i]? = some s)
    (second : spans[j]? = some t) : s.start ≤ t.start := by
  rcases Nat.lt_or_eq_of_le order with before | rfl
  · have inside := (within.bounds s (List.mem_of_getElem? first)).2.1
    exact Nat.le_trans inside (within.stop_le_start before first second)
  · obtain rfl := Option.some.inj (first.symm.trans second)
    exact Nat.le_refl _

end SpansWithin

/-! ### The spans of a source -/

theorem TagPart.spans_within (start : Nat) (parts : List TagPart) :
    SpansWithin (TagPart.spans start parts) start
      (start + byteLength (parts.flatMap TagPart.source)) := by
  induction parts generalizing start with
  | nil => exact SpansWithin.nil _ _
  | cons part rest ih =>
    rw [List.flatMap_cons, byteLength_append, ← Nat.add_assoc]
    cases part with
    | plain c => exact (ih (start + c.utf8Size)).mono (Nat.le_add_right _ _)
    | quoted s =>
      have value : SpansWithin [⟨start, start + byteLength s⟩] start (start + byteLength s) :=
        SpansWithin.singleton (Nat.le_refl _) (Nat.le_add_right _ _) (Nat.le_refl _)
      exact value.append (ih (start + byteLength s)) (Nat.le_add_right _ _) (Nat.le_add_right _ _)

theorem Segment.spans_within (start : Nat) (s : Segment) :
    SpansWithin (s.spans start) start (start + byteLength s.source) := by
  cases s with
  | text s => exact SpansWithin.nil _ _
  | comment s =>
    exact SpansWithin.singleton (Nat.le_refl _) (Nat.le_add_right _ _) (Nat.le_refl _)
  | startTag parts => exact TagPart.spans_within start parts
  | rawText s =>
    exact SpansWithin.singleton (Nat.le_refl _) (Nat.le_add_right _ _) (Nat.le_refl _)

theorem spansFrom_within (start : Nat) (segments : List Segment) :
    SpansWithin (spansFrom start segments) start
      (start + byteLength (segments.flatMap Segment.source)) := by
  induction segments generalizing start with
  | nil => exact SpansWithin.nil _ _
  | cons s rest ih =>
    rw [List.flatMap_cons, byteLength_append, ← Nat.add_assoc]
    exact (s.spans_within start).append (ih (start + byteLength s.source))
      (Nat.le_add_right _ _) (Nat.le_add_right _ _)

theorem hiddenSpans_within (text : List Char) :
    SpansWithin (hiddenSpans text) 0 (byteLength text) := by
  have all := spansFrom_within 0 (segments text)
  rw [segments_source, Nat.zero_add] at all
  exact all

/-- Nothing is hidden in characters that stand for themselves. -/
theorem TagPart.spans_plain (start : Nat) (cs : List Char) (parts : List TagPart) :
    TagPart.spans start (cs.map .plain ++ parts) = TagPart.spans (start + byteLength cs) parts := by
  induction cs generalizing start with
  | nil => rfl
  | cons c cs ih =>
    rw [byteLength_cons, ← Nat.add_assoc]
    exact ih (start + c.utf8Size)

/-! ### Start tags without attributes -/

def bareTag (name : List Char) : List TagPart :=
  ('<' :: (name ++ ['>'])).map .plain

theorem source_bareTag (name : List Char) :
    (Segment.startTag (bareTag name)).source = '<' :: (name ++ ['>']) := by
  rw [Segment.source, bareTag, List.flatMap_map]
  exact List.flatMap_singleton' _

theorem splitStartTag_plain {name : List Char} (plain : name.all isNameChar = true)
    (rest : List Char) : splitStartTag (name ++ '>' :: rest) = (name, bareTag name, some rest) := by
  have front := List.all_eq_true.mp plain
  have ends : ¬ isNameChar '>' = true := by decide
  have written : (name ++ '>' :: rest).takeWhile isNameChar = name := by
    rw [List.takeWhile_append_of_pos front, List.takeWhile_cons_of_neg ends, List.append_nil]
  have behind : (name ++ '>' :: rest).dropWhile isNameChar = '>' :: rest := by
    rw [List.dropWhile_append_of_pos front, List.dropWhile_cons_of_neg ends]
  have closed : splitTag false ('>' :: rest) = ([.plain '>'], some rest) := by
    rw [splitTag]
    rfl
  rw [splitStartTag, written, behind, closed, bareTag]
  simp

/-- What starts with `<` and a letter is no comment but a start tag. -/
theorem startsMarkup_letter {name : List Char} (letter : name.head?.any isLetter = true)
    (after : List Char) : afterPrefix? commentStart ('<' :: (name ++ after)) = none ∧
      startsMarkup ('<' :: (name ++ after)) = true := by
  cases name with
  | nil => cases letter
  | cons c name =>
    have noComment : afterPrefix? commentStart ('<' :: (c :: name ++ after)) = none := by
      rw [Option.eq_none_iff_forall_ne_some]
      intro inside found
      rw [afterPrefix?_eq_some_iff] at found
      obtain ⟨rfl, _⟩ := List.cons.inj (List.cons.inj found).2
      cases letter
    refine ⟨noComment, ?_⟩
    rw [List.cons_append] at noComment ⊢
    rw [startsMarkup, noComment]
    exact letter

theorem spansFrom_bareTag (start : Nat) (name : List Char) (later : List Segment) :
    spansFrom start (.startTag (bareTag name) :: later) =
      spansFrom (start + byteLength ('<' :: (name ++ ['>']))) later := by
  have none : TagPart.spans start (bareTag name) = [] := by
    rw [bareTag, ← List.append_nil (List.map _ _), TagPart.spans_plain]
    rfl
  rw [spansFrom, Segment.spans, none, List.nil_append, source_bareTag]

theorem hiddenSpans_bareTag {name : List Char} (letter : name.head?.any isLetter = true)
    (plain : name.all isNameChar = true) : hiddenSpans ('<' :: (name ++ ['>'])) = [] := by
  obtain ⟨noComment, starts⟩ := startsMarkup_letter letter ['>']
  rw [hiddenSpans, segments_startTag noComment starts (splitStartTag_plain plain []), segmentsAfter,
    spansFrom_bareTag]
  rfl

/-! ### Looking a byte up -/

/-- What halving knows: the spans before `low` start at or before byte `n`, and those from `high`
on start after it. -/
structure Halved (spans : List Span) (n low high : Nat) : Prop where
  low_le_high : low ≤ high
  high_le_length : high ≤ spans.length
  started : ∀ i s, spans[i]? = some s → i < low → s.start ≤ n
  ahead : ∀ i s, spans[i]? = some s → high ≤ i → n < s.start

theorem startedSpans_halved {spans : List Span} {first last n low high : Nat}
    (within : SpansWithin spans first last) (halved : Halved spans n low high) :
    Halved spans n (startedSpans spans.toArray n low high)
      (startedSpans spans.toArray n low high) := by
  fun_induction startedSpans spans.toArray n low high with
  | case1 low high open_ middle begun ih =>
    have inside : middle < spans.length := by have := halved.high_le_length; omega
    have found : spans[middle]? = some spans[middle] := List.getElem?_eq_getElem inside
    have start : spans[middle].start ≤ n := by
      rw [List.getElem?_toArray, found] at begun
      simpa using begun
    apply ih
    refine ⟨by omega, halved.high_le_length, ?_, halved.ahead⟩
    intro i s at_i before
    exact Nat.le_trans (within.start_le_start (by omega) at_i found) start
  | case2 low high open_ middle begun ih =>
    have inside : middle < spans.length := by have := halved.high_le_length; omega
    have found : spans[middle]? = some spans[middle] := List.getElem?_eq_getElem inside
    have start : n < spans[middle].start := by
      rw [List.getElem?_toArray, found] at begun
      simpa using begun
    apply ih
    refine ⟨by omega, by omega, halved.started, ?_⟩
    intro i s at_i after
    exact Nat.lt_of_lt_of_le start (within.start_le_start after found at_i)
  | case3 low high closed =>
    obtain rfl : low = high := Nat.le_antisymm halved.low_le_high (Nat.le_of_not_lt closed)
    exact halved

theorem startedSpans_spec {spans : List Span} {first last : Nat}
    (within : SpansWithin spans first last) (n : Nat) :
    Halved spans n (startedSpans spans.toArray n 0 spans.length)
      (startedSpans spans.toArray n 0 spans.length) := by
  apply startedSpans_halved within
  refine ⟨Nat.zero_le _, Nat.le_refl _, ?_, ?_⟩
  · intro i s _ before
    exact absurd before (Nat.not_lt_zero i)
  · intro i s at_i after
    rw [List.getElem?_eq_none after] at at_i
    cases at_i

theorem isHidden_iff {spans : List Span} {first last : Nat}
    (within : SpansWithin spans first last) (n : Nat) :
    isHidden spans.toArray n = true ↔ ∃ s ∈ spans, s.start ≤ n ∧ n < s.stop := by
  have found := startedSpans_spec within n
  rw [isHidden, List.size_toArray]
  generalize startedSpans spans.toArray n 0 spans.length = count at found
  cases count with
  | zero =>
    refine ⟨fun h => by simp at h, ?_⟩
    rintro ⟨s, member, start, _⟩
    obtain ⟨i, at_i⟩ := List.mem_iff_getElem?.mp member
    have after := found.ahead i s at_i (Nat.zero_le i)
    omega
  | succ count =>
    have inside : count < spans.length := found.high_le_length
    have last := List.getElem?_eq_getElem inside
    have start := found.started count _ last (Nat.lt_succ_self count)
    simp only [List.getElem?_toArray, last, Option.any_some, decide_eq_true_eq]
    constructor
    · intro stop
      exact ⟨_, List.getElem_mem inside, start, stop⟩
    · rintro ⟨s, member, begun, stop⟩
      obtain ⟨i, at_i⟩ := List.mem_iff_getElem?.mp member
      -- A span after the last one that starts in time starts too late, one before it ends too soon.
      rcases Nat.lt_trichotomy i count with before | rfl | after
      · have := within.stop_le_start before at_i last
        omega
      · rw [last] at at_i
        rw [Option.some.inj at_i]
        exact stop
      · have := found.ahead i s at_i after
        omega

theorem isHidden_hiddenSpans (text : List Char) (n : Nat) :
    isHidden (hiddenSpans text).toArray n = true ↔
      ∃ s ∈ hiddenSpans text, s.start ≤ n ∧ n < s.stop :=
  isHidden_iff (hiddenSpans_within text) n

end PageLint.Markup
