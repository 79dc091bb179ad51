import PageLint.Proofs.Markup.ByteScan

/-!
# The order of hidden spans

Comments and quoted values hide at least one byte, and an empty raw text stands in front of a closing
tag, which is text. So each hidden span starts behind the start of the one before it.
-/

namespace PageLint.Markup

open Text

variable {text : List Char} {parts : List Segment}

def Rising (spans : List Span) : Prop :=
  spans.Pairwise fun a b => a.start < b.start

theorem rising_of_nonempty {spans : List Span} {low high : Nat} (within : SpansWithin spans low high)
    (nonempty : ∀ s ∈ spans, s.start < s.stop) : Rising spans := by
  refine within.apart.imp_of_mem ?_
  intro a b member _ apart
  exact Nat.lt_of_lt_of_le (nonempty a member) apart

theorem Rising.append {a b : List Span} {low middle high : Nat} (left : Rising a)
    (within : SpansWithin a low middle) (nonempty : ∀ s ∈ a, s.start < s.stop) (right : Rising b)
    (behind : SpansWithin b middle high) : Rising (a ++ b) := by
  refine List.pairwise_append.mpr ⟨left, right, ?_⟩
  intro s first t second
  exact Nat.lt_of_lt_of_le (nonempty s first)
    (Nat.le_trans (within.bounds s first).2.2 (behind.bounds t second).1)

/-! ### Start tags -/

theorem TagReading.nonempty {before parts : List TagPart} {rest : Option (List Char)}
    (reading : TagReading before text parts rest) :
    ∀ n, ∀ s ∈ TagPart.spans n parts, s.start < s.stop := by
  induction reading with
  | finished => exact fun n s member => absurd member List.not_mem_nil
  | cut => exact fun n s member => absurd member List.not_mem_nil
  | plain _ _ _ ih => exact fun n => ih _
  | quoted opens inside _ ih =>
    intro n s member
    rcases List.mem_cons.mp member with rfl | later
    · exact Nat.lt_add_of_pos_right (byteLength_pos.mpr (List.cons_ne_nil _ _))
    · exact ih _ s later
  | openQuote =>
    intro n s member
    rw [List.mem_singleton.mp member]
    exact Nat.lt_add_of_pos_right (byteLength_pos.mpr (List.cons_ne_nil _ _))

theorem StartTag.nonempty {name : List Char} {parts : List TagPart} {rest : Option (List Char)}
    (tag : StartTag text name parts rest) (n : Nat) :
    ∀ s ∈ TagPart.spans n parts, s.start < s.stop := by
  cases tag with
  | intro letter word ends reading =>
    rw [TagPart.spans_plain]
    exact reading.nonempty _

theorem StartTag.rising {name : List Char} {parts : List TagPart} {rest : Option (List Char)}
    (tag : StartTag text name parts rest) (n : Nat) : Rising (TagPart.spans n parts) :=
  rising_of_nonempty (TagPart.spans_within n parts) (tag.nonempty n)

/-! ### Empty raw texts -/

/-- A closing tag is text. -/
theorem not_beginsMarkup_closing {name : List Char}
    (closing : lower ('<' :: '/' :: name) <+: lower text) : ¬ BeginsMarkup text := by
  have slash : ['<', '/'] <+: lower text :=
    List.IsPrefix.trans (List.prefix_append ['<', '/'] (lower name)) closing
  obtain ⟨rest, rfl⟩ := (prefix_lower_iff (by decide)).mp slash
  rintro (⟨inside, comment⟩ | ⟨c, rest', same, letter⟩)
  · cases comment
  · cases same
    cases letter

theorem lt_start_of_unmarked (segmentation : Segmentation text parts)
    (unmarked : ¬ BeginsMarkup text) (n : Nat) : ∀ s ∈ spansFrom n parts, n < s.start := by
  have begins {name : List Char} {parts : List TagPart} {rest : Option (List Char)}
      (tag : StartTag text name parts rest) : BeginsMarkup text := by
    obtain ⟨_, _, _, starts, _⟩ := tag.begins
    exact startsMarkup_iff.mp starts
  cases segmentation with
  | done => exact fun s member => absurd member List.not_mem_nil
  | @text run rest later nonempty _ _ =>
    intro s member
    have behind := ((spansFrom_within (n + byteLength run) later).bounds s member).1
    exact Nat.lt_of_lt_of_le (Nat.lt_add_of_pos_right (byteLength_pos.mpr nonempty)) behind
  | comment => exact absurd (.inl (List.prefix_append _ _)) unmarked
  | openComment => exact absurd (.inl (List.prefix_append _ _)) unmarked
  | startTag tag => exact absurd (begins tag) unmarked
  | openTag tag => exact absurd (begins tag) unmarked
  | rawText tag => exact absurd (begins tag) unmarked

/-! ### Sources -/

theorem Segmentation.rising (segmentation : Segmentation text parts) :
    ∀ n, Rising (spansFrom n parts) := by
  induction segmentation with
  | done => exact fun n => List.Pairwise.nil
  | @text run rest later _ _ _ ih => exact fun n => ih (n + byteLength run)
  | @comment inside rest later _ _ ih =>
    intro n
    refine List.pairwise_cons.mpr ⟨?_, ih _⟩
    intro s member
    have behind := ((spansFrom_within _ later).bounds s member).1
    have size : 0 < byteLength (commentStart ++ inside ++ commentEnd) :=
      byteLength_pos.mpr (List.cons_ne_nil _ _)
    exact Nat.lt_of_lt_of_le (Nat.lt_add_of_pos_right size) behind
  | openComment => exact fun n => List.pairwise_singleton _ _
  | @startTag text name rest parts later tag _ _ ih =>
    intro n
    exact (tag.rising n).append (TagPart.spans_within n parts) (tag.nonempty n) (ih _)
      (spansFrom_within _ later)
  | openTag tag =>
    intro n
    rw [spansFrom, spansFrom, List.append_nil]
    exact tag.rising n
  | @rawText text name body rest parts later tag nonempty raw reaches next ih =>
    intro n
    refine (tag.rising n).append (TagPart.spans_within n parts) (tag.nonempty n) ?_
      (spansFrom_within _ (.rawText body :: later))
    refine List.pairwise_cons.mpr ⟨?_, ih _⟩
    intro s member
    have behind := ((spansFrom_within _ later).bounds s member).1
    by_cases empty : body = []
    · -- What follows an empty raw text is its closing tag.
      subst empty
      have closing := reaches.stops.resolve_left nonempty
      exact lt_start_of_unmarked next (not_beginsMarkup_closing closing) _ s member
    · exact Nat.lt_of_lt_of_le (Nat.lt_add_of_pos_right (byteLength_pos.mpr empty)) behind

/-- The search for hidden spans ends and never cuts the source past its end or within a character. The
spans it finds lie within the source, each starts behind the start of the one before it and not before
its end, and halving tells of every byte whether a span holds it. -/
theorem hiddenSpans_safe (text : List Char) :
    byteScan? text = some (hiddenSpans text) ∧
    (hiddenSpans text).Pairwise (fun a b => a.start < b.start ∧ a.stop ≤ b.start) ∧
    (∀ s ∈ hiddenSpans text, s.start ≤ s.stop ∧ s.stop ≤ byteLength text) ∧
    ∀ n, isHidden (hiddenSpans text).toArray n = true ↔
      ∃ s ∈ hiddenSpans text, s.start ≤ n ∧ n < s.stop := by
  have within := hiddenSpans_within text
  refine ⟨byteScan?_eq text, ?_, ?_, isHidden_hiddenSpans text⟩
  · exact List.Pairwise.and ((segmentation_segments text).rising 0) within.apart
  · intro s member
    exact (within.bounds s member).2

example : byteScan? "<p title='é'><style></style>".toList = some [⟨9, 13⟩, ⟨21, 21⟩] := by
  decide +kernel

end PageLint.Markup
