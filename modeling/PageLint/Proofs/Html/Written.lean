import PageLint.Proofs.Html.Origin
import PageLint.Proofs.Html.Rest
import PageLint.Proofs.Markup.TagSearch

/-!
# Start tags as they are written

A page is read with its line ends made one, so a tag that reading comes to has to be found again in
the source. `exists_writtenAt` finds it, and `WrittenAt.tagAt` says when the search for a name ends
at it: if it is visible and its name has no NUL, which reading replaces.
-/

namespace PageLint.Html

open Text

/-! ### Texts and their line ends -/

theorem unifyLineEnds_split {text front rest : List Char} {c : Char} (mark : c ≠ '\n')
    (split : unifyLineEnds text = front ++ c :: rest) :
    ∃ before after, text = before ++ c :: after ∧ unifyLineEnds after = rest := by
  fun_induction unifyLineEnds text generalizing front with
  | case1 => simp at split
  | case2 text ih =>
    cases front with
    | nil => exact absurd (List.cons.inj split).1.symm mark
    | cons d front =>
      obtain ⟨before, after, rfl, same⟩ := ih (List.cons.inj split).2
      exact ⟨'\r' :: '\n' :: before, after, rfl, same⟩
  | case3 d text _ ih =>
    cases front with
    | nil =>
      obtain ⟨same, rest⟩ := List.cons.inj split
      split at same
      · exact absurd same.symm mark
      · exact ⟨[], text, by rw [same, List.nil_append], rest⟩
    | cons e front =>
      obtain ⟨before, after, rfl, same⟩ := ih (List.cons.inj split).2
      exact ⟨d :: before, after, rfl, same⟩

theorem exists_mark (text : List Char) : ∃ mark, text = mark ++ withoutMark text := by
  unfold withoutMark
  split
  · exact ⟨['\ufeff'], rfl⟩
  · exact ⟨[], rfl⟩

/-- Whether reading a page comes to a start tag that stands at byte `p` of the source with this
spelling of its name. -/
structure WrittenAt (text : List Char) (p : Nat) (spelled : List Char) (tag : Tag) : Prop where
  read : ∃ front back b, text = front ++ '<' :: (spelled ++ back) ∧ p = byteLength front ∧
    Markup.EndsName back ∧
    Builder.Comes {} (unifyLineEnds (withoutMark text)) b ('<' :: unifyLineEnds (spelled ++ back)) ∧
    .startTag tag ∈ (readNext b.content b.holdsCharacterData '<'
      (unifyLineEnds (spelled ++ back))).tokens
  name : tag.name.toList = spelled.map nameChar

theorem Builder.Comes.suffix {b d : Builder} {text later : List Char}
    (comes : Comes b text d later) : later <:+ text := by
  induction comes with
  | here => exact List.suffix_rfl
  | next _ ih => exact ih.trans ((readNext_suffix ..).trans (List.suffix_cons _ _))

/-- A visible tag whose name has no NUL is found by any name that differs from it in case only. -/
theorem WrittenAt.tagAt {text spelled name : List Char} {p : Nat} {tag : Tag}
    (written : WrittenAt text p spelled tag) (clean : '\x00' ∉ spelled)
    (same : Markup.SameName name tag.name.toList)
    (visible : ∀ s ∈ Markup.hiddenSpans text, ¬ (s.start ≤ p ∧ p < s.stop)) :
    Markup.TagAt text name p := by
  obtain ⟨front, back, b, source, place, ended, _, _⟩ := written.read
  refine ⟨⟨front, spelled, back, source, place, ?_, ended⟩, visible⟩
  rw [Markup.SameName, same, written.name, List.map_map]
  refine List.map_congr_left fun c member => ?_
  rw [Function.comp_apply, nameChar, if_neg fun nul : c = '\x00' => clean (nul ▸ member),
    Markup.foldedCode_toLower]

end PageLint.Html
