import PageLint.Proofs.Html.Graft.Tree
import PageLint.Proofs.Html.LongName
import PageLint.Proofs.Markup.Sighting
import PageLint.Report.Basic

/-!
# Tags in the order of their elements

In most pages the tags of the elements stand one after the other, and no other tag of the same name
comes between. `own_tags_found` says that then every element is found at its own tag, and that the
lines of the issues about elements do not go back. The names of the tags must not be too long to be
looked for.
-/

namespace PageLint.Markup

open Text
open Html.Tree (seen)
open PatternEngine (compiles)

/-- The tags that elements of these names have for their own, where `own` gives the place of each and
leaves out the elements that are implied. They stand from byte `cursor` on. -/
structure OwnTags (text : List Char) (cursor : Nat) (names : List (List Char))
    (own : Nat → Option Nat) : Prop where
  tag {i name p} : names[i]? = some name → own i = some p → TagAt text name p ∧ cursor ≤ p
  order {i j p q} : i < j → j < names.length → own i = some p → own j = some q → p < q
  /-- no tag of the name stands between the own tag of an element and the one before it -/
  nearest {j name q r} : names[j]? = some name → own j = some q → TagAt text name r → cursor ≤ r →
    r < q → ∃ i p, i < j ∧ own i = some p ∧ r ≤ p
  /-- an implied element has no tag anywhere -/
  absent {i name} : names[i]? = some name → own i = none → ∀ p, ¬ TagAt text name p

def ownElements (own : Nat → Option Nat) (xs : List (String × List Html.Attribute)) :
    List Element :=
  xs.zipIdx.filterMap fun (x, i) => (own i).map fun p => ⟨x.1, attributesOf x.2, some p⟩

variable {text name : List Char} {names : List (List Char)} {own : Nat → Option Nat}
  {cursor p : Nat}

theorem ownElements_cons (own : Nat → Option Nat) (x : String × List Html.Attribute)
    (xs : List (String × List Html.Attribute)) :
    ownElements own (x :: xs) =
      ((own 0).map fun p => ⟨x.1, attributesOf x.2, some p⟩).toList ++
        ownElements (fun i => own (i + 1)) xs := by
  have later : xs.zipIdx 1 = xs.zipIdx.map fun (y, i) => (y, i + 1) := by
    rw [List.zipIdx_succ]
  rw [ownElements, List.zipIdx_cons, Nat.zero_add, later, List.filterMap_cons, List.filterMap_map]
  dsimp only
  cases own 0 <;> rfl

namespace OwnTags

theorem after_own (tags : OwnTags text cursor (name :: names) own) (found : own 0 = some p) :
    OwnTags text (p + 1) names fun i => own (i + 1) where
  tag at_i placed := by
    obtain ⟨inside, _⟩ := List.getElem?_eq_some_iff.mp at_i
    exact ⟨(tags.tag at_i placed).1,
      tags.order (Nat.succ_pos _) (Nat.succ_lt_succ inside) found placed⟩
  order before inside := tags.order (Nat.succ_lt_succ before) (Nat.succ_lt_succ inside)
  nearest at_j placed tagged ahead early := by
    have start := (tags.tag rfl found).2
    obtain ⟨i, q, before, other, reached⟩ :=
      tags.nearest at_j placed tagged (by omega) early
    cases i with
    | zero =>
      obtain rfl := Option.some.inj (found.symm.trans other)
      omega
    | succ i => exact ⟨i, q, Nat.lt_of_succ_lt_succ before, other, reached⟩
  absent at_i := tags.absent at_i

theorem after_implied (tags : OwnTags text cursor (name :: names) own) (implied : own 0 = none) :
    OwnTags text cursor names fun i => own (i + 1) where
  tag at_i := tags.tag at_i
  order before inside := tags.order (Nat.succ_lt_succ before) (Nat.succ_lt_succ inside)
  nearest at_j placed tagged ahead early := by
    obtain ⟨i, q, before, other, reached⟩ := tags.nearest at_j placed tagged ahead early
    cases i with
    | zero => cases implied.symm.trans other
    | succ i => exact ⟨i, q, Nat.lt_of_succ_lt_succ before, other, reached⟩
  absent at_i := tags.absent at_i

end OwnTags

theorem newlinesBefore_mono {m n : Nat} (le : m ≤ n) (text : List Char) :
    newlinesBefore m text ≤ newlinesBefore n text := by
  induction text generalizing m n with
  | nil => cases m <;> cases n <;> exact Nat.le_refl 0
  | cons c rest ih =>
    cases m with
    | zero => exact Nat.zero_le _
    | succ m =>
      obtain ⟨n, rfl⟩ := Nat.exists_eq_succ_of_ne_zero (Nat.ne_zero_of_lt le)
      exact Nat.add_le_add_right (ih (Nat.sub_le_sub_right le _)) _

section Engine

variable [PatternEngine]

/-- Whether a pattern can be made for the name of each element that has a tag of its own. -/
def HavePatterns (names : List (List Char)) (own : Nat → Option Nat) : Prop :=
  ∀ i name p, names[i]? = some name → own i = some p → compiles (.tag name) = true

theorem HavePatterns.tail (patterns : HavePatterns (name :: names) own) :
    HavePatterns names fun i => own (i + 1) :=
  fun i => patterns (i + 1)

namespace OwnTags

/-! ### One call -/

theorem seek_some (tags : OwnTags text cursor (name :: names) own)
    (patterns : HavePatterns (name :: names) own) (found : own 0 = some p) :
    seek text cursor name = (some p, p + 1) := by
  obtain ⟨tag, ahead⟩ := tags.tag rfl found
  have made := patterns 0 name p rfl found
  obtain ⟨q, least, answer, after⟩ := (seek_right text cursor name).ahead made ⟨p, tag, ahead⟩
  have same : q = p := by
    refine Nat.le_antisymm (least.2 ⟨tag, ahead⟩) (Nat.le_of_not_lt fun early => ?_)
    obtain ⟨i, _, none, _⟩ := tags.nearest rfl found least.1.1 least.1.2 early
    exact Nat.not_lt_zero i none
  rw [same] at answer after
  exact Prod.ext answer after

theorem seek_none (tags : OwnTags text cursor (name :: names) own) (implied : own 0 = none) :
    seek text cursor name = (none, cursor) := by
  have right := seek_right text cursor name
  have answer := right.none_iff.mpr (.inr (tags.absent rfl implied))
  exact Prod.ext answer (right.stays answer)

/-! ### All calls -/

theorem answers (tags : OwnTags text cursor names own) (patterns : HavePatterns names own) :
    (seekCalls text cursor names).map Call.answer = (List.range names.length).map own := by
  induction names generalizing cursor own with
  | nil => rfl
  | cons name names ih =>
    rw [seekCalls, List.map_cons, List.length_cons, List.range_succ_eq_map, List.map_cons,
      List.map_map]
    cases placed : own 0 with
    | none =>
      rw [tags.seek_none placed, ih (tags.after_implied placed) patterns.tail]
      rfl
    | some p =>
      rw [tags.seek_some patterns placed, ih (tags.after_own placed) patterns.tail]
      rfl

theorem sighted_eq {xs : List (String × List Html.Attribute)}
    (tags : OwnTags text cursor (xs.map (·.1.toList)) own)
    (patterns : HavePatterns (xs.map (·.1.toList)) own) :
    sighted text cursor xs = ownElements own xs := by
  induction xs generalizing cursor own with
  | nil => rfl
  | cons x xs ih =>
    rw [List.map_cons] at tags patterns
    rw [sighted, ownElements_cons]
    cases placed : own 0 with
    | none =>
      rw [tags.seek_none placed]
      exact ih (tags.after_implied placed) patterns.tail
    | some p =>
      rw [tags.seek_some patterns placed]
      exact congrArg (_ :: ·) (ih (tags.after_own placed) patterns.tail)

theorem sighted_ordered {xs : List (String × List Html.Attribute)}
    (tags : OwnTags text cursor (xs.map (·.1.toList)) own)
    (patterns : HavePatterns (xs.map (·.1.toList)) own) :
    (sighted text cursor xs).Pairwise fun d e =>
      ∃ p q, d.offset = some p ∧ e.offset = some q ∧ p < q := by
  induction xs generalizing cursor own with
  | nil => exact List.Pairwise.nil
  | cons x xs ih =>
    rw [List.map_cons] at tags patterns
    rw [sighted]
    cases placed : own 0 with
    | none =>
      rw [tags.seek_none placed]
      exact ih (tags.after_implied placed) patterns.tail
    | some p =>
      have later := tags.after_own placed
      rw [tags.seek_some patterns placed]
      refine List.pairwise_cons.mpr ⟨?_, ih later patterns.tail⟩
      intro e member
      rw [later.sighted_eq patterns.tail] at member
      obtain ⟨⟨y, i⟩, listed, found⟩ := List.mem_filterMap.mp member
      obtain ⟨q, own_i, rfl⟩ := Option.map_eq_some_iff.mp found
      have at_i := List.mem_zipIdx_iff_getElem?.mp listed
      have ahead := (later.tag (by rw [List.getElem?_map, at_i]; rfl) own_i).2
      exact ⟨p, q, rfl, rfl, ahead⟩

end OwnTags

/-! ### Issues -/

def LinesInOrder (i j : MarkupIssue) : Prop :=
  ∃ m n, i.line = .known m ∧ j.line = .known n ∧ m ≤ n

theorem issue_linesInOrder {d e : Element} {p q : Nat} (first : d.offset = some p)
    (second : e.offset = some q) (le : p ≤ q) (r s : ElementRule) :
    LinesInOrder (r.issue text d) (s.issue text e) := by
  refine ⟨lineOf (some p) text, lineOf (some q) text, ?_, ?_, ?_⟩
  · rw [ElementRule.issue, first]
    rfl
  · rw [ElementRule.issue, second]
    rfl
  · exact Nat.add_le_add_left (newlinesBefore_mono le text) 1

theorem inspect_linesInOrder {root : Node} (placed : ∀ e ∈ root.elements, e.offset.isSome)
    (ordered : root.elements.Pairwise fun d e =>
      ∃ p q, d.offset = some p ∧ e.offset = some q ∧ p < q) (rules : List ElementRule) :
    (inspect rules text root).Pairwise LinesInOrder := by
  rw [inspect, List.pairwise_flatMap]
  constructor
  · intro e member
    obtain ⟨p, offset⟩ := Option.isSome_iff_exists.mp (placed e member)
    refine List.pairwise_map.mpr (List.pairwise_of_forall fun r s => ?_)
    exact issue_linesInOrder offset offset (Nat.le_refl p) r s
  · refine ordered.imp ?_
    rintro d e ⟨p, q, first, second, before⟩ i inD j inE
    obtain ⟨r, _, rfl⟩ := List.mem_map.mp inD
    obtain ⟨s, _, rfl⟩ := List.mem_map.mp inE
    exact issue_linesInOrder first second (Nat.le_of_lt before) r s

/-- If the elements of a page have tags of their own, `OwnTags`, whose names are not too long, then
the search for each element ends at its own tag and finds nothing for the others: those are spliced.
The elements of the page are the ones with tags, and no rule reports a line before one that was
reported. -/
theorem own_tags_found {text : List Char} {own : Nat → Option Nat}
    (tags : OwnTags text 0 ((seen maxNesting (Html.parse text)).map (·.1.toList)) own)
    (patterns : HavePatterns ((seen maxNesting (Html.parse text)).map (·.1.toList)) own) :
    ((Locator.ofText text).calls ((seen maxNesting (Html.parse text)).map (·.1.toList))).map
        Call.answer = (List.range (seen maxNesting (Html.parse text)).length).map own ∧
      (parse text).elements = ownElements own (seen maxNesting (Html.parse text)) ∧
      ∀ rules, (inspect rules text (parse text)).Pairwise LinesInOrder := by
  have elements := elements_parse text
  refine ⟨?_, elements.trans (tags.sighted_eq patterns), ?_⟩
  · rw [calls_eq_seekCalls rfl]
    have found := tags.answers patterns
    rw [List.length_map] at found
    exact found
  · intro rules
    refine inspect_linesInOrder ?_ ?_ rules
    · intro e member
      obtain ⟨p, offset, _⟩ := tagAt_of_mem_elements member
      exact Option.isSome_iff_exists.mpr ⟨p, offset⟩
    · rw [elements]
      exact tags.sighted_ordered patterns

end Engine

/-! ### An example -/

theorem OwnTags.nil (own : Nat → Option Nat) : OwnTags text cursor [] own where
  tag at_i := by cases at_i
  order _ inside := absurd inside (Nat.not_lt_zero _)
  nearest at_j := by cases at_j
  absent at_i := by cases at_i

theorem OwnTags.cons_own (first : IsLeast {q | TagAt text name q ∧ cursor ≤ q} p)
    (found : own 0 = some p) (rest : OwnTags text (p + 1) names fun i => own (i + 1)) :
    OwnTags text cursor (name :: names) own where
  tag {i _ _} at_i placed := by
    cases i with
    | zero =>
      cases at_i
      obtain rfl := Option.some.inj (found.symm.trans placed)
      exact first.1
    | succ i =>
      have start := first.1.2
      obtain ⟨tag, ahead⟩ := rest.tag at_i placed
      exact ⟨tag, by omega⟩
  order {i j _ _} before inside placed placed' := by
    obtain ⟨j, rfl⟩ := Nat.exists_eq_succ_of_ne_zero (Nat.ne_zero_of_lt before)
    rw [List.length_cons] at inside
    have inside := Nat.lt_of_succ_lt_succ inside
    cases i with
    | zero =>
      obtain rfl := Option.some.inj (found.symm.trans placed)
      exact (rest.tag (List.getElem?_eq_getElem inside) placed').2
    | succ i => exact rest.order (Nat.lt_of_succ_lt_succ before) inside placed placed'
  nearest {j _ _ r} at_j placed tagged ahead early := by
    cases j with
    | zero =>
      cases at_j
      obtain rfl := Option.some.inj (found.symm.trans placed)
      exact absurd early (Nat.not_lt_of_le (first.2 ⟨tagged, ahead⟩))
    | succ j =>
      by_cases passed : r ≤ p
      · exact ⟨0, p, Nat.succ_pos j, found, passed⟩
      · obtain ⟨i, q, before, other, reached⟩ :=
          rest.nearest at_j placed tagged (Nat.lt_of_not_le passed) early
        exact ⟨i + 1, q, Nat.succ_lt_succ before, other, reached⟩
  absent {i _} at_i implied := by
    cases i with
    | zero => cases found.symm.trans implied
    | succ i => exact rest.absent at_i implied

theorem OwnTags.cons_implied (absent : ∀ p, ¬ TagAt text name p) (implied : own 0 = none)
    (rest : OwnTags text cursor names fun i => own (i + 1)) :
    OwnTags text cursor (name :: names) own where
  tag {i _ _} at_i placed := by
    cases i with
    | zero => cases implied.symm.trans placed
    | succ i => exact rest.tag at_i placed
  order {i j _ _} before inside placed placed' := by
    obtain ⟨j, rfl⟩ := Nat.exists_eq_succ_of_ne_zero (Nat.ne_zero_of_lt before)
    rw [List.length_cons] at inside
    cases i with
    | zero => cases implied.symm.trans placed
    | succ i =>
      exact rest.order (Nat.lt_of_succ_lt_succ before) (Nat.lt_of_succ_lt_succ inside) placed
        placed'
  nearest {j _ _ _} at_j placed tagged ahead early := by
    cases j with
    | zero => cases implied.symm.trans placed
    | succ j =>
      obtain ⟨i, q, before, other, reached⟩ := rest.nearest at_j placed tagged ahead early
      exact ⟨i + 1, q, Nat.succ_lt_succ before, other, reached⟩
  absent {i _} at_i implied' := by
    cases i with
    | zero =>
      cases at_i
      exact absent
    | succ i => exact rest.absent at_i implied'

def twoImages : List Char := "<img><!--<img>-->\n<p><img>".toList

/-- The places of the elements of that page; the first three are implied. -/
def ownOfTwoImages (i : Nat) : Option Nat :=
  [none, none, none, some 0, some 18, some 21][i]?.join

theorem tagAt_iff_mem {tags : List Nat}
    (found : (places (opensTag name) text).filter (!isHidden (hiddenSpans text).toArray ·) = tags) :
    TagAt text name p ↔ p ∈ tags := by
  rw [tagAt_iff_places, ← found, List.mem_filter, Bool.not_eq_true']

theorem ownTags_twoImages :
    OwnTags twoImages 0 (["html", "head", "body", "img", "p", "img"].map String.toList)
      ownOfTwoImages := by
  have implied (name : String) (listed : name ∈ ["html", "head", "body"]) (p : Nat) :
      ¬ TagAt twoImages name.toList p := by
    have nowhere : TagAt twoImages name.toList p ↔ p ∈ [] := by
      refine tagAt_iff_mem ?_
      revert name
      decide +kernel
    rw [nowhere]
    exact List.not_mem_nil
  have image (p : Nat) : TagAt twoImages "img".toList p ↔ p ∈ [0, 21] :=
    tagAt_iff_mem (by decide +kernel)
  have paragraph (p : Nat) : TagAt twoImages "p".toList p ↔ p ∈ [18] :=
    tagAt_iff_mem (by decide +kernel)
  refine .cons_implied (implied "html" (by decide)) rfl ?_
  refine .cons_implied (implied "head" (by decide)) rfl ?_
  refine .cons_implied (implied "body" (by decide)) rfl ?_
  refine .cons_own (p := 0) ⟨⟨(image 0).mpr (by decide), by decide⟩, fun q _ => q.zero_le⟩ rfl ?_
  refine .cons_own (p := 18) ⟨⟨(paragraph 18).mpr (by decide), by decide⟩, ?_⟩ rfl ?_
  · rintro q ⟨tag, _⟩
    exact (List.mem_singleton.mp ((paragraph q).mp tag)).ge
  refine .cons_own (p := 21) ⟨⟨(image 21).mpr (by decide), by decide⟩, ?_⟩ rfl (.nil _)
  rintro q ⟨tag, ahead⟩
  have place := (image q).mp tag
  rw [List.mem_cons, List.mem_singleton] at place
  omega

theorem own_tags_found_twoImages :
    OwnTags twoImages 0 ((seen maxNesting (Html.parse twoImages)).map (·.1.toList))
        ownOfTwoImages ∧
      HavePatterns ((seen maxNesting (Html.parse twoImages)).map (·.1.toList)) ownOfTwoImages ∧
      (parse twoImages).elements.map (fun e => (e.name, e.offset)) =
        [("img", some 0), ("p", some 18), ("img", some 21)] := by
  have names : (seen maxNesting (Html.parse twoImages)).map (·.1) =
      ["html", "head", "body", "img", "p", "img"] := by decide +kernel
  have listed : (seen maxNesting (Html.parse twoImages)).map (·.1.toList) =
      ["html", "head", "body", "img", "p", "img"].map String.toList := by
    rw [← names, List.map_map]
    rfl
  have tags : OwnTags twoImages 0 ((seen maxNesting (Html.parse twoImages)).map (·.1.toList))
      ownOfTwoImages := listed ▸ ownTags_twoImages
  have patterns : HavePatterns ((seen maxNesting (Html.parse twoImages)).map (·.1.toList))
      ownOfTwoImages := by
    have short : ∀ name ∈ ["html", "head", "body", "img", "p", "img"].map String.toList,
        compiles (.tag name) = true := by decide +kernel
    rw [listed]
    exact fun i name p at_i _ => short name (List.mem_of_getElem? at_i)
  obtain ⟨_, elements, _⟩ := own_tags_found tags patterns
  refine ⟨tags, patterns, ?_⟩
  rw [elements]
  decide +kernel

/-! ### A name that is too long -/

def ownOfLongTag (i : Nat) : Option Nat :=
  [none, none, none, some 0][i]?.join

theorem seen_longTag : seen maxNesting (Html.parse longTag) =
    ["html", "head", "body", String.ofList longName].map (·, []) := by
  have letters : ∀ c ∈ longName, c = 'a' := fun c member => (List.mem_replicate.mp member).2
  refine Html.seen_longTag ⟨head?_longName rfl, all_longName rfl, ?_⟩ ?_ ?_ maxNesting
  · rw [longName, List.map_replicate]
    rfl
  · intro member
    cases letters _ member
  · rw [longName, List.length_replicate]
    decide

theorem implied_longTag {name : String} (listed : name ∈ ["html", "head", "body"]) (p : Nat) :
    ¬ TagAt longTag name.toList p := by
  have first : longTag = '<' :: 'a' :: (List.replicate 199999 'a' ++ ['>']) := by
    rw [longTag, longName, List.replicate_succ]
    rfl
  have other (rest : List Char) : opensTag name.toList ('<' :: 'a' :: rest) = false := by
    rcases listed with _ | ⟨_, _ | ⟨_, _ | ⟨_, none⟩⟩⟩
    · rfl
    · rfl
    · rfl
    · cases none
  rw [tagAt_longTag, first, other]
  exact fun tag => Bool.false_ne_true tag.2

theorem ownTags_longTag :
    OwnTags longTag 0 ((["html", "head", "body"].map String.toList) ++ [longName])
      ownOfLongTag := by
  refine .cons_implied (implied_longTag (by decide)) rfl ?_
  refine .cons_implied (implied_longTag (by decide)) rfl ?_
  refine .cons_implied (implied_longTag (by decide)) rfl ?_
  exact .cons_own ⟨⟨tagAt_longName, Nat.zero_le 0⟩, fun q _ => q.zero_le⟩ rfl (.nil _)

/-- An element with a tag of its own is spliced. -/
theorem own_tag_missed :
    OwnTags longTag 0 ((seen maxNesting (Html.parse longTag)).map (·.1.toList)) ownOfLongTag ∧
      (ownElements ownOfLongTag (seen maxNesting (Html.parse longTag))).map (·.offset) = [some 0] ∧
      (parse longTag).elements = [] := by
  have listed : (seen maxNesting (Html.parse longTag)).map (·.1.toList) =
      ["html", "head", "body"].map String.toList ++ [longName] := by
    rw [seen_longTag]
    simp
  refine ⟨listed ▸ ownTags_longTag, ?_, ?_⟩
  · rw [seen_longTag]
    rfl
  · refine (elements_parse longTag).trans (sighted_eq_nil fun x member => ?_)
    have name : x.1.toList ∈ ["html", "head", "body"].map String.toList ++ [longName] :=
      listed ▸ List.mem_map_of_mem member
    rcases List.mem_append.mp name with implied | long
    · obtain ⟨name, known, same⟩ := List.mem_map.mp implied
      exact .inr (same ▸ implied_longTag known)
    · exact .inl (List.mem_singleton.mp long ▸ compiles_longName)

end PageLint.Markup
