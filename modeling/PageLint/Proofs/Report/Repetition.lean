import Mathlib.Data.List.Nodup
import PageLint.Proofs.Markup.Sighting
import PageLint.Report.Basic

/-!
# Tags that are reported again

Reading a page may make two elements of one tag. The search for the second then finds no tag ahead
and starts over. `tags_reported_once` says that nothing else makes a rule report a tag twice.
-/

namespace PageLint.Markup

open Text

variable {text : List Char}

/-- Whether the search for an element that comes after those in `front` has started over: all tags
of its name have been passed, and the element stands at the first of them. -/
structure StartedOver (text : List Char) (front : List Element) (e : Element) : Prop where
  passed : ∃ d ∈ front, ∃ q, d.offset = some q ∧ ∀ p, TagAt text e.name.toList p → p ≤ q
  first : ∃ p, e.offset = some p ∧ IsLeast {p | TagAt text e.name.toList p} p

def StandsAfter (front : List Element) (e : Element) : Prop :=
  ∃ p, e.offset = some p ∧ ∀ d ∈ front, ∀ q, d.offset = some q → q < p

/-- Where the search goes on after elements have been found: at first from `cursor`, and from then
on just after the last element that moved it. -/
structure Reached (cursor : Nat) (front : List Element) (after : Nat) : Prop where
  cursor_le : cursor ≤ after
  behind : ∀ d ∈ front, ∀ q, d.offset = some q → q < after
  moved : after = cursor ∨ ∃ d ∈ front, ∃ q, d.offset = some q ∧ after = q + 1

theorem Reached.cons {cursor next after p : Nat} {d : Element} {front : List Element}
    (place : d.offset = some p) (here : p < next) (moves : next = cursor ∨ next = p + 1)
    (order : cursor ≤ next) (later : Reached next front after) :
    Reached cursor (d :: front) after := by
  refine ⟨Nat.le_trans order later.cursor_le, ?_, ?_⟩
  · intro other member q offset
    rcases List.mem_cons.mp member with rfl | inFront
    · obtain rfl := Option.some.inj (place.symm.trans offset)
      exact Nat.lt_of_lt_of_le here later.cursor_le
    · exact later.behind other inFront q offset
  · rcases later.moved with stayed | ⟨other, inFront, q, offset, last⟩
    · rcases moves with same | past
      · exact .inl (stayed.trans same)
      · exact .inr ⟨d, List.mem_cons_self, p, place, stayed.trans past⟩
    · exact .inr ⟨other, List.mem_cons_of_mem d inFront, q, offset, last⟩

/-- The rules that find fault with elements of a page, each with the element at fault, in the order
of their issues. -/
def faults (rules : List ElementRule) (root : Node) : List (ElementRule × Element) :=
  root.elements.flatMap fun e => (rules.filter (·.flags e)).map fun r => (r, e)

theorem catalogue_nodup : (ElementRule.catalogue.map (·.id)).Nodup := by decide

theorem faults_nodup {rules : List ElementRule} (distinct : (rules.map (·.id)).Nodup)
    {root : Node} (apart : (root.elements.map (·.offset)).Nodup) :
    ((faults rules root).map fun f => (f.1.id, f.2.offset)).Nodup := by
  rw [faults, List.map_flatMap, List.nodup_flatMap]
  constructor
  · intro e _
    rw [List.map_map]
    have ids : ((rules.filter (·.flags e)).map (·.id)).Nodup :=
      distinct.sublist (List.filter_sublist.map _)
    have pairs := ids.map (f := fun id => (id, e.offset)) fun _ _ same => (Prod.mk.inj same).1
    rw [List.map_map] at pairs
    exact pairs
  · refine (List.pairwise_map.mp apart).imp ?_
    intro d e other fault inD inE
    simp only [List.map_map, List.mem_map, Function.comp_apply] at inD inE
    obtain ⟨_, _, rfl⟩ := inD
    obtain ⟨_, _, same⟩ := inE
    exact other (Prod.mk.inj same).2.symm

section Engine

variable [PatternEngine]

/-- A call that answers leaves the cursor past its answer: it has moved there, or the answer was
behind it. -/
theorem Call.Right.answer_lt {c : Call} {p : Nat} (right : c.Right text)
    (answer : c.answer = some p) : p < c.after ∧ (c.after = c.cursor ∨ c.after = p + 1) := by
  rcases right.found answer with ⟨_, after⟩ | ⟨behind, _, after⟩
  · exact ⟨by omega, .inr after⟩
  · exact ⟨by rw [after]; exact behind p (right.tagAt answer), .inl after⟩

/-- Each element that is found answers a call from where the elements before it have led. -/
theorem sighted_split {cursor : Nat} {xs : List (String × List Html.Attribute)}
    {front back : List Element} {e : Element}
    (split : sighted text cursor xs = front ++ e :: back) :
    ∃ after, Reached cursor front after ∧
      Call.Right text ⟨e.name.toList, after, e.offset, (seek text after e.name.toList).2⟩ := by
  induction xs generalizing cursor front with
  | nil => simp [sighted] at split
  | cons x rest ih =>
    obtain ⟨name, attributes⟩ := x
    have right := seek_right text cursor name.toList
    rw [sighted] at split
    cases found : (seek text cursor name.toList).1 with
    | none =>
      have stays : (seek text cursor name.toList).2 = cursor := right.stays found
      simp only [found, stays, Option.map_none, Option.toList_none, List.nil_append] at split
      exact ih split
    | some p =>
      simp only [found, Option.map_some, Option.toList_some, List.singleton_append] at split
      cases front with
      | nil =>
        obtain ⟨rfl, -⟩ := List.cons.inj split
        refine ⟨cursor, ⟨Nat.le_refl _, fun _ member => (by cases member), .inl rfl⟩, ?_⟩
        rw [found] at right
        exact right
      | cons d front =>
        obtain ⟨rfl, later⟩ := List.cons.inj split
        obtain ⟨after, reached, answered⟩ := ih later
        obtain ⟨here, moves⟩ := right.answer_lt found
        exact ⟨after, reached.cons rfl here moves right.cursor_le, answered⟩

/-- An element stands after all elements before it, or else its search has started over. -/
theorem standsAfter_or_startedOver {front back : List Element} {e : Element}
    (split : (parse text).elements = front ++ e :: back) :
    StandsAfter front e ∨ StartedOver text front e := by
  have present : e ∈ (parse text).elements := by simp [split]
  obtain ⟨p, offset, tag⟩ := tagAt_of_mem_elements present
  obtain ⟨after, reached, right⟩ := sighted_split ((elements_parse text).symm.trans split)
  rcases right.found offset with ⟨least, _⟩ | ⟨behind, least, _⟩
  · refine .inl ⟨p, offset, ?_⟩
    intro d member r place
    exact Nat.lt_of_lt_of_le (reached.behind d member r place) least.1.2
  · refine .inr ⟨?_, p, offset, least⟩
    rcases reached.moved with start | ⟨d, member, r, place, last⟩
    · have := behind p tag
      dsimp only at this
      omega
    · refine ⟨d, member, r, place, ?_⟩
      intro q tag
      have := behind q tag
      dsimp only at this
      omega

theorem inspect_eq_faults (rules : List ElementRule) (root : Node) :
    inspect rules text root = (faults rules root).map fun f => f.1.issue text f.2 := by
  simp [inspect, faults, List.map_flatMap, Function.comp_def]

theorem offsets_nodup (forward : ∀ front e back, (parse text).elements = front ++ e :: back →
    ¬ StartedOver text front e) : ((parse text).elements.map (·.offset)).Nodup := by
  rw [List.Nodup, List.pairwise_map, List.pairwise_iff_getElem]
  intro i j hi hj order same
  have split : (parse text).elements = (parse text).elements.take j ++
      (parse text).elements[j] :: (parse text).elements.drop (j + 1) := by
    rw [List.getElem_cons_drop, List.take_append_drop]
  have before : (parse text).elements[i] ∈ (parse text).elements.take j :=
    List.mem_take_iff_getElem.mpr ⟨i, by omega, rfl⟩
  obtain ⟨p, offset, after⟩ :=
    (standsAfter_or_startedOver split).resolve_right (forward _ _ _ split)
  exact Nat.lt_irrefl p (after _ before p (same.trans offset))

/-- Every element stands after all elements before it, or the search for it has started over and
ended at the first tag of its name. Two elements share a tag only in the second case. In a page
where no search starts over, no rule reports a tag twice. -/
theorem tags_reported_once (c : Config) (text : List Char) :
    (∀ front e back, (parse text).elements = front ++ e :: back →
      (StandsAfter front e ∨ StartedOver text front e) ∧
        ((∃ d ∈ front, d.offset = e.offset) → StartedOver text front e)) ∧
      inspect (ElementRule.selected c) text (parse text) =
        (faults (ElementRule.selected c) (parse text)).map (fun f => f.1.issue text f.2) ∧
      ((∀ front e back, (parse text).elements = front ++ e :: back →
          ¬ StartedOver text front e) →
        ((parse text).elements.map (·.offset)).Nodup ∧
          ((faults (ElementRule.selected c) (parse text)).map
            fun f => (f.1.id, f.2.offset)).Nodup) := by
  refine ⟨?_, inspect_eq_faults _ _, ?_⟩
  · intro front e back split
    refine ⟨standsAfter_or_startedOver split, ?_⟩
    rintro ⟨d, member, same⟩
    refine (standsAfter_or_startedOver split).resolve_left ?_
    rintro ⟨p, offset, after⟩
    exact Nat.lt_irrefl p (after d member p (same.trans offset))
  · intro forward
    have distinct : ((ElementRule.selected c).map (·.id)).Nodup :=
      catalogue_nodup.sublist (List.filter_sublist.map _)
    exact ⟨offsets_nodup forward, faults_nodup distinct (offsets_nodup forward)⟩

end Engine

/-- A page with a link that goes on inside a block: one tag, but two elements. -/
def linkAroundBlock : List Char := "<a><p></a>x".toList

def linkIssue : MarkupIssue where
  ruleId := "html-anchor-href"
  kind := "Missing href in anchor tag"
  tag := "<a>"
  line := .known 1
  solution := "Add href=\"...\" in <a>"

/-- One tag is reported twice by one rule. -/
theorem link_reported_twice :
    (parse linkAroundBlock).elements.map (·.offset) = [some 0, some 3, some 0] ∧
      (analyzeMarkup {} linkAroundBlock).filter (·.ruleId = "html-anchor-href") =
        [linkIssue, linkIssue] := by
  decide +kernel

end PageLint.Markup
