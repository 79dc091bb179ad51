import Mathlib.Data.List.Forall2
import PageLint.Markup.Rule
import PageLint.Proofs.Markup.Sighting

/-!
# Sources with the same tags

Two sources are aligned if their tags stand in the same order and on the same lines, wherever that
is. Searches in them go alike, `Aligned.sighted`, and so rules report the same issues for the same
elements: `Aligned.inspect_eq`.
-/

namespace PageLint.Markup

open Text

/-- Whether two sources have the same tags of some names, in the same order and on the same lines,
where `A` relates the places of a tag in the two. -/
structure Aligned (text text' : List Char) (names : List Char → Prop) (A : Nat → Nat → Prop) :
    Prop where
  forth {name p} : names name → TagAt text name p → ∃ p', A p p' ∧ TagAt text' name p'
  back {name p'} : names name → TagAt text' name p' → ∃ p, A p p' ∧ TagAt text name p
  order {p p' q q'} : A p p' → A q q' → (p < q ↔ p' < q')
  line {name p p'} : TagAt text name p → A p p' → lineOf (some p) text = lineOf (some p') text'

structure SameSpot (text text' : List Char) (e e' : Element) : Prop where
  name : e'.name = e.name
  attributes : e'.attributes = e.attributes
  line : ∃ p p', e.offset = some p ∧ e'.offset = some p' ∧
    lineOf (some p) text = lineOf (some p') text'

def SameCursor (A : Nat → Nat → Prop) (n n' : Nat) : Prop :=
  ∀ p p', A p p' → (n ≤ p ↔ n' ≤ p')

namespace Aligned

variable {text text' : List Char} {names : List Char → Prop} {A : Nat → Nat → Prop}
  (a : Aligned text text' names A)
include a

theorem le_iff {p p' q q' : Nat} (first : A p p') (second : A q q') : p ≤ q ↔ p' ≤ q' := by
  have behind := a.order second first
  omega

/-- The first places of sets that correspond correspond. -/
theorem of_isLeast {s s' : Set Nat} {p p' : Nat} (least : IsLeast s p) (least' : IsLeast s' p')
    (forth : ∀ q ∈ s, ∃ q' ∈ s', A q q') (back : ∀ q' ∈ s', ∃ q ∈ s, A q q') : A p p' := by
  obtain ⟨q', inside', related⟩ := forth p least.1
  obtain ⟨q, inside, related'⟩ := back p' least'.1
  have low : p ≤ q := least.2 inside
  have high : p' ≤ q' := least'.2 inside'
  have same : q' ≤ p' := (a.le_iff related related').mp low
  obtain rfl : p' = q' := Nat.le_antisymm high same
  exact related

theorem seekFrom {name : List Char} (known : names name) {n n' : Nat}
    (level : SameCursor A n n') :
    Option.Rel A (seekFrom text name n) (seekFrom text' name n') := by
  have forth : ∀ q ∈ tagsFrom text name n, ∃ q' ∈ tagsFrom text' name n', A q q' := by
    rintro q ⟨tag, ahead⟩
    obtain ⟨q', related, tag'⟩ := a.forth known tag
    exact ⟨q', ⟨tag', (level q q' related).mp ahead⟩, related⟩
  have back : ∀ q' ∈ tagsFrom text' name n', ∃ q ∈ tagsFrom text name n, A q q' := by
    rintro q' ⟨tag', ahead⟩
    obtain ⟨q, related, tag⟩ := a.back known tag'
    exact ⟨q, ⟨tag, (level q q' related).mpr ahead⟩, related⟩
  have first := seekFrom_isFirst text name n
  have first' := seekFrom_isFirst text' name n'
  cases found : Markup.seekFrom text name n with
  | none =>
    cases found' : Markup.seekFrom text' name n' with
    | none => exact .none
    | some p' =>
      rw [found] at first
      rw [found'] at first'
      obtain ⟨q, inside, _⟩ := back p' first'.1
      exact absurd inside (first q)
  | some p =>
    rw [found] at first
    cases found' : Markup.seekFrom text' name n' with
    | none =>
      rw [found'] at first'
      obtain ⟨q', inside, _⟩ := forth p first.1
      exact absurd inside (first' q')
    | some p' =>
      rw [found'] at first'
      exact .some (a.of_isLeast first first' forth back)

omit a in
theorem sameCursor_zero : SameCursor A 0 0 :=
  fun _ _ _ => ⟨fun _ => Nat.zero_le _, fun _ => Nat.zero_le _⟩

variable [PatternEngine]

/-- Calls in aligned sources answer alike, and the cursors after them have the same places behind
them. -/
theorem seek {name : List Char} (known : names name) {n n' : Nat} (level : SameCursor A n n') :
    Option.Rel A (seek text n name).1 (seek text' n' name).1 ∧
      SameCursor A (seek text n name).2 (seek text' n' name).2 := by
  have ahead := a.seekFrom known level
  have again := a.seekFrom known sameCursor_zero
  unfold Markup.seek
  split
  · generalize Markup.seekFrom text name n = answer at ahead ⊢
    generalize Markup.seekFrom text' name n' = answer' at ahead ⊢
    cases ahead with
    | none => exact ⟨again, level⟩
    | some related => exact ⟨.some related, fun q q' other => a.order related other⟩
  · exact ⟨.none, level⟩

/-- The same elements are found on the same lines. -/
theorem sighted {xs : List (String × List Html.Attribute)} (known : ∀ x ∈ xs, names x.1.toList)
    {n n' : Nat} (level : SameCursor A n n') :
    List.Forall₂ (SameSpot text text') (sighted text n xs) (sighted text' n' xs) := by
  induction xs generalizing n n' with
  | nil => exact .nil
  | cons x rest ih =>
    obtain ⟨name, attributes⟩ := x
    obtain ⟨first, later⟩ := List.forall_mem_cons.mp known
    have right := seek_right text n name.toList
    obtain ⟨answers, after⟩ := a.seek first level
    rw [Markup.sighted, Markup.sighted]
    generalize Markup.seek text n name.toList = found at right answers after ⊢
    generalize Markup.seek text' n' name.toList = found' at answers after ⊢
    obtain ⟨answer, cursor⟩ := found
    obtain ⟨answer', cursor'⟩ := found'
    dsimp only at answers after ⊢
    cases answers with
    | none => exact ih later after
    | some related =>
      exact .cons ⟨rfl, rfl, _, _, rfl, rfl, a.line (right.tagAt rfl) related⟩ (ih later after)

end Aligned

/-! ### Issues -/

variable {text text' : List Char}

theorem SameSpot.flags {e e' : Element} (same : SameSpot text text' e e') (r : ElementRule) :
    r.flags e' = r.flags e := by
  have named : e'.hasName = e.hasName := by
    funext name
    rw [Element.hasName, Element.hasName, same.name]
  have has : e'.has = e.has := by
    funext key
    rw [Element.has, Element.has, Element.get?, Element.get?, same.attributes]
  rw [ElementRule.flags, ElementRule.flags, named, has]

variable [PatternEngine]

theorem SameSpot.issue {e e' : Element} (same : SameSpot text text' e e') (r : ElementRule) :
    r.issue text' e' = r.issue text e := by
  obtain ⟨p, p', offset, offset', line⟩ := same.line
  rw [ElementRule.issue, ElementRule.issue, same.name, offset, offset']
  simp only [Option.some_or, Line.resolve, line]

/-- Rules report the same issues for the same elements in aligned sources. -/
theorem Aligned.inspect_eq {names : List Char → Prop} {A : Nat → Nat → Prop}
    (a : Aligned text text' names A) {xs : List (String × List Html.Attribute)}
    (known : ∀ x ∈ xs, names x.1.toList) {root root' : Node}
    (elements : root.elements = Markup.sighted text 0 xs)
    (elements' : root'.elements = Markup.sighted text' 0 xs) (rules : List ElementRule) :
    inspect rules text' root' = inspect rules text root := by
  have same := a.sighted known sameCursor_zero
  rw [inspect, inspect, elements, elements']
  generalize Markup.sighted text 0 xs = found at same ⊢
  generalize Markup.sighted text' 0 xs = found' at same ⊢
  induction same with
  | nil => rfl
  | cons first _ ih =>
    rw [List.flatMap_cons, List.flatMap_cons, ih]
    congr 1
    rw [List.filter_congr fun r _ => first.flags r]
    exact List.map_congr_left fun r _ => first.issue r

end PageLint.Markup
