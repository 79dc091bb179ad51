import PageLint.Proofs.Markup.DocumentOrder
import PageLint.Proofs.Markup.TagSearch

/-!
# The elements of a page

The elements of a page are those of its parts that are found in the source, one after the other.
`elements_parse` takes patterns, levels and nodes of other kinds out of that: what remains is
`sighted`, a search for one name after the other.
-/

namespace PageLint.Html.Tree

def named? : Tree → Option (String × List Attribute)
  | element name attributes _ => some (name, attributes)
  | _ => none

end PageLint.Html.Tree

namespace PageLint.Markup

open Text
open PatternEngine (compiles)

variable [PatternEngine]

/-- The elements that parts of a page give whose names are looked for one after the other, where
the search goes on from byte `cursor`. -/
def sighted (text : List Char) (cursor : Nat) : List (String × List Html.Attribute) → List Element
  | [] => []
  | (name, attributes) :: rest =>
    let (answer, after) := seek text cursor name.toList
    (answer.map fun p => ⟨name, attributesOf attributes, some p⟩).toList ++ sighted text after rest

variable {text : List Char}

omit [PatternEngine] in
theorem element?_bare (n : Node) : n.bare.element? = n.element? := by
  cases n <;> rfl

theorem sightAll_elements {l : Locator} (same : l.openings = openings text)
    (ts : List Html.Tree) :
    (sightAll l ts).1.filterMap Node.element? =
      sighted text l.cursor (ts.filterMap Html.Tree.named?) := by
  induction ts generalizing l with
  | nil => rfl
  | cons t rest ih =>
    rw [sightAll, List.filterMap_append]
    cases t with
    | element name attributes children =>
      have called := locate_eq_seek same name.toList
      have kept := locate_openings l name.toList
      rw [List.filterMap_cons_some (show (Html.Tree.element name attributes children).named? =
        some (name, attributes) from rfl), sighted, ← called, sight]
      generalize l.locate name.toList = found at kept ⊢
      rcases found with ⟨_ | offset, after⟩
      · exact ih (kept.trans same)
      · exact congrArg (_ :: ·) (ih (kept.trans same))
    | fragment children => exact ih same
    | text s => exact ih same
    | comment s => exact ih same
    | doctype s => exact ih same

/-- The elements of a page in document order. -/
theorem elements_parse (text : List Char) :
    (parse text).elements =
      sighted text 0 ((Html.Tree.visitedAll maxNesting (Html.parse text)).filterMap
        Html.Tree.named?) := by
  have order := congrArg Prod.fst (build_inOrder maxNesting (.ofText text) (Html.parse text))
  have bare (ns : List Node) : ns.filterMap Node.element? =
      (ns.map Node.bare).filterMap Node.element? := by
    rw [List.filterMap_map]
    congr 1
    funext n
    exact (element?_bare n).symm
  rw [Node.elements, Node.walk_cons, Node.walk, List.append_nil,
    List.filterMap_cons_none (show (parse text).element? = none from rfl), bare]
  exact (congrArg (List.filterMap Node.element?) order).trans (sightAll_elements rfl _)

/-- Nothing is found of names that have no pattern or no tag. -/
theorem sighted_eq_nil {cursor : Nat} {xs : List (String × List Html.Attribute)}
    (missed : ∀ x ∈ xs, compiles (.tag x.1.toList) = false ∨ ∀ p, ¬ TagAt text x.1.toList p) :
    sighted text cursor xs = [] := by
  induction xs generalizing cursor with
  | nil => rfl
  | cons x rest ih =>
    obtain ⟨first, later⟩ := List.forall_mem_cons.mp missed
    have answer := (seek_right text cursor x.1.toList).none_iff.mpr first
    rw [sighted]
    dsimp only at answer ⊢
    rw [answer, ih later]
    rfl

/-- An element stands where the search for its name has ended, at a tag of that name. -/
theorem tagAt_of_mem_sighted {cursor : Nat} {xs : List (String × List Html.Attribute)}
    {e : Element} (member : e ∈ sighted text cursor xs) :
    ∃ p, e.offset = some p ∧ TagAt text e.name.toList p := by
  induction xs generalizing cursor with
  | nil => cases member
  | cons x rest ih =>
    obtain ⟨name, attributes⟩ := x
    rcases List.mem_append.mp member with here | later
    · obtain ⟨p, found, rfl⟩ := by simpa using here
      exact ⟨p, rfl, (seek_right text cursor name.toList).tagAt found⟩
    · exact ih later

theorem tagAt_of_mem_elements {e : Element} (member : e ∈ (parse text).elements) :
    ∃ p, e.offset = some p ∧ TagAt text e.name.toList p :=
  tagAt_of_mem_sighted (elements_parse text ▸ member)

end PageLint.Markup
