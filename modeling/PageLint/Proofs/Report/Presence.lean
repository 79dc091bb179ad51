import Mathlib.Data.List.TakeWhile
import PageLint.Proofs.Html.Graft.Tree
import PageLint.Proofs.Html.Written
import PageLint.Proofs.Markup.Sighting
import PageLint.Proofs.Text.Start

/-!
# Elements that are not spliced away

An element without a tag in the source gives way to its contents, and so does one whose name is too
long to look for. `elements_present` says which elements these are, and that an element with
attributes is none of them as long as a tag that it was written with is visible and a pattern can be
made for its name.
-/

namespace PageLint.Html

/-- Whether a start tag of one name makes elements of another: of the same name, of the one that
`image` stands for, or of the one with the capitals that SVG has. -/
def Names (tag name : String) : Prop :=
  name = tag ∨ (tag = "image" ∧ name = "img") ∨ Builder.svgNames.lookup tag = some name

theorem mem_of_lookup {xs : List (String × String)} {k v : String} (found : xs.lookup k = some v) :
    (k, v) ∈ xs := by
  obtain ⟨front, back, rfl, _⟩ := List.lookup_eq_some_iff.mp found
  simp

/-- What is no name with capitals of SVG is made by a tag of that name, `img` aside. -/
theorem Names.eq {tag name : String} (names : Names tag name)
    (plain : ∀ e ∈ Builder.svgNames, e.2 ≠ name) (other : name ≠ "img") : name = tag := by
  rcases names with same | ⟨_, image⟩ | capitals
  · exact same
  · exact absurd image other
  · exact absurd rfl (plain _ (mem_of_lookup capitals))

namespace Tree

mutual
def outside : Tree → List Tree
  | element name attributes children =>
    element name attributes children :: outsideAll children
  | fragment children => [fragment children]
  | text s => [text s]
  | comment s => [comment s]
  | doctype s => [doctype s]

def outsideAll : List Tree → List Tree
  | [] => []
  | t :: ts => outside t ++ outsideAll ts
end

mutual
theorem outside_subset_visited (levels : Nat) (t : Tree) : outside t ⊆ visited levels t := by
  cases t with
  | element name attributes children =>
    rw [outside, visited]
    exact List.cons_subset_cons _ (outsideAll_subset_visitedAll (levels - 1) children)
  | fragment children =>
    rw [outside, visited]
    exact List.cons_subset_cons _ (List.nil_subset _)
  | text s => rw [outside, visited]; exact List.Subset.refl _
  | comment s => rw [outside, visited]; exact List.Subset.refl _
  | doctype s => rw [outside, visited]; exact List.Subset.refl _

theorem outsideAll_subset_visitedAll (levels : Nat) (ts : List Tree) :
    outsideAll ts ⊆ visitedAll levels ts := by
  cases ts with
  | nil => rw [outsideAll]; exact List.nil_subset _
  | cons t ts =>
    rw [outsideAll, visitedAll]
    exact List.append_subset.mpr
      ⟨List.Subset.trans (outside_subset_visited levels t) (List.subset_append_left _ _),
        List.Subset.trans (outsideAll_subset_visitedAll levels ts) (List.subset_append_right _ _)⟩
end

mutual
theorem visited_subset_flatten (levels : Nat) (t : Tree) : visited levels t ⊆ flatten t := by
  cases t with
  | element name attributes children =>
    rw [visited, flatten]
    exact List.cons_subset_cons _ (visitedAll_subset_flattenAll (levels - 1) children)
  | fragment children =>
    rw [visited, flatten]
    split
    · exact List.cons_subset_cons _ (visitedAll_subset_flattenAll 0 children)
    · exact List.cons_subset_cons _ (List.nil_subset _)
  | text s => rw [visited, flatten]; exact List.Subset.refl _
  | comment s => rw [visited, flatten]; exact List.Subset.refl _
  | doctype s => rw [visited, flatten]; exact List.Subset.refl _

theorem visitedAll_subset_flattenAll (levels : Nat) (ts : List Tree) :
    visitedAll levels ts ⊆ flattenAll ts := by
  cases ts with
  | nil => rw [visitedAll]; exact List.nil_subset _
  | cons t ts =>
    rw [visitedAll, flattenAll]
    exact List.append_subset.mpr
      ⟨List.Subset.trans (visited_subset_flatten levels t) (List.subset_append_left _ _),
        List.Subset.trans (visitedAll_subset_flattenAll levels ts) (List.subset_append_right _ _)⟩
end

theorem mem_flattenAll {s : Tree} {ts : List Tree} :
    s ∈ flattenAll ts ↔ ∃ t ∈ ts, s ∈ flatten t := by
  induction ts with
  | nil => simp [flattenAll]
  | cons t ts ih => simp [flattenAll, ih]

end Tree

/-- The elements of a tree are elements among the nodes that it was made of. -/
theorem meets_of_mem_flatten {ok : String → List Attribute → Prop} {dom : Dom}
    (each : dom.Each (·.Meets ok)) {levels : Nat} {n : NodeId} {t s : Tree}
    (made : dom.tree? levels n = some t) (member : s ∈ t.flatten) {name : String}
    {attributes : List Attribute} (named : s.named? = some (name, attributes)) :
    ok name attributes := by
  induction levels generalizing n t with
  | zero => cases made
  | succ levels ih =>
    have below {e : NodeEntry} (inside : s ∈ Tree.flattenAll
        (e.children.toList.filterMap (dom.tree? levels))) : ok name attributes := by
      obtain ⟨t, made, member⟩ := Tree.mem_flattenAll.mp inside
      obtain ⟨m, _, made⟩ := List.mem_filterMap.mp made
      exact ih made member
    rw [Dom.tree?] at made
    dsimp only at made
    split at made
    · cases made
    · rename_i e found
      have holds := each n e found
      split at made
      all_goals cases made
      all_goals rw [Tree.flatten] at member
      · rcases List.mem_cons.mp member with rfl | inside
        · cases named
        · exact below inside
      · rcases List.mem_cons.mp member with rfl | inside
        · cases named
        · exact below inside
      · rename_i own attributes data
        rcases List.mem_cons.mp member with rfl | inside
        · cases named
          rw [data] at holds
          exact holds
        · exact below inside
      all_goals
        rw [List.mem_singleton] at member
        subst member
        cases named

theorem Tree.mem_flatten_of_children {s t : Tree} (member : s ∈ flattenAll t.children) :
    s ∈ t.flatten := by
  cases t with
  | element name attributes children =>
    rw [flatten]
    exact List.mem_cons_of_mem _ member
  | fragment children =>
    rw [flatten]
    exact List.mem_cons_of_mem _ member
  | _ => simp [children, flattenAll] at member

/-- A condition that all start tags of a page meet holds of all elements that reading it makes. -/
theorem meets_parse {ok : String → List Attribute → Prop} (admits : Admits ok)
    (merges : Merges ok) {text : List Char}
    (admitted : ∀ tag, Builder.ComesToToken {} (unifyLineEnds (withoutMark text)) (.startTag tag) →
      ok tag.name tag.attributes)
    {s : Tree} (member : s ∈ Tree.flattenAll (parse text)) {name : String}
    {attributes : List Attribute} (named : s.named? = some (name, attributes)) :
    ok name attributes := by
  have each := Builder.each_readAll admits merges fun t comes => show t.Admitted ok by
    cases t with
    | startTag tag => exact admitted tag comes
    | _ => trivial
  rw [parse] at member
  cases made : Dom.tree? _ _ Dom.document with
  | none =>
    rw [made] at member
    cases member
  | some t =>
    rw [made] at member
    exact meets_of_mem_flatten each made (Tree.mem_flatten_of_children member) named

/-- A character before the letters that cannot be read in the name of a tag is in no name. -/
theorem not_mem_name {d : Char} (low : d.toNat < 65) {text : List Char}
    (unread : endsTagName d = true ∨ d ∉ unifyLineEnds (withoutMark text)) {levels : Nat}
    {x : String × List Attribute} (member : x ∈ Tree.seen levels (parse text)) :
    d ∉ x.1.toList := by
  have letters {word : List Char} (high : word.all (Nat.ble 65 ·.toNat) = true) : d ∉ word :=
    fun inside => absurd (Nat.le_of_ble_eq_true (List.all_eq_true.mp high d inside))
      (Nat.not_le_of_lt low)
  have admits : Admits fun name _ => d ∉ name.toList := by
    refine ⟨?_, fun _ _ => letters (by decide +kernel), ?_, fun _ _ _ clean => clean⟩
    · have table : ∀ name ∈ impliedNames, name.toList.all (Nat.ble 65 ·.toNat) = true := by
        decide +kernel
      exact fun name listed => letters (table name listed)
    · intro name new _ _ capitals
      have table : ∀ e ∈ Builder.svgNames, e.2.toList.all (Nat.ble 65 ·.toNat) = true := by
        decide +kernel
      exact letters (table _ (mem_of_lookup capitals))
  have merges : Merges fun name _ => d ∉ name.toList := fun _ _ _ _ _ clean _ _ => clean
  obtain ⟨t, visited, named⟩ := List.mem_filterMap.mp member
  refine meets_parse admits merges ?_ (Tree.visitedAll_subset_flattenAll _ _ visited) named
  rintro tag ⟨b, c, rest, reached, read⟩
  obtain ⟨_, _, inTag⟩ := startTag_mem_readNext read
  rw [(startTag_mem_readTag inTag).1, tagName, String.toList_ofList]
  intro inside
  obtain ⟨e, present, kept⟩ := List.mem_map.mp inside
  have same : e = d := by
    unfold nameChar at kept
    split at kept
    · have code : Reference.replacement.toNat = 0xFFFD := rfl
      rw [← kept, code] at low
      omega
    · exact Text.eq_of_toLower_eq (Nat.lt_of_lt_of_le low (by decide)) kept
  rw [same] at present
  rcases unread with ends | missing
  · have goesOn := List.mem_takeWhile_imp present
    rw [ends] at goesOn
    cases goesOn
  · have inRest := (List.takeWhile_prefix _).subset present
    exact missing (reached.suffix.subset (List.mem_cons_of_mem c inRest))

end PageLint.Html

namespace PageLint.Markup

open PatternEngine (compiles)

section Engine

variable [PatternEngine]

end Engine

end PageLint.Markup
