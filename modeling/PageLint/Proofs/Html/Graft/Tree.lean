import Mathlib.Data.List.Nodup
import Mathlib.Data.List.Perm.Subperm
import PageLint.Proofs.Html.Graft.Reading
import PageLint.Proofs.Markup.Sighting

/-!
# The trees of nodes with one text more

The elements of a page are the same if its nodes differ in a text only: `seen_parts`. One of the
two trees is made with a level more, but tidy nodes have no deeper levels than there are nodes
(`Ancestry.tree?_succ`).
-/

namespace PageLint.Html

namespace Tree

/-- The names and attributes of the elements that are looked for in parts of a page. -/
def seen (levels : Nat) (ts : List Tree) : List (String × List Attribute) :=
  (visitedAll levels ts).filterMap named?

theorem seen_append (levels : Nat) (a b : List Tree) :
    seen levels (a ++ b) = seen levels a ++ seen levels b := by
  rw [seen, seen, seen, ← List.filterMap_append]
  congr 1
  induction a with
  | nil => rfl
  | cons t ts ih => rw [List.cons_append, visitedAll, visitedAll, ih, List.append_assoc]

theorem seen_filterMap (levels : Nat) (f : NodeId → Option Tree) (ns : List NodeId) :
    seen levels (ns.filterMap f) = ns.flatMap fun n => seen levels (f n).toList := by
  induction ns with
  | nil => rfl
  | cons n ns ih =>
    rw [List.flatMap_cons, ← ih, ← seen_append]
    cases made : f n with
    | none => rw [List.filterMap_cons_none made]; rfl
    | some t => rw [List.filterMap_cons_some made]; rfl

theorem seen_element (levels : Nat) (name : String) (attributes : List Attribute)
    (children : List Tree) :
    seen levels [element name attributes children] =
      (name, attributes) :: seen (levels - 1) children := by
  rw [seen, visitedAll, visited, visitedAll, List.append_nil]
  rfl

theorem seen_fragment (levels : Nat) (children : List Tree) :
    seen levels [fragment children] = if levels = 0 then seen 0 children else [] := by
  rw [seen, visitedAll, visited, visitedAll, List.append_nil]
  split <;> rfl

end Tree

namespace Dom

def parts (dom : Dom) : List Tree :=
  ((dom.tree? dom.entries.size document).map Tree.children).getD []

/-! ### Levels -/

inductive Ancestry (dom : Dom) : NodeId → List NodeId → Prop
  | root : Ancestry dom document []
  | child {c p path} : dom.parent? c = some p → Ancestry dom p path → Ancestry dom c (p :: path)

namespace Ancestry

variable {r n m : NodeId} {dom : Dom} {path path' : List NodeId}

theorem unique (top : dom.parent? document = none) (above : dom.Ancestry n path)
    (above' : dom.Ancestry n path') : path = path' := by
  induction above generalizing path' with
  | root =>
    cases above' with
    | root => rfl
    | child parent _ =>
      rw [top] at parent
      cases parent
  | child parent _ ih =>
    cases above' with
    | root =>
      rw [top] at parent
      cases parent
    | child parent' higher =>
      obtain rfl := Option.some.inj (parent.symm.trans parent')
      rw [ih higher]

theorem of_mem (above : dom.Ancestry n path) (member : m ∈ path) :
    ∃ rest, dom.Ancestry m rest ∧ rest.length < path.length := by
  induction above with
  | root => cases member
  | child _ higher ih =>
    rcases List.mem_cons.mp member with rfl | member
    · exact ⟨_, higher, Nat.lt_succ_self _⟩
    · obtain ⟨rest, found, shorter⟩ := ih member
      exact ⟨rest, found, Nat.lt_succ_of_lt shorter⟩

theorem nodup (top : dom.parent? document = none) (above : dom.Ancestry n path) :
    (n :: path).Nodup := by
  induction above with
  | root => exact List.nodup_singleton _
  | child parent higher ih =>
    refine List.nodup_cons.mpr ⟨fun member => ?_, ih⟩
    obtain ⟨rest, found, shorter⟩ := of_mem (child parent higher) member
    rw [unique top found (child parent higher)] at shorter
    exact Nat.lt_irrefl _ shorter

theorem inside (known : document < dom.nextId) (above : dom.Ancestry n path) :
    ∀ m ∈ n :: path, m < dom.nextId := by
  induction above with
  | root => simpa using known
  | child parent _ ih =>
    refine List.forall_mem_cons.mpr ⟨?_, ih⟩
    obtain ⟨e, found, _⟩ := Option.bind_eq_some_iff.mp parent
    rw [← get?_isSome, found]
    rfl

/-- No node is deeper than there are nodes. -/
theorem length_lt (top : dom.parent? document = none) (known : document < dom.nextId)
    (above : dom.Ancestry n path) : path.length < dom.nextId := by
  have listed : n :: path ⊆ List.range dom.nextId :=
    fun m member => List.mem_range.mpr (above.inside known m member)
  have fewer := ((above.nodup top).subperm listed).length_le
  rw [List.length_range] at fewer
  exact fewer

/-- Where there are as many levels as nodes, one more changes nothing. -/
theorem tree?_succ (tidy : dom.Tidy r) (known : document < dom.nextId) {levels : Nat}
    (above : dom.Ancestry n path) (enough : dom.nextId ≤ levels + path.length) :
    dom.tree? levels n = dom.tree? (levels + 1) n := by
  induction levels generalizing n path with
  | zero =>
    rw [Nat.zero_add] at enough
    exact absurd (above.length_lt tidy.top known) (Nat.not_lt.mpr enough)
  | succ levels ih =>
    have children : ∀ e, dom.get? n = some e → e.children.toList.filterMap (dom.tree? levels) =
        e.children.toList.filterMap (dom.tree? (levels + 1)) := by
      intro e found
      refine List.filterMap_congr fun c member => ?_
      have child : c ∈ dom.children n := by
        rw [Dom.children, found]
        exact Array.mem_toList_iff.mp member
      refine ih (.child (tidy.up n c child) above) ?_
      rw [List.length_cons, ← Nat.add_assoc, Nat.add_right_comm]
      exact enough
    rw [tree?, tree?]
    cases found : dom.get? n with
    | none => rfl
    | some e =>
      dsimp only
      rw [children e found]

end Ancestry

/-! ### Elements -/

namespace Grafted

open Html.Tree

variable {r k n : NodeId} {dom dom' : Dom} (g : Grafted r k dom dom')
include g

theorem seen_text (levels below : Nat) : seen below (dom'.tree? levels k).toList = [] := by
  obtain ⟨s, found⟩ := g.text
  cases levels with
  | zero => rfl
  | succ levels =>
    rw [tree?, found]
    rfl

theorem seen_children {levels below : Nat} {e : NodeEntry}
    (same : ∀ n, seen below (dom'.tree? levels (past k n)).toList =
      seen below (dom.tree? levels n).toList) :
    seen below ((e.graft r k n).children.toList.filterMap (dom'.tree? levels)) =
      seen below (e.children.toList.filterMap (dom.tree? levels)) := by
  have text : ∀ ns : List NodeId, ns = [k] ∨ ns = [] →
      seen below (ns.filterMap (dom'.tree? levels)) = [] := by
    rintro ns (rfl | rfl)
    · rw [seen_filterMap, List.flatMap_singleton, g.seen_text]
    · rfl
  rw [NodeEntry.graft, Array.toList_append, Array.toList_map, List.filterMap_append, seen_append,
    text _ (by split <;> simp), List.nil_append, seen_filterMap, seen_filterMap, List.flatMap_map]
  exact List.flatMap_congr fun n _ => same n

theorem seen_tree? (levels below : Nat) (n : NodeId) :
    seen below (dom'.tree? levels (past k n)).toList = seen below (dom.tree? levels n).toList := by
  induction levels generalizing below n with
  | zero => rfl
  | succ levels ih =>
    rw [tree?, tree?, g.entry]
    cases dom.get? n with
    | none => rfl
    | some e =>
      have inside := fun below => g.seen_children (n := n) (e := e) (ih below)
      obtain ⟨data, parent, children⟩ := e
      have fragments : ∀ ts ts' : List Tree, (∀ below, seen below ts' = seen below ts) →
          seen below [.fragment ts'] = seen below [.fragment ts] := by
        intro ts ts' same
        rw [seen_fragment, seen_fragment, same]
      cases data with
      | document => exact fragments _ _ inside
      | fragment => exact fragments _ _ inside
      | element name attributes =>
        refine (seen_element ..).trans (Eq.trans ?_ (seen_element ..).symm)
        exact congrArg (_ :: ·) (inside (below - 1))
      | _ => rfl

theorem seen_below (levels below : Nat) (n : NodeId) :
    seen below (((dom'.tree? levels (past k n)).map Tree.children).getD []) =
      seen below (((dom.tree? levels n).map Tree.children).getD []) := by
  cases levels with
  | zero => rfl
  | succ levels =>
    rw [tree?, tree?, g.entry]
    cases dom.get? n with
    | none => rfl
    | some e =>
      have inside := g.seen_children (n := n) (e := e) fun n => g.seen_tree? levels below n
      obtain ⟨data, parent, children⟩ := e
      cases data with
      | document => exact inside
      | fragment => exact inside
      | element name attributes => exact inside
      | _ => rfl

/-- A page has the same elements with one text more. -/
theorem seen_parts (tidy : dom.Tidy r) (below : Nat) :
    seen below dom'.parts = seen below dom.parts := by
  have known : document < dom.nextId := Nat.lt_of_le_of_lt (Nat.zero_le r) g.known
  have levels : dom'.entries.size = dom.entries.size + 1 := g.nextId
  have root : past k document = document := past_of_lt (Nat.lt_of_le_of_lt (Nat.zero_le r) g.order)
  have deep : dom.tree? dom.entries.size document = dom.tree? (dom.entries.size + 1) document :=
    Ancestry.root.tree?_succ tidy known (Nat.le_refl _)
  have same := g.seen_below (dom.entries.size + 1) below document
  rw [root, ← deep] at same
  rw [parts, parts, levels]
  exact same

end Grafted

end Dom

end PageLint.Html
