import PageLint.Markup.Document

/-!
# Document order

The tree of a page nests elements, splices those without a tag and flattens what is nested too
deep, and all the while one locator is handed on. `build_in_order` says that none of this shows in
document order: the nodes are those that one pass over the parts of the page gives.
-/

namespace PageLint.Html.Tree

mutual
/-- A part and the parts below it, in the order of the page, as far as they become nodes. The
contents of a template do so only where no level is left. -/
def visited (levels : Nat) : Tree → List Tree
  | element name attributes children =>
    element name attributes children :: visitedAll (levels - 1) children
  | fragment children => fragment children :: if levels = 0 then visitedAll 0 children else []
  | text s => [text s]
  | comment s => [comment s]
  | doctype s => [doctype s]

def visitedAll (levels : Nat) : List Tree → List Tree
  | [] => []
  | t :: ts => visited levels t ++ visitedAll levels ts
end

mutual
theorem visited_zero (t : Tree) : visited 0 t = flatten t := by
  cases t with
  | element name attributes children => rw [visited, flatten, visitedAll_zero children]
  | fragment children => rw [visited, flatten, if_pos rfl, visitedAll_zero children]
  | text s => rw [visited, flatten]
  | comment s => rw [visited, flatten]
  | doctype s => rw [visited, flatten]

theorem visitedAll_zero (ts : List Tree) : visitedAll 0 ts = flattenAll ts := by
  cases ts with
  | nil => rw [visitedAll, flattenAll]
  | cons t ts => rw [visitedAll, flattenAll, visited_zero t, visitedAll_zero ts]
end

end PageLint.Html.Tree

namespace PageLint.Markup

/-! ### Nodes of a tree -/

namespace Node

def bare : Node → Node
  | document _ => document []
  | element e _ => element e []
  | n => n

mutual
def height : Node → Nat
  | document children => heightAll children
  | element _ children => heightAll children
  | text _ => 0
  | comment _ => 0
  | doctype _ => 0

def heightAll : List Node → Nat
  | [] => 0
  | n :: ns => max (height n + 1) (heightAll ns)
end

theorem walk_append (a b : List Node) : walk (a ++ b) = walk a ++ walk b := by
  fun_induction walk a with
  | case1 => rfl
  | case2 n rest ih => rw [List.cons_append, walk, ← List.append_assoc, ih, List.cons_append]

theorem walk_cons (n : Node) (rest : List Node) :
    walk (n :: rest) = n :: (walk n.children ++ walk rest) := by
  rw [walk, walk_append]

theorem walk_of_childless {ns : List Node} (childless : ∀ n ∈ ns, n.children = []) :
    walk ns = ns := by
  induction ns with
  | nil => rw [walk]
  | cons n ns ih =>
    have alone : walk n.children = [] := by rw [childless n List.mem_cons_self, walk]
    rw [walk_cons, alone, List.nil_append,
      ih fun other member => childless other (List.mem_cons_of_mem _ member)]

theorem bare_of_childless {n : Node} (childless : n.children = []) : n.bare = n := by
  cases n with
  | document children => rw [bare, show children = [] from childless]
  | element e children => rw [bare, show children = [] from childless]
  | text s => rfl
  | comment s => rfl
  | doctype s => rfl

end Node

/-! ### One pass over the parts of a page -/

variable [PatternEngine]

def sight (l : Locator) : Html.Tree → List Node × Locator
  | .element name attributes _ =>
    match l.locate name.toList with
    | (some offset, l) => ([.element ⟨name, attributesOf attributes, some offset⟩ []], l)
    | (none, l) => ([], l)
  | .fragment _ => ([], l)
  | .text s => ([.text s], l)
  | .comment s => ([.comment s], l)
  | .doctype s => ([.doctype s], l)

def sightAll (l : Locator) : List Html.Tree → List Node × Locator
  | [] => ([], l)
  | t :: rest =>
    let (front, l) := sight l t
    let (back, l) := sightAll l rest
    (front ++ back, l)

theorem sightAll_append (l : Locator) (a b : List Html.Tree) :
    sightAll l (a ++ b) =
      ((sightAll l a).1 ++ (sightAll (sightAll l a).2 b).1, (sightAll (sightAll l a).2 b).2) := by
  induction a generalizing l with
  | nil => rfl
  | cons t rest ih => simp only [List.cons_append, sightAll, ih, List.append_assoc]

theorem childless_of_mem_sight {l : Locator} {t : Html.Tree} {n : Node}
    (member : n ∈ (sight l t).1) : n.children = [] := by
  cases t with
  | element name attributes children =>
    rw [sight] at member
    split at member
    · rw [List.mem_singleton.mp member]; rfl
    · simp at member
  | fragment children => simp [sight] at member
  | text s => rw [List.mem_singleton.mp member]; rfl
  | comment s => rw [List.mem_singleton.mp member]; rfl
  | doctype s => rw [List.mem_singleton.mp member]; rfl

theorem childless_of_mem_sightAll {l : Locator} {ts : List Html.Tree} {n : Node}
    (member : n ∈ (sightAll l ts).1) : n.children = [] := by
  induction ts generalizing l with
  | nil => simp [sightAll] at member
  | cons t rest ih =>
    rcases List.mem_append.mp member with front | back
    · exact childless_of_mem_sight front
    · exact ih back

/-! ### Flat contents -/

theorem flatNodes_eq (l : Locator) (ts : List Html.Tree) :
    (flatNodes l ts, l.afterFlat ts) = sightAll l ts := by
  induction ts generalizing l with
  | nil => rfl
  | cons t rest ih =>
    cases t with
    | element name attributes children =>
      rw [flatNodes, Locator.afterFlat, sightAll, sight]
      rcases l.locate name.toList with ⟨_ | offset, l⟩
      · simp only [← ih l, List.nil_append]
      · simp only [← ih l, List.cons_append, List.nil_append]
    | fragment children =>
      simp only [flatNodes, Locator.afterFlat, sightAll, sight, ← ih l, leaf?]; rfl
    | text s => simp only [flatNodes, Locator.afterFlat, sightAll, sight, ← ih l, leaf?]; rfl
    | comment s => simp only [flatNodes, Locator.afterFlat, sightAll, sight, ← ih l, leaf?]; rfl
    | doctype s => simp only [flatNodes, Locator.afterFlat, sightAll, sight, ← ih l, leaf?]; rfl

theorem build_zero (l : Locator) (ts : List Html.Tree) :
    build 0 l ts = sightAll l (Html.Tree.visitedAll 0 ts) := by
  rw [build, Html.Tree.visitedAll_zero, flatNodes_eq]

/-- A way to read contents that gives, in document order, what one pass gives. -/
def InOrder (levels : Nat) (read : Locator → List Html.Tree → List Node × Locator) : Prop :=
  ∀ l ts, ((Node.walk (read l ts).1).map Node.bare, (read l ts).2) =
    sightAll l (Html.Tree.visitedAll levels ts)

theorem inOrder_build_zero : InOrder 0 (build 0) := by
  intro l ts
  have childless : ∀ n ∈ (build 0 l ts).1, n.children = [] := by
    rw [build_zero]
    exact fun _ member => childless_of_mem_sightAll member
  have bare : (build 0 l ts).1.map Node.bare = (build 0 l ts).1 := by
    rw [List.map_congr_left fun n member => Node.bare_of_childless (childless n member),
      List.map_id']
  rw [Node.walk_of_childless childless, bare, build_zero]

variable {levels : Nat} {inside : Locator → List Html.Tree → List Node × Locator}

theorem nodesOf_inOrder (inner : InOrder levels inside) (l : Locator) (t : Html.Tree) :
    ((Node.walk (nodesOf inside l t).1).map Node.bare, (nodesOf inside l t).2) =
      sightAll l (Html.Tree.visited (levels + 1) t) := by
  cases t with
  | element name attributes children =>
    rw [nodesOf, Html.Tree.visited, sightAll, sight, Nat.add_sub_cancel]
    rcases l.locate name.toList with ⟨_ | offset, l⟩
    · have contents := inner l children
      simp only [← contents, List.nil_append]
    · have contents := inner l children
      simp only [← contents, Node.walk_cons, Node.children]
      simp [Node.walk, Node.bare]
  | fragment children => simp [nodesOf, leaf?, Html.Tree.visited, sightAll, sight, Node.walk]
  | text s =>
    simp [nodesOf, leaf?, Html.Tree.visited, sightAll, sight, Node.walk, Node.children, Node.bare]
  | comment s =>
    simp [nodesOf, leaf?, Html.Tree.visited, sightAll, sight, Node.walk, Node.children, Node.bare]
  | doctype s =>
    simp [nodesOf, leaf?, Html.Tree.visited, sightAll, sight, Node.walk, Node.children, Node.bare]

theorem nodesOfAll_inOrder (inner : InOrder levels inside) :
    InOrder (levels + 1) (nodesOfAll inside) := by
  intro l ts
  induction ts generalizing l with
  | nil => simp [nodesOfAll, Html.Tree.visitedAll, sightAll, Node.walk]
  | cons t rest ih =>
    have first := nodesOf_inOrder inner l t
    have later := ih (nodesOf inside l t).2
    rw [Html.Tree.visitedAll, sightAll_append, ← first, ← later]
    simp only [nodesOfAll, Node.walk_append, List.map_append]

theorem build_inOrder (levels : Nat) : InOrder levels (build levels) := by
  induction levels with
  | zero => exact inOrder_build_zero
  | succ levels ih => exact nodesOfAll_inOrder ih

/-! ### Height -/

end PageLint.Markup
