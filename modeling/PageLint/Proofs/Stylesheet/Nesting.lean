import PageLint.Proofs.Stylesheet.Comments
import PageLint.Proofs.Stylesheet.Positions

/-!
# How deep blocks are entered

`wholeNodes` reads a stylesheet as `nodes` does, but enters every block. Reading with a limit gives
nothing below it (`nodes_under`, `value_under`), and the same as reading without one where no block
is deeper (`nodes_whole`).
-/

namespace PageLint.Stylesheet

open Stylesheet.Tree
open Node (height heightAll)

/-! ### What stands below what -/

/-- `a` is one of `as` or stands below one of them, under `n` others. -/
inductive Under {α : Type} (parts : α → List α) : (as : List α) → (n : Nat) → (a : α) → Prop
  | top {as a} (member : a ∈ as) : Under parts as 0 a
  | deeper {as b n a} (member : b ∈ as) (under : Under parts (parts b) n a) :
      Under parts as (n + 1) a

/-- If each step down takes one of the levels left, and nothing is below the last, then nothing
stands under more than there are levels. -/
theorem Under.le_levels {α : Type} {parts : α → List α} {as : List α} {a : α} {n levels : Nat}
    (under : Under parts as n a) (left : Nat → List α → Prop) (start : left levels as)
    (last : ∀ as a, left 0 as → a ∈ as → parts a = [])
    (step : ∀ levels as a, left (levels + 1) as → a ∈ as → left levels (parts a)) :
    n ≤ levels ∧ (n = levels → parts a = []) := by
  induction under generalizing levels with
  | @top as a member =>
    refine ⟨Nat.zero_le _, ?_⟩
    rintro rfl
    exact last as a start member
  | @deeper as b n a member under ih =>
    cases levels with
    | zero =>
      rw [last as b start member] at under
      cases under with
      | top member => cases member
      | deeper member => cases member
    | succ levels =>
      obtain ⟨bound, leaf⟩ := ih (step levels as b start member)
      refine ⟨Nat.succ_le_succ bound, ?_⟩
      intro same
      exact leaf (Nat.succ.inj same)

namespace Component

def contents : Component → List Component
  | function _ arguments => arguments
  | block _ contents => contents
  | _ => []

variable {levels : Nat} {unread : List Char} {ts : List Tree} {c : Component}

theorem contents_ofBlock (kind : TokenKind) (cs : List Component) :
    (ofBlock kind cs).contents = cs := by
  cases kind <;> rfl

theorem contents_ofLeaf {t : Token} (member : c ∈ ofLeaf unread t) : c.contents = [] := by
  unfold ofLeaf at member
  split at member
  · obtain rfl := List.mem_singleton.mp member
    rfl
  · cases member
  · obtain rfl := List.mem_singleton.mp member
    rfl

theorem contents_ofTrees_zero (member : c ∈ ofTrees 0 unread ts) : c.contents = [] := by
  induction ts generalizing unread with
  | nil =>
    rw [ofTrees_nil] at member
    cases member
  | cons t ts ih =>
    cases t with
    | leaf t =>
      rw [ofTrees_leaf] at member
      rcases List.mem_append.mp member with here | later
      · exact contents_ofLeaf here
      · exact ih later
    | block opener inside closer =>
      rw [ofTrees_block_zero] at member
      rcases List.mem_cons.mp member with rfl | later
      · exact contents_ofBlock opener.kind []
      · exact ih later

theorem contents_ofTrees_succ (member : c ∈ ofTrees (levels + 1) unread ts) :
    ∃ inside, c.contents = ofTrees levels [] inside := by
  induction ts generalizing unread with
  | nil =>
    rw [ofTrees_nil] at member
    cases member
  | cons t ts ih =>
    cases t with
    | leaf t =>
      rw [ofTrees_leaf] at member
      rcases List.mem_append.mp member with here | later
      · exact ⟨[], by rw [contents_ofLeaf here, ofTrees_nil]⟩
      · exact ih later
    | block opener inside closer =>
      rw [ofTrees_block_succ] at member
      rcases List.mem_cons.mp member with rfl | later
      · exact ⟨inside, contents_ofBlock opener.kind _⟩
      · exact ih later

/-- Inside as many functions and blocks as may be entered, nothing more is read. -/
theorem ofTrees_under {cs : List Component} {n : Nat}
    (part : ∀ c ∈ cs, c ∈ ofTrees levels unread ts) (under : Under contents cs n c) :
    n ≤ levels ∧ (n = levels → c.contents = []) := by
  -- An `!important` may have been taken off the outermost components, so they are a part only.
  refine under.le_levels (fun levels cs => ∃ unread ts, ∀ c ∈ cs, c ∈ ofTrees levels unread ts)
    ⟨unread, ts, part⟩ ?_ ?_
  · rintro cs c ⟨unread, ts, part⟩ member
    exact contents_ofTrees_zero (part c member)
  · rintro levels cs c ⟨unread, ts, part⟩ member
    obtain ⟨inside, entered⟩ := contents_ofTrees_succ (part c member)
    refine ⟨[], inside, fun inner found => ?_⟩
    rwa [entered] at found

end Component

/-! ### The limit bounds the tree -/

variable {levels : Nat} {ts : List Tree} {n : Node}

theorem children_node? {s : Statement} {read : List Tree → List Node}
    (node : s.node? read = some n) : n.children = [] ∨ ∃ body, n.children = read body := by
  cases s with
  | atRule name prelude start body =>
    cases node
    cases body with
    | none => exact .inl rfl
    | some body => exact .inr ⟨body, rfl⟩
  | rule selector start body =>
    cases node
    exact .inr ⟨body, rfl⟩
  | declaration =>
    cases node
    exact .inl rfl
  | dropped => cases node

theorem nodes_nil (levels : Nat) : nodes levels [] = [] := by
  cases levels with
  | zero => rw [nodes, statements_nil rfl]; rfl
  | succ => rw [nodes, statements_nil rfl]; rfl

theorem children_zero (member : n ∈ nodes 0 ts) : n.children = [] := by
  obtain ⟨s, _, node⟩ := List.mem_filterMap.mp member
  rcases children_node? node with none | ⟨_, none⟩
  · exact none
  · exact none

theorem children_succ (member : n ∈ nodes (levels + 1) ts) :
    ∃ body, n.children = nodes levels body := by
  obtain ⟨s, _, node⟩ := List.mem_filterMap.mp member
  rcases children_node? node with none | ⟨body, entered⟩
  · exact ⟨[], by rw [none, nodes_nil]⟩
  · exact ⟨body, entered⟩

/-- Below as many nodes as blocks may be entered stands none. -/
theorem nodes_under {k : Nat} (under : Under Node.children (nodes levels ts) k n) :
    k ≤ levels ∧ (k = levels → n.children = []) := by
  refine under.le_levels (fun levels ns => ∃ ts, ns = nodes levels ts) ⟨ts, rfl⟩ ?_ ?_
  · rintro _ n ⟨ts, rfl⟩ member
    exact children_zero member
  · rintro levels _ n ⟨ts, rfl⟩ member
    exact children_succ member

/-- The components of a declaration are read from its value, of which `!important` is taken off. -/
theorem value_read {text : List Char} {d : Declaration} (member : d ∈ declarations (parse text)) :
    ∃ value, ∀ c ∈ d.value, c ∈ Component.ofTrees maxNesting [] value := by
  obtain ⟨value, source⟩ := declaration_source member
  have kept : (Component.splitImportant (Component.ofTrees maxNesting [] value)).1 = d.value :=
    congrArg Prod.fst source.split
  refine ⟨value, fun c part => ?_⟩
  rw [← kept] at part
  exact Component.mem_of_mem_splitImportant part

theorem value_under {text : List Char} {d : Declaration} {k : Nat} {c : Component}
    (member : d ∈ declarations (parse text)) (under : Under Component.contents d.value k c) :
    k ≤ maxNesting ∧ (k = maxNesting → c.contents = []) := by
  obtain ⟨value, part⟩ := value_read member
  exact Component.ofTrees_under part under

/-! ### Reading without a limit -/

namespace Component

mutual
def whole : Tree → List Component
  | leaf t => ofLeaf [] t
  | Tree.block opener inside _ => [ofBlock opener.kind (wholeAll inside)]

def wholeAll : List Tree → List Component
  | [] => []
  | t :: ts => whole t ++ wholeAll ts
end

theorem ofTrees_whole {levels : Nat} {ts : List Tree}
    (shallow : depthAll (wholeAll ts) ≤ levels) : ofTrees levels [] ts = wholeAll ts := by
  induction levels, ts using ofTrees_induction with
  | nil => rw [ofTrees_nil, wholeAll]
  | leaf levels t ts ih =>
    rw [wholeAll, depthAll_append_le] at shallow
    rw [ofTrees_leaf, ih shallow.2, wholeAll, whole]
  | skipped opener inside closer ts =>
    rw [wholeAll, whole, List.singleton_append, depthAll, depth_ofBlock] at shallow
    exact absurd (Nat.le_trans (Nat.le_max_left _ _) shallow) (Nat.not_succ_le_zero _)
  | entered levels opener inside closer ts ih ih' =>
    rw [wholeAll, whole, List.singleton_append, depthAll, depth_ofBlock, Nat.max_le,
      Nat.succ_le_succ_iff] at shallow
    rw [ofTrees_block_succ, ih shallow.1, ih' shallow.2, wholeAll, whole, List.singleton_append]

/-- A value that has not more levels than are entered has been read to its end. -/
theorem ofTrees_entered {levels : Nat} {ts : List Tree}
    (shallow : depthAll (ofTrees levels [] ts) ≤ levels) : ofTrees levels [] ts = wholeAll ts := by
  induction levels, ts using ofTrees_induction with
  | nil => rw [ofTrees_nil, wholeAll]
  | leaf levels t ts ih =>
    rw [ofTrees_leaf, depthAll_append_le] at shallow
    rw [ofTrees_leaf, ih shallow.2, wholeAll, whole]
  | skipped opener inside closer ts =>
    rw [ofTrees_block_zero, depthAll, depth_ofBlock] at shallow
    exact absurd (Nat.le_trans (Nat.le_max_left _ _) shallow) (Nat.not_succ_le_zero _)
  | entered levels opener inside closer ts ih ih' =>
    rw [ofTrees_block_succ, depthAll, depth_ofBlock, Nat.max_le, Nat.succ_le_succ_iff] at shallow
    rw [ofTrees_block_succ, ih shallow.1, ih' shallow.2, wholeAll, whole, List.singleton_append]

end Component

/-- The node of a statement, with every function and block of a value entered, where `inside` reads
the contents of its block. -/
def Statement.wholeNode? (s : Statement) (inside : ∀ body, s.body? = some body → List Node) :
    Option Node :=
  match s, inside with
  | atRule name prelude position none, _ =>
    some (.atRule (String.ofList name) (String.ofList prelude) position none)
  | atRule name prelude position (some body), inside =>
    some (.atRule (String.ofList name) (String.ofList prelude) position (some (inside body rfl)))
  | rule selector position body, inside =>
    some (.rule (String.ofList selector) position (inside body rfl))
  | declaration property position value, _ =>
    let parts := Component.splitImportant (Component.wholeAll value)
    some (.declaration ⟨String.ofList property, parts.1, parts.2, position⟩)
  | dropped _ _, _ => none

def wholeNodes (ts : List Tree) : List Node :=
  (statements true none ts).attach.filterMap fun s =>
    s.1.wholeNode? fun body _ => wholeNodes body
termination_by sizeOf ts
decreasing_by exact sizeOf_body_lt (statements_iff.mpr rfl) s.2 ‹_›

theorem wholeNodes_eq (ts : List Tree) :
    wholeNodes ts =
      (statements true none ts).filterMap (·.wholeNode? fun body _ => wholeNodes body) := by
  rw [wholeNodes]
  conv_rhs => rw [← List.attach_map_subtype_val (statements true none ts), List.filterMap_map]
  rfl

theorem mem_wholeNodes {s : Statement} (member : s ∈ statements true none ts)
    (node : s.wholeNode? (fun body _ => wholeNodes body) = some n) : n ∈ wholeNodes ts := by
  rw [wholeNodes_eq]
  exact List.mem_filterMap.mpr ⟨s, member, node⟩

theorem heightAll_le_iff {ns : List Node} :
    heightAll ns ≤ levels ↔ ∀ n ∈ ns, height n ≤ levels := by
  induction ns with
  | nil => simp [heightAll]
  | cons n ns ih => rw [Node.heightAll_cons_le, ih, List.forall_mem_cons]

/-- The block of a statement stands below its node and makes it one higher. -/
theorem wholeNodes_body {s : Statement} {body : List Tree} (member : s ∈ statements true none ts)
    (found : s.body? = some body) :
    ∃ n ∈ wholeNodes ts, n.children = wholeNodes body ∧
      n.height = heightAll (wholeNodes body) + 1 := by
  cases s with
  | atRule name prelude start =>
    cases found
    exact ⟨_, mem_wholeNodes member rfl, rfl, rfl⟩
  | rule selector start =>
    cases found
    exact ⟨_, mem_wholeNodes member rfl, rfl, rfl⟩
  | declaration => cases found
  | dropped => cases found

theorem node?_whole {s : Statement} {read : List Tree → List Node}
    (member : s ∈ statements true none ts)
    (blocks : ∀ body, s.body? = some body → read body = wholeNodes body)
    (values : Shallow (wholeNodes ts)) :
    s.node? read = s.wholeNode? fun body _ => wholeNodes body := by
  cases s with
  | atRule name prelude start body =>
    cases body with
    | none => rfl
    | some body => rw [Statement.node?, Option.map_some, blocks body rfl, Statement.wholeNode?]
  | rule selector start body => rw [Statement.node?, blocks body rfl, Statement.wholeNode?]
  | declaration property start value =>
    have depth := (shallow_iff.mp values _ (mem_wholeNodes member rfl)).1 _ rfl
    have same := Component.depthAll_splitImportant (Component.wholeAll value)
    have entered := Component.ofTrees_whole (Nat.le_trans (Nat.le_of_eq same.symm) depth)
    rw [Statement.node?, entered, Statement.wholeNode?]
  | dropped => rfl

def parseWhole (text : List Char) : List Node :=
  wholeNodes (ofText text)

/-- Where no block is deeper than may be entered, reading with a limit gives the same as without. -/
theorem nodes_whole (shallow : heightAll (wholeNodes ts) ≤ levels)
    (values : Shallow (wholeNodes ts)) : nodes levels ts = wholeNodes ts := by
  induction levels generalizing ts with
  | zero =>
    have bodiless : ∀ s ∈ statements true none ts, s.body? = none := by
      intro s member
      refine Option.eq_none_iff_forall_ne_some.mpr fun body found => ?_
      obtain ⟨n, inside, _, high⟩ := wholeNodes_body member found
      have flat := heightAll_le_iff.mp shallow n inside
      omega
    rw [nodes, statements_of_grammar (statements_iff.mpr rfl) (.inr bodiless), wholeNodes_eq]
    refine List.filterMap_congr fun s member => node?_whole member ?_ values
    intro body found
    rw [bodiless s member] at found
    cases found
  | succ levels ih =>
    rw [nodes, wholeNodes_eq]
    refine List.filterMap_congr fun s member => node?_whole member ?_ values
    intro body found
    obtain ⟨n, inside, below, high⟩ := wholeNodes_body member found
    have lower := heightAll_le_iff.mp shallow n inside
    have values' := (shallow_iff.mp values n inside).2
    rw [below] at values'
    exact ih (by omega) values'

end PageLint.Stylesheet
