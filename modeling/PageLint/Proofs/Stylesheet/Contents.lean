import PageLint.Proofs.Stylesheet.Grouping
import PageLint.Proofs.Stylesheet.OnePass
import PageLint.Stylesheet.Node

/-!
# The grammar of stylesheets

`Contents` gives the nodes of a stylesheet or a block: those of its statements, with the nodes of
each statement's block below it. `parse_grammar` says that every text has one tree by this grammar,
and that this is the one that parsing gives, if its blocks are not nested too deep.
-/

namespace PageLint.Stylesheet

open Stylesheet.Tree

inductive Builds : List Statement → List Node → Prop
  | done : Builds [] []
  | atRule {name prelude start ss ns} (others : Builds ss ns) :
      Builds (.atRule name prelude start none :: ss)
        (.atRule (String.ofList name) (String.ofList prelude) start none :: ns)
  | atBlock {name prelude start body within children ss ns} (grammar : Statements body within)
      (inside : Builds within children) (others : Builds ss ns) :
      Builds (.atRule name prelude start (some body) :: ss)
        (.atRule (String.ofList name) (String.ofList prelude) start (some children) :: ns)
  | declaration {property start value components important ss ns}
      (parts : Component.splitImportant (Component.ofTrees maxNesting [] value) =
        (components, important)) (others : Builds ss ns) :
      Builds (.declaration property start value :: ss)
        (.declaration ⟨String.ofList property, components, important, start⟩ :: ns)
  | rule {selector start body within children ss ns} (grammar : Statements body within)
      (inside : Builds within children) (others : Builds ss ns) :
      Builds (.rule selector start body :: ss) (.rule (String.ofList selector) start children :: ns)
  | dropped {text start ss ns} (others : Builds ss ns) : Builds (.dropped text start :: ss) ns

def Contents (ts : List Tree) (ns : List Node) : Prop :=
  ∃ ss, Statements ts ss ∧ Builds ss ns

namespace Node

mutual
def height : Node → Nat
  | rule _ _ children => heightAll children + 1
  | atRule _ _ _ none => 0
  | atRule _ _ _ (some children) => heightAll children + 1
  | declaration _ => 0

def heightAll : List Node → Nat
  | [] => 0
  | n :: ns => max (height n) (heightAll ns)
end

theorem heightAll_cons_le {n : Node} {ns : List Node} {levels : Nat} :
    heightAll (n :: ns) ≤ levels ↔ height n ≤ levels ∧ heightAll ns ≤ levels := by
  rw [heightAll, Nat.max_le]

theorem walk_append (a b : List Node) : walk (a ++ b) = walk a ++ walk b := by
  fun_induction walk a with
  | case1 => rfl
  | case2 n rest ih => rw [List.cons_append, walk, ← List.append_assoc, ih, List.cons_append]

end Node

open Node (height heightAll heightAll_cons_le)

variable {t : Tree} {ts rest body : List Tree} {read : Option Statement}
  {ss : List Statement} {ns : List Node} {levels : Nat}

/-! ### What is parsed -/

theorem Builds.bodiless (builds : Builds ss ns) (flat : heightAll ns ≤ 0) :
    ∀ s ∈ ss, s.body? = none := by
  induction builds with
  | done => exact fun s member => absurd member List.not_mem_nil
  | atRule _ ih => exact List.forall_mem_cons.mpr ⟨rfl, ih (heightAll_cons_le.mp flat).2⟩
  | declaration _ _ ih => exact List.forall_mem_cons.mpr ⟨rfl, ih (heightAll_cons_le.mp flat).2⟩
  | dropped _ ih => exact List.forall_mem_cons.mpr ⟨rfl, ih flat⟩
  | atBlock => exact absurd (heightAll_cons_le.mp flat).1 (Nat.not_succ_le_zero _)
  | rule => exact absurd (heightAll_cons_le.mp flat).1 (Nat.not_succ_le_zero _)

/-- The nodes of statements are what parsing makes of them, if `inside` reads right the blocks that
stand in them. -/
theorem Builds.filterMap_node? {inside : List Tree → List Node} (builds : Builds ss ns)
    (shallow : heightAll ns ≤ levels)
    (right : ∀ body children, Contents body children → heightAll children < levels →
      inside body = children) : ss.filterMap (Statement.node? inside) = ns := by
  have add {s : Statement} {n : Node} {ss : List Statement} {ns : List Node}
      (node : s.node? inside = some n) (others : ss.filterMap (Statement.node? inside) = ns) :
      (s :: ss).filterMap (Statement.node? inside) = n :: ns := by
    rw [List.filterMap_cons_some node, others]
  induction builds with
  | done => rfl
  | atRule _ ih => exact add rfl (ih (heightAll_cons_le.mp shallow).2)
  | @atBlock _ _ _ body _ children _ _ grammar within _ _ ih =>
    obtain ⟨deep, shallow⟩ := heightAll_cons_le.mp shallow
    have found := right body children ⟨_, grammar, within⟩ deep
    exact add (by rw [Statement.node?, Option.map_some, found]) (ih shallow)
  | declaration parts _ ih =>
    exact add (by rw [Statement.node?, parts]) (ih (heightAll_cons_le.mp shallow).2)
  | @rule _ _ body _ children _ _ grammar within _ _ ih =>
    obtain ⟨deep, shallow⟩ := heightAll_cons_le.mp shallow
    have found := right body children ⟨_, grammar, within⟩ deep
    exact add (by rw [Statement.node?, found]) (ih shallow)
  | dropped _ ih => rw [List.filterMap_cons_none rfl, ih shallow]

theorem Contents.nodes_eq (contents : Contents ts ns) (shallow : heightAll ns ≤ levels) :
    nodes levels ts = ns := by
  -- Each block on the way takes one level, and `shallow` says that the levels last.
  induction levels generalizing ts ns with
  | zero =>
    obtain ⟨ss, grammar, builds⟩ := contents
    rw [nodes, statements_of_grammar grammar (.inr (builds.bodiless shallow))]
    exact builds.filterMap_node? shallow fun _ _ _ deep => absurd deep (Nat.not_lt_zero _)
  | succ levels ih =>
    obtain ⟨ss, grammar, builds⟩ := contents
    rw [nodes, statements_of_grammar grammar (.inl rfl)]
    exact builds.filterMap_node? shallow fun _ _ inner deep => ih inner (Nat.le_of_lt_succ deep)

theorem Contents.unique {ns' : List Node} (contents : Contents ts ns) (other : Contents ts ns') :
    ns = ns' := by
  rw [← contents.nodes_eq (Nat.le_max_left (heightAll ns) (heightAll ns')),
    other.nodes_eq (Nat.le_max_right (heightAll ns) (heightAll ns'))]

/-! ### All contents have nodes -/

theorem Reads.body_inside (reads : Reads t ts read rest)
    (found : read.bind Statement.body? = some body) :
    ∃ opener closer, opener.kind = .opens .brace ∧ block opener body closer ∈ t :: ts := by
  cases reads with
  | @atBlock _ _ _ _ opener _ closer _ _ brace =>
    cases found
    exact ⟨opener, closer, brace, List.mem_cons_of_mem _ List.mem_append_cons_self⟩
  | @rule _ _ _ opener _ closer _ _ split _ brace =>
    cases found
    rw [split]
    exact ⟨opener, closer, brace, List.mem_append_cons_self⟩
  | atSemicolon => cases found
  | atEnd => cases found
  | declaration => cases found
  | dropped => cases found
  | unfinished => cases found

theorem Statements.body_inside {s : Statement} (grammar : Statements ts ss) (member : s ∈ ss)
    (found : s.body? = some body) :
    ∃ opener closer, opener.kind = .opens .brace ∧ block opener body closer ∈ ts := by
  induction grammar with
  | done => cases member
  | separator _ _ ih =>
    obtain ⟨opener, closer, brace, inside⟩ := ih member
    exact ⟨opener, closer, brace, List.mem_cons_of_mem _ inside⟩
  | statement reads _ ih =>
    rcases List.mem_append.mp member with here | later
    · obtain rfl := Option.mem_toList.mp here
      exact reads.body_inside found
    · obtain ⟨opener, closer, brace, inside⟩ := ih later
      exact ⟨opener, closer, brace, List.mem_cons_of_mem _ (reads.rest_suffix.subset inside)⟩

theorem sizeOf_body_lt {s : Statement} (grammar : Statements ts ss) (member : s ∈ ss)
    (found : s.body? = some body) : sizeOf body < sizeOf ts := by
  obtain ⟨opener, closer, _, inside⟩ := grammar.body_inside member found
  have smaller := List.sizeOf_lt_of_mem inside
  rw [Tree.block.sizeOf_spec] at smaller
  omega

theorem builds_exist
    (inner : ∀ s ∈ ss, ∀ body, s.body? = some body → ∃ children, Contents body children) :
    ∃ ns, Builds ss ns := by
  induction ss with
  | nil => exact ⟨[], .done⟩
  | cons s ss ih =>
    obtain ⟨here, later⟩ := List.forall_mem_cons.mp inner
    obtain ⟨ns, others⟩ := ih later
    cases s with
    | atRule name prelude start body =>
      cases body with
      | none => exact ⟨_, .atRule others⟩
      | some body =>
        obtain ⟨children, within, grammar, inside⟩ := here body rfl
        exact ⟨_, .atBlock grammar inside others⟩
    | rule selector start body =>
      obtain ⟨children, within, grammar, inside⟩ := here body rfl
      exact ⟨_, .rule grammar inside others⟩
    | declaration property start value => exact ⟨_, .declaration rfl others⟩
    | dropped text start => exact ⟨ns, .dropped others⟩

theorem contents_exist (ts : List Tree) : ∃ ns, Contents ts ns := by
  obtain ⟨ss, grammar⟩ := statements_exist ts.length ts (Nat.le_refl _)
  have inner : ∀ s ∈ ss, ∀ body, s.body? = some body → ∃ children, Contents body children := by
    intro s member body found
    have smaller := sizeOf_body_lt grammar member found
    exact contents_exist body
  obtain ⟨ns, builds⟩ := builds_exist inner
  exact ⟨ns, ss, grammar, builds⟩
termination_by sizeOf ts

/-! ### Stylesheets -/

/-- A text has one sequence of units, and its units have one tree of nodes by the grammar. If this
has at most `maxNesting` blocks inside one another, it is what parsing gives. The statements of the
grammar are those that reading in one pass finds. -/
theorem parse_grammar (text : List Char) :
    (∃! ts, Units none (tokens {} text) ts []) ∧
    (∀ ts ss, Statements ts ss ↔ ss = onePass .between ts) ∧
    ∀ ts, Units none (tokens {} text) ts [] →
      (∃! ns, Contents ts ns) ∧
      ∀ ns, Contents ts ns → heightAll ns ≤ maxNesting → parse text = ns := by
  refine ⟨?_, fun ts ss => onePass_iff, ?_⟩
  · refine ⟨ofText text, ofTokens_iff.mpr rfl, ?_⟩
    intro ts units
    exact ofTokens_iff.mp units
  · intro ts units
    obtain ⟨ns, contents⟩ := contents_exist ts
    refine ⟨⟨ns, contents, fun ns' other => other.unique contents⟩, ?_⟩
    intro ns contents shallow
    have whole : ts = ofText text := ofTokens_iff.mp units
    rw [parse, ← whole]
    exact contents.nodes_eq shallow

def hoverText : List Char := "a:hover\x7bb:c\x7d".toList

def hoverBody : List Tree :=
  [leaf ⟨.ident ['b'], ['b'], ⟨1, 9⟩⟩, leaf ⟨.colon, [':'], ⟨1, 10⟩⟩,
    leaf ⟨.ident ['c'], ['c'], ⟨1, 11⟩⟩]

def hoverTrees : List Tree :=
  [leaf ⟨.ident ['a'], ['a'], ⟨1, 1⟩⟩, leaf ⟨.colon, [':'], ⟨1, 2⟩⟩,
    leaf ⟨.ident "hover".toList, "hover".toList, ⟨1, 3⟩⟩,
    block ⟨.opens .brace, ['\x7b'], ⟨1, 8⟩⟩ hoverBody (some ⟨.closes .brace, ['\x7d'], ⟨1, 12⟩⟩)]

def hoverNodes : List Node :=
  [.rule "a:hover" ⟨1, 1⟩ [.declaration ⟨"b", [.token "c"], false, ⟨1, 9⟩⟩]]

theorem units_hover : Units none (tokens {} hoverText) hoverTrees [] := by
  have read : tokens {} hoverText = toTokensAll hoverTrees := by decide +kernel
  exact ofTokens_iff.mpr (by rw [read]; rfl)

theorem contents_hover : Contents hoverTrees hoverNodes := by
  have rule : Statements hoverTrees [.rule "a:hover".toList ⟨1, 1⟩ hoverBody] := onePass_iff.mpr rfl
  have declaration : Statements hoverBody [.declaration ['b'] ⟨1, 9⟩ hoverBody.tail.tail] :=
    onePass_iff.mpr rfl
  have value : Component.splitImportant (Component.ofTrees maxNesting [] hoverBody.tail.tail) =
      ([.token "c"], false) := by
    rw [hoverBody, List.tail_cons, List.tail_cons, Component.ofTrees, Component.ofTrees]
    rfl
  exact ⟨_, rule, .rule declaration (.declaration value .done) .done⟩

/-- A name and a colon that a block follows after all. -/
theorem parse_grammar_hover :
    Units none (tokens {} hoverText) hoverTrees [] ∧ Contents hoverTrees hoverNodes ∧
      heightAll hoverNodes ≤ maxNesting ∧ parse hoverText = hoverNodes := by
  have shallow : heightAll hoverNodes ≤ maxNesting := by
    simp [hoverNodes, heightAll, height, maxNesting]
  exact ⟨units_hover, contents_hover, shallow,
    ((parse_grammar hoverText).2.2 hoverTrees units_hover).2 hoverNodes contents_hover shallow⟩

end PageLint.Stylesheet
