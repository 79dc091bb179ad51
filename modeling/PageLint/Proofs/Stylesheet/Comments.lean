import Mathlib.Data.List.Basic
import PageLint.Proofs.Stylesheet.Move
import PageLint.Proofs.Stylesheet.Spelling
import PageLint.Report.Basic

/-!
# Comments make no difference

Two texts that have the same tokens but for comments have the same nodes, if places and raw texts
are left aside, and every rule reports the same in them (`parse_comments`). Each block of a value
that is not entered may show a comment in the text of the token after it, so values must not nest
too deep.
-/

namespace PageLint.Stylesheet

open Text Stylesheet.Tree
open Node (height heightAll)

theorem kept_spelled (t : Token) : t.kind.Kept (spelledKind t.text t.kind) := by
  unfold spelledKind
  split
  · rename_i name ident
    split
    · exact .inr ⟨⟨name, ident⟩, rfl⟩
    · exact .inl ident.symm
  · exact .inl rfl

theorem keeps_bare : Keeps Token.bare := by
  intro t
  by_cases comment : t.kind = .comment
  · exact .inl ⟨Token.bare_comment comment, comment⟩
  · exact .inr ⟨_, Token.bare_other comment, kept_spelled t⟩

theorem kept_bare (t : Token) : t.kind.Kept (t.bare.getD t).kind := by
  rcases keeps_bare t with ⟨gone, _⟩ | ⟨u, bare, kept⟩
  · rw [gone]
    exact .inl rfl
  · rw [bare]
    exact kept

def Tree.bareAll (ts : List Tree) : List Tree :=
  changeAll Token.bare ts

def Node.bare (n : Node) : Node :=
  n.relabel (fun _ => "") fun _ => {}

namespace Component

theorem bareAll_leaf (t : Token) (ts : List Tree) :
    bareAll (leaf t :: ts) = (t.bare.map leaf).toList ++ bareAll ts := rfl

theorem bareAll_block (opener : Token) (inside : List Tree) (closer : Option Token)
    (ts : List Tree) :
    bareAll (Tree.block opener inside closer :: ts) =
      Tree.block (opener.bare.getD opener) (bareAll inside) (closer.bind Token.bare) ::
        bareAll ts := rfl

/-- Comments and places do not change how deep a value is. -/
theorem depthAll_bare (levels : Nat) (unread unread' : List Char) (ts : List Tree) :
    depthAll (ofTrees levels unread (bareAll ts)) = depthAll (ofTrees levels unread' ts) := by
  induction levels, ts using ofTrees_induction generalizing unread unread' with
  | nil => rw [ofTrees_nil, bareAll, changeAll, ofTrees_nil]
  | leaf levels t ts ih =>
    rw [bareAll_leaf, depthAll_leaf]
    cases t.bare with
    | none => exact ih unread []
    | some u => exact (depthAll_leaf u _).trans (ih [] [])
  | skipped opener inside closer ts ih =>
    rw [bareAll_block, ofTrees_block_zero, ofTrees_block_zero, depthAll, depthAll, depth_ofBlock,
      depth_ofBlock, ih]
  | entered levels opener inside closer ts ih ih' =>
    rw [bareAll_block, ofTrees_block_succ, ofTrees_block_succ, depthAll, depthAll, depth_ofBlock,
      depth_ofBlock, ih [] [], ih' [] []]

theorem ofTrees_bare_leaf {levels : Nat} (t : Token) (ts : List Tree) :
    ofTrees levels [] (bareAll (leaf t :: ts)) = ofLeaf [] t ++ ofTrees levels [] (bareAll ts) := by
  rw [bareAll_leaf]
  by_cases comment : t.kind = .comment
  · rw [Token.bare_comment comment, ofLeaf, comment]
    rfl
  · rw [Token.bare_other comment, Option.map_some, Option.toList_some, List.singleton_append,
      ofTrees_leaf]
    have same := (kept_spelled t).same (f := fun k => ofLeaf [] ⟨k, t.text, {}⟩) fun _ => rfl
    exact congrArg (· ++ ofTrees levels [] (bareAll ts)) same

theorem depthAll_value_bare (value : List Tree) :
    depthAll (splitImportant (ofTrees maxNesting [] (bareAll value))).1 =
      depthAll (splitImportant (ofTrees maxNesting [] value)).1 := by
  rw [depthAll_splitImportant, depthAll_bare, depthAll_splitImportant]

/-- Comments and places do not show in a value, if all its blocks are entered. -/
theorem ofTrees_bare {levels : Nat} {ts : List Tree}
    (shallow : depthAll (ofTrees levels [] ts) ≤ levels) :
    ofTrees levels [] (bareAll ts) = ofTrees levels [] ts := by
  induction levels, ts using ofTrees_induction with
  | nil => rfl
  | leaf levels t ts ih =>
    rw [ofTrees_leaf, depthAll_append_le] at shallow
    rw [ofTrees_bare_leaf, ofTrees_leaf, ih shallow.2]
  | skipped opener inside closer ts =>
    rw [ofTrees_block_zero, depthAll, depth_ofBlock] at shallow
    exact absurd (Nat.le_trans (Nat.le_max_left _ _) shallow) (Nat.not_succ_le_zero _)
  | entered levels opener inside closer ts ih ih' =>
    rw [ofTrees_block_succ, depthAll, depth_ofBlock, Nat.max_le, Nat.succ_le_succ_iff] at shallow
    have same :=
      (kept_bare opener).same (f := fun k => ofBlock k (ofTrees levels [] inside)) fun _ => rfl
    rw [bareAll_block, ofTrees_block_succ, ih shallow.1, ih' shallow.2, ofTrees_block_succ, same]

end Component

/-! ### Statements -/

theorem braceBody?_bared {t u : Tree} (kept : t.change Token.bare = some u) :
    u.braceBody? = t.braceBody?.map bareAll := by
  cases t with
  | leaf token =>
    obtain ⟨token', _, rfl⟩ := Option.map_eq_some_iff.mp kept
    rfl
  | block opener inside closer =>
    have same : u.isBraceBlock = (block opener inside closer).isBraceBlock := by
      obtain ⟨u', kept', alike⟩ := keeps_bare.keepsKinds.of_not_comment (t := block _ _ _) rfl
      cases kept.symm.trans kept'
      exact alike.isBraceBlock
    cases kept
    rw [braceBody?, same, braceBody?]
    split <;> rfl

theorem HyphensFollowed.mono {ts us : List Token} (followed : HyphensFollowed ts)
    (infix' : us <:+: ts) :
    HyphensFollowed us :=
  fun t u inside => followed t u (inside.trans infix')

/-- A tree keeps its name, unless it is a lone hyphen. -/
theorem name?_bare {t u : Tree} (kept : t.change Token.bare = some u) :
    u.name? = t.name? ∨ ∃ token, t = leaf token ∧ token.isHyphen := by
  cases t with
  | block =>
    cases kept
    exact .inl rfl
  | leaf token =>
    obtain ⟨token', bare, rfl⟩ := Option.map_eq_some_iff.mp kept
    obtain ⟨kind, text, start⟩ := token
    by_cases comment : kind = .comment
    · cases (Token.bare_comment comment).symm.trans bare
    · obtain rfl := Option.some.inj ((Token.bare_other comment).symm.trans bare)
      cases kind with
      | ident name =>
        by_cases hyphen : text = ['-']
        · exact .inr ⟨_, rfl, hyphen, name, rfl⟩
        · rw [Tree.name?, spelledKind, if_neg hyphen]
          exact .inl rfl
      | _ => exact .inl rfl

/-- A lone hyphen starts no declaration. -/
theorem value?_hyphen {token : Token} {rest : List Tree}
    (followed : HyphensFollowed (toTokensAll (leaf token :: rest))) (hyphen : token.isHyphen) :
    value? rest = none := by
  cases rest with
  | nil => rfl
  | cons u rest =>
    cases u with
    | block => rfl
    | leaf next =>
      have other : next.kind = .other := by
        refine followed token next ?_ hyphen
        exact ⟨[], toTokensAll rest, rfl⟩
      have no_space : (leaf next).isSpace = false := by
        rw [isSpace, other]
        rfl
      rw [value?, List.dropWhile_cons, no_space]
      exact if_neg (by simp [other])

theorem statements_bared {enters : Bool} {unread unread' : Option Unread} {ts : List Tree}
    (followed : HyphensFollowed (toTokensAll ts)) :
    List.Forall₂ (Statement.Altered bareAll bareAll) (statements enters unread ts)
      (statements enters unread' (bareAll ts)) := by
  have bared : bareAll = List.filterMap (Tree.change Token.bare) := funext (changeAll_eq Token.bare)
  have named : ∀ t u rest, t :: rest <:+ ts → t.change Token.bare = some u →
      u.name? = t.name? ∨ value? rest = none := by
    intro t u rest suffix kept
    refine (name?_bare kept).imp_right ?_
    rintro ⟨token, rfl, hyphen⟩
    exact value?_hyphen (followed.mono (toTokensAll_suffix suffix).isInfix) hyphen
  have altered : List.Forall₂ (Statement.Altered bareAll (List.filterMap (Tree.change Token.bare)))
      (statements enters unread ts)
      (statements enters unread' (ts.filterMap (Tree.change Token.bare))) :=
    statements_altered keeps_bare.keepsKinds (fun _ _ => braceBody?_bared) named
  rwa [← bared] at altered

/-- What a block holds is read in the same way. -/
theorem body_followed {ts body : List Tree} {s : Statement}
    (followed : HyphensFollowed (toTokensAll ts))
    (member : s ∈ statements true none ts) (found : s.body? = some body) :
    HyphensFollowed (toTokensAll body) := by
  obtain ⟨_, _, _, inside⟩ := (statements_iff.mpr rfl).body_inside member found
  exact followed.mono (toTokensAll_body inside)

/-! ### Nodes -/

/-- All declarations have values whose functions and blocks are all entered. -/
def Shallow (ns : List Node) : Prop :=
  ∀ d ∈ declarations ns, Component.depthAll d.value ≤ maxNesting

instance (ns : List Node) : Decidable (Shallow ns) :=
  inferInstanceAs (Decidable (∀ d ∈ declarations ns, _ ≤ _))

variable {read read' : List Tree → List Node} {ns : List Node} {n : Node}

theorem Node.bare_rule (selector : String) (start : Position) (children : List Node) :
    (rule selector start children).bare = rule "" {} (children.map bare) := by
  rw [bare, relabel, relabelAll_eq]
  rfl

theorem Node.bare_atRule (name prelude : String) (start : Position) (children : List Node) :
    (atRule name prelude start (some children)).bare = atRule name "" {}
    (some (children.map bare)) := by
  rw [bare, relabel, relabelAll_eq]
  rfl

theorem declarations_cons (n : Node) (ns : List Node) :
    declarations (n :: ns) =
      n.declaration?.toList ++ (declarations n.children ++ declarations ns) := by
  rw [declarations, Node.walk, Node.walk_append, List.filterMap_cons, List.filterMap_append]
  cases n <;> rfl

theorem shallow_cons :
    Shallow (n :: ns) ↔ (∀ d, n.declaration? = some d → Component.depthAll d.value ≤ maxNesting) ∧
      Shallow n.children ∧ Shallow ns := by
  simp only [Shallow, declarations_cons, List.forall_mem_append, Option.mem_toList]

theorem shallow_declaration {d : Declaration} :
    Shallow (.declaration d :: ns) ↔ Component.depthAll d.value ≤ maxNesting ∧ Shallow ns := by
  have alone : declarations (Node.declaration d).children = [] := by
    rw [Node.children, declarations, Node.walk]
    rfl
  simp only [Shallow, declarations_cons, alone, Node.declaration?, Option.toList_some,
    List.nil_append, List.singleton_append, List.forall_mem_cons]

theorem shallow_filterMap {ss ss' : List Statement}
    (inner : ∀ s ∈ ss, ∀ body, s.body? = some body →
      (Shallow (read' (bareAll body)) ↔ Shallow (read body)))
    (bared : List.Forall₂ (Statement.Altered bareAll bareAll) ss ss') :
    Shallow (ss'.filterMap (Statement.node? read')) ↔
      Shallow (ss.filterMap (Statement.node? read)) := by
  induction bared with
  | nil => exact Iff.rfl
  | cons one _ ih =>
    obtain ⟨here, later⟩ := List.forall_mem_cons.mp inner
    have others := ih later
    cases one with
    | @atRule name text text' start start' body =>
      refine shallow_cons.trans (Iff.trans ?_ shallow_cons.symm)
      cases body with
      | none => exact and_congr Iff.rfl (and_congr Iff.rfl others)
      | some body => exact and_congr Iff.rfl (and_congr (here body rfl) others)
    | @rule text text' start start' body =>
      refine shallow_cons.trans (Iff.trans ?_ shallow_cons.symm)
      exact and_congr Iff.rfl (and_congr (here body rfl) others)
    | @declaration name start start' value =>
      refine shallow_declaration.trans (Iff.trans ?_ shallow_declaration.symm)
      have same := Component.depthAll_value_bare value
      exact and_congr (Iff.of_eq (congrArg (· ≤ maxNesting) same)) others
    | dropped => exact others

theorem shallow_bare {levels : Nat} {ts : List Tree} (followed : HyphensFollowed (toTokensAll ts)) :
    Shallow (nodes levels (bareAll ts)) ↔ Shallow (nodes levels ts) := by
  induction levels generalizing ts with
  | zero => exact shallow_filterMap (fun _ _ _ _ => Iff.rfl) (statements_bared followed)
  | succ levels ih =>
    refine shallow_filterMap ?_ (statements_bared followed)
    intro s member body found
    exact ih (body_followed followed member found)

theorem shallow_iff :
    Shallow ns ↔ ∀ n ∈ ns,
      (∀ d, n.declaration? = some d → Component.depthAll d.value ≤ maxNesting) ∧
        Shallow n.children := by
  induction ns with
  | nil =>
    have none_declared : declarations [] = [] := by
      rw [declarations, Node.walk]
      rfl
    simp [Shallow, none_declared]
  | cons n ns ih => rw [shallow_cons, List.forall_mem_cons, ih, and_assoc]

theorem node?_body {s : Statement} {body : List Tree} (found : s.body? = some body) :
    ∃ n, s.node? read = some n ∧ n.children = read body := by
  cases s with
  | atRule =>
    cases found
    exact ⟨_, rfl, rfl⟩
  | rule =>
    cases found
    exact ⟨_, rfl, rfl⟩
  | declaration => cases found
  | dropped => cases found

/-- Altered statements have the same nodes but for places and raw texts, if what is altered in
blocks and values does not show there. -/
theorem filterMap_altered {inside value : List Tree → List Tree} {ss ss' : List Statement}
    (altered : List.Forall₂ (Statement.Altered inside value) ss ss')
    (inner : ∀ s ∈ ss, ∀ body, s.body? = some body →
      (read' (inside body)).map Node.bare = (read body).map Node.bare)
    (values : ∀ name start parts, Statement.declaration name start parts ∈ ss →
      Component.ofTrees maxNesting [] (value parts) = Component.ofTrees maxNesting [] parts) :
    (ss'.filterMap (Statement.node? read')).map Node.bare =
      (ss.filterMap (Statement.node? read)).map Node.bare := by
  have add {s s' : Statement} {n n' : Node} {ss ss' : List Statement}
      (node : s.node? read = some n) (node' : s'.node? read' = some n') (same : n'.bare = n.bare)
      (others : (ss'.filterMap (Statement.node? read')).map Node.bare =
        (ss.filterMap (Statement.node? read)).map Node.bare) :
      ((s' :: ss').filterMap (Statement.node? read')).map Node.bare =
        ((s :: ss).filterMap (Statement.node? read)).map Node.bare := by
    rw [List.filterMap_cons_some node, List.filterMap_cons_some node', List.map_cons, List.map_cons,
      same, others]
  induction altered with
  | nil => rfl
  | cons one _ ih =>
    obtain ⟨here, later⟩ := List.forall_mem_cons.mp inner
    have others := ih later fun name start parts member =>
      values name start parts (List.mem_cons_of_mem _ member)
    cases one with
    | @atRule name text text' start start' body =>
      cases body with
      | none => exact add rfl rfl rfl others
      | some body =>
        refine add rfl rfl ?_ others
        rw [Option.map_some, Option.map_some, Option.map_some, Node.bare_atRule,
          here body rfl, Node.bare_atRule]
    | @rule text text' start start' body =>
      refine add rfl rfl ?_ others
      rw [Node.bare_rule, here body rfl, Node.bare_rule]
    | @declaration name start start' parts =>
      refine add rfl rfl ?_ others
      rw [values name start parts List.mem_cons_self]
      rfl
    | dropped => exact others

theorem filterMap_bared {ss ss' : List Statement}
    (inner : ∀ s ∈ ss, ∀ body, s.body? = some body → Shallow (read body) →
      (read' (bareAll body)).map Node.bare = (read body).map Node.bare)
    (bared : List.Forall₂ (Statement.Altered bareAll bareAll) ss ss')
    (shallow : Shallow (ss.filterMap (Statement.node? read))) :
    (ss'.filterMap (Statement.node? read')).map Node.bare =
      (ss.filterMap (Statement.node? read)).map Node.bare := by
  have each := shallow_iff.mp shallow
  refine filterMap_altered bared ?_ ?_
  · intro s member body found
    obtain ⟨n, node, below⟩ := node?_body found
    have shallow := (each n (List.mem_filterMap.mpr ⟨s, member, node⟩)).2
    rw [below] at shallow
    exact inner s member body found shallow
  · intro name start parts member
    have depth := (each _ (List.mem_filterMap.mpr ⟨_, member, rfl⟩)).1 _ rfl
    have same := Component.depthAll_splitImportant (Component.ofTrees maxNesting [] parts)
    exact Component.ofTrees_bare (Nat.le_trans (Nat.le_of_eq same.symm) depth)

theorem nodes_bared {levels : Nat} {ts : List Tree} (followed : HyphensFollowed (toTokensAll ts))
    (shallow : Shallow (nodes levels ts)) :
    (nodes levels (bareAll ts)).map Node.bare = (nodes levels ts).map Node.bare := by
  induction levels generalizing ts with
  | zero => exact filterMap_bared (fun _ _ _ _ _ => rfl) (statements_bared followed) shallow
  | succ levels ih =>
    refine filterMap_bared ?_ (statements_bared followed) shallow
    intro s member body found below
    exact ih (body_followed followed member found) below

/-! ### Reports -/

def Declaration.bare (d : Declaration) : Declaration :=
  { d with position := {} }

theorem walk_bare (ns : List Node) :
    Node.walk (ns.map Node.bare) = (Node.walk ns).map Node.bare := by
  fun_induction Node.walk ns with
  | case1 => rw [List.map_nil, Node.walk]
  | case2 n rest ih =>
    have children : n.bare.children = n.children.map Node.bare := by
      cases n with
      | rule => rw [Node.bare_rule]; rfl
      | atRule name prelude start children =>
        cases children with
        | none => rfl
        | some children => rw [Node.bare_atRule]; rfl
      | declaration => rfl
    rw [List.map_cons, Node.walk, children, ← List.map_append, ih, List.map_cons]

theorem declarations_bare (ns : List Node) :
    declarations (ns.map Node.bare) = (declarations ns).map Declaration.bare := by
  rw [declarations, walk_bare, declarations, List.filterMap_map, List.map_filterMap]
  refine List.filterMap_congr fun n _ => ?_
  cases n with
  | rule => rfl
  | atRule _ _ _ children => cases children <;> rfl
  | declaration => rfl

def bareIssue (i : StylesheetIssue) : StylesheetIssue :=
  { i with line := .unknown }

theorem issues_bare (rules : List DeclarationRule) (d : Declaration) :
    ((rules.filter (·.flags d.bare)).map (·.issue d.bare)).map bareIssue =
      ((rules.filter (·.flags d)).map (·.issue d)).map bareIssue := by
  have same_flags (r : DeclarationRule) : r.flags d.bare = r.flags d := rfl
  simp only [List.map_map, same_flags]
  rfl

/-- What rules report depends on bare declarations only. -/
theorem inspect_bare (rules : List DeclarationRule) (ns : List Node) :
    (inspect rules ns).map bareIssue = (inspect rules (ns.map Node.bare)).map bareIssue := by
  rw [inspect, inspect, declarations_bare, List.map_flatMap, List.flatMap_map, List.map_flatMap]
  simp only [issues_bare]

theorem ofText_bare (text : List Char) :
    bareAll (ofText text) = ofTokens ((tokens {} text).filterMap Token.bare) := by
  rw [ofTokens_change keeps_bare, bareAll, ofText]

theorem ofText_hyphens (text : List Char) : HyphensFollowed (toTokensAll (ofText text)) := by
  rw [ofText, toTokensAll_ofTokens]
  exact tokens_hyphens {} text

/-- If the tokens of two texts have the same texts but for comments, and the values of one nest at
most `maxNesting` blocks, then both have the same nodes but for places and the raw texts of
selectors and preludes, and all rules report the same in them. -/
theorem parse_comments {a b : List Char}
    (same : (tokens {} a).filterMap Token.written = (tokens {} b).filterMap Token.written)
    (shallow : Shallow (parse a)) :
    (parse a).map Node.bare = (parse b).map Node.bare ∧
      (declarations (parse a)).map Declaration.bare =
        (declarations (parse b)).map Declaration.bare ∧
      ∀ c, (analyzeStylesheet c a).map bareIssue = (analyzeStylesheet c b).map bareIssue := by
  have trees : bareAll (ofText a) = bareAll (ofText b) := by
    rw [ofText_bare, bare_of_written same, ofText_bare]
  have shallow' : Shallow (parse b) := by
    rw [parse, ← shallow_bare (ofText_hyphens b), ← trees, shallow_bare (ofText_hyphens a), ← parse]
    exact shallow
  have nodes : (parse a).map Node.bare = (parse b).map Node.bare := by
    rw [parse, ← nodes_bared (ofText_hyphens a) shallow, trees,
      nodes_bared (ofText_hyphens b) shallow', ← parse]
  refine ⟨nodes, ?_, ?_⟩
  · rw [← declarations_bare, nodes, declarations_bare]
  · intro c
    rw [analyzeStylesheet, inspect_bare, nodes, ← inspect_bare, analyzeStylesheet]

def hoverCommented : List Char :=
  "/*\x7b*/a/*;*/:/*\n*/hover\x7b/**/b/*:*/:/*;*/c/*\x7d*/\x7d/*".toList

theorem shallow_hover : Shallow (parse hoverText) := by
  have trees : hoverTrees = ofText hoverText := ofTokens_iff.mp units_hover
  have flat : heightAll hoverNodes ≤ maxNesting := by
    simp [hoverNodes, heightAll, height, maxNesting]
  rw [parse, ← trees, contents_hover.nodes_eq flat]
  decide +kernel

theorem parse_comments_hover :
    (tokens {} hoverText).filterMap Token.written =
        (tokens {} hoverCommented).filterMap Token.written ∧
      Shallow (parse hoverText) ∧
      (parse hoverText).map Node.bare = (parse hoverCommented).map Node.bare ∧
      ∀ c, (analyzeStylesheet c hoverText).map bareIssue =
        (analyzeStylesheet c hoverCommented).map bareIssue := by
  have same : (tokens {} hoverText).filterMap Token.written =
      (tokens {} hoverCommented).filterMap Token.written := by decide +kernel
  obtain ⟨nodes, _, issues⟩ := parse_comments same shallow_hover
  exact ⟨same, shallow_hover, nodes, issues⟩

end PageLint.Stylesheet
