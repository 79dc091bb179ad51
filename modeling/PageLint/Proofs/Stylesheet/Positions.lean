import PageLint.Proofs.Stylesheet.Boundary
import PageLint.Proofs.Stylesheet.Components
import PageLint.Proofs.Stylesheet.SourceText

/-!
# Positions and token texts

A node has the position of the token that its statement starts with, and the tokens of a value are
those of the source: `parse_placed` says so of every text. Only directly behind a block that is too
deep to be entered it is otherwise: there reading starts just after the opening bracket of that
block, so the position is too early and a token comes with the inside of the block before it
(`placed_too_early`).
-/

namespace PageLint.Stylesheet

open Text Stylesheet.Tree

def Token.WrittenIn (text : List Char) (t : Token) : Prop :=
  ∃ before after, text = before ++ (t.text ++ after) ∧ t.start = Position.advance {} before

/-- A token of the trees `ts` that `depth` blocks of them enclose. In the innermost of these,
`front` stands before it. -/
inductive TokenOf : (ts : List Tree) → (depth : Nat) → (front : List Tree) → Token → Prop
  | here (front t after) : TokenOf (front ++ leaf t :: after) 0 front t
  | inside {ts opener inside closer depth front t} (member : block opener inside closer ∈ ts)
      (deeper : TokenOf inside depth front t) : TokenOf ts (depth + 1) front t

/-- The block in braces that ends the trees `front`, if it stands so deep that it is skipped. -/
def skippedBlock (depth : Nat) (front : List Tree) : Option Tree :=
  if depth = maxNesting then front.getLast?.filter isBraceBlock else none

def skippedText (depth : Nat) (front : List Tree) : List Char :=
  if depth = maxNesting then front.getLast?.elim [] innerText else []

namespace Component

mutual
def tokens : Component → List String
  | token text => [text]
  | blank => []
  | function _ arguments => tokensAll arguments
  | block _ contents => tokensAll contents

def tokensAll : List Component → List String
  | [] => []
  | c :: cs => tokens c ++ tokensAll cs
end

end Component

/-- A declaration is written with the name `t` and a value in what follows it: its tokens are those
of the value, but for what a skipped block leaves before them. -/
def Declaration.WrittenIn (text : List Char) (t : Tree) (after : List Tree) (d : Declaration) :
    Prop :=
  ∃ name word start value rest, t = leaf ⟨.ident name, word, start⟩ ∧
    d.property = String.ofList name ∧ Declares after value rest ∧
    ∀ s ∈ Component.tokensAll d.value, ∃ depth front word, TokenOf value depth front word ∧
      word.WrittenIn text ∧ word.kind ≠ .blank ∧ word.kind ≠ .comment ∧
      s = String.ofList (skippedText depth front ++ word.text)

/-! ### Tokens of the source -/

theorem tokens_written (p : Position) (text : List Char) : ∀ t ∈ tokens p text,
    ∃ before after, text = before ++ (t.text ++ after) ∧ t.start = p.advance before := by
  fun_induction tokens p text with
  | case1 => exact fun t member => absurd member List.not_mem_nil
  | case2 p c rest kind length read taken ih =>
    have whole : taken ++ rest.drop (length - 1) = c :: rest := by
      rw [List.cons_append, List.take_append_drop]
    refine List.forall_mem_cons.mpr ⟨⟨[], rest.drop (length - 1), whole.symm, rfl⟩, ?_⟩
    intro t member
    obtain ⟨before, after, split, start⟩ := ih t member
    refine ⟨taken ++ before, after, ?_, ?_⟩
    · rw [List.append_assoc, ← split, whole]
    · have follows : before <+: rest.drop ((tokenAt c rest).2 - 1) := by
        rw [read]
        exact ⟨_, split.symm⟩
      have moved := advance_token_append p c rest follows
      rw [read] at moved
      rw [start, moved]

theorem writtenIn_of_mem {text : List Char} {t : Token} (member : t ∈ toTokensAll (ofText text)) :
    t.WrittenIn text := by
  rw [ofText, toTokensAll_ofTokens] at member
  exact tokens_written {} text t member

variable {ts contents front after value rest : List Tree} {depth levels : Nat} {t : Tree}
  {text : List Char}

theorem mem_toTokensAll {token : Token} :
    token ∈ toTokensAll ts ↔ ∃ t ∈ ts, token ∈ t.toTokens := by
  induction ts with
  | nil => simp [toTokensAll]
  | cons t ts ih => simp [toTokensAll, ih]

theorem toTokensAll_subset {us : List Tree} (sub : us ⊆ ts) : toTokensAll us ⊆ toTokensAll ts := by
  intro token found
  obtain ⟨t, member, inside⟩ := mem_toTokensAll.mp found
  exact mem_toTokensAll.mpr ⟨t, sub member, inside⟩

theorem toTokensAll_inside_subset {opener : Token} {inside : List Tree} {closer : Option Token}
    (member : block opener inside closer ∈ ts) : toTokensAll inside ⊆ toTokensAll ts := by
  intro token found
  refine mem_toTokensAll.mpr ⟨_, member, ?_⟩
  rw [toTokens]
  exact List.mem_cons_of_mem _ (List.mem_append_left _ found)

theorem Within.toTokensAll_subset (within : Within ts depth contents) :
    toTokensAll contents ⊆ toTokensAll ts := by
  induction within with
  | here => exact List.Subset.refl _
  | inside member _ _ ih => exact List.Subset.trans ih (toTokensAll_inside_subset member)

theorem TokenOf.mem {token : Token} (found : TokenOf ts depth front token) :
    token ∈ toTokensAll ts := by
  induction found with
  | here front t after => exact mem_toTokensAll.mpr ⟨leaf t, by simp, List.mem_singleton_self t⟩
  | inside member _ ih => exact toTokensAll_inside_subset member ih

theorem Begins.split (begins : Begins ts front t after) : ts = front ++ t :: after := by
  induction begins with
  | here => rfl
  | separator _ _ ih => rw [ih, List.cons_append]
  | statement _ _ ih => rw [ih, List.cons_append, List.append_assoc]

theorem Begins.first_mem (begins : Begins ts front t after) : t.first ∈ toTokensAll ts := by
  refine mem_toTokensAll.mpr ⟨t, ?_, ?_⟩
  · rw [begins.split]
    exact List.mem_append_right _ List.mem_cons_self
  · cases t with
    | leaf token => exact List.mem_singleton_self token
    | block => exact List.mem_cons_self

theorem Declares.value_subset (declares : Declares after value rest) : value ⊆ after := by
  cases declares with
  | ended =>
    exact List.subset_append_of_subset_right _
      (List.subset_cons_of_subset _ (List.subset_append_left _ _))
  | last =>
    exact List.subset_append_of_subset_right _
      (List.subset_cons_of_subset _ (List.Subset.refl _))

/-! ### Tokens of a value -/

namespace Component

variable {s : String} {unread : List Char} {c : Component} {cs cs' : List Component}

theorem tokensAll_append : tokensAll (cs ++ cs') = tokensAll cs ++ tokensAll cs' := by
  induction cs with
  | nil => rfl
  | cons c cs ih => rw [List.cons_append, tokensAll, tokensAll, ih, List.append_assoc]

theorem mem_tokensAll : s ∈ tokensAll cs ↔ ∃ c ∈ cs, s ∈ c.tokens := by
  induction cs with
  | nil => simp [tokensAll]
  | cons c cs ih => simp [tokensAll, ih]

theorem tokens_ofBlock (kind : TokenKind) (contents : List Component) :
    (ofBlock kind contents).tokens = tokensAll contents := by
  cases kind <;> rfl

theorem tokensAll_splitImportant_subset (cs : List Component) :
    tokensAll (splitImportant cs).1 ⊆ tokensAll cs := by
  intro s member
  obtain ⟨c, inside, found⟩ := mem_tokensAll.mp member
  exact mem_tokensAll.mpr ⟨c, mem_of_mem_splitImportant inside, found⟩

theorem mem_tokens_ofLeaf {word : Token} (member : s ∈ tokensAll (ofLeaf unread word)) :
    word.kind ≠ .blank ∧ word.kind ≠ .comment ∧ s = String.ofList (unread ++ word.text) := by
  unfold ofLeaf at member
  split at member
  · cases member
  · cases member
  · rename_i no_blank no_comment
    exact ⟨no_blank, no_comment, List.mem_singleton.mp member⟩

end Component

/-- What comes with a token of a value that is read from `unread` on, where `levels` blocks inside one
another are entered. -/
def textBefore (levels : Nat) (unread : List Char) (depth : Nat) (front : List Tree) : List Char :=
  if depth = 0 ∧ front = [] then unread
  else if depth = levels then front.getLast?.elim [] innerText else []

theorem textBefore_cons (levels : Nat) (unread : List Char) (depth : Nat) (t : Tree)
    (front : List Tree) :
    textBefore levels unread depth (if depth = 0 then t :: front else front) =
      textBefore levels (if levels = 0 then t.innerText else []) depth front := by
  unfold textBefore
  by_cases top : depth = 0
  · subst top
    cases front with
    | nil => simp [eq_comm]
    | cons => simp
  · simp [top]

theorem textBefore_maxNesting (depth : Nat) (front : List Tree) :
    textBefore maxNesting [] depth front = skippedText depth front := by
  unfold textBefore skippedText
  split
  · rename_i first
    rw [first.2, List.getLast?_nil, Option.elim_none, ite_self]
  · rfl

theorem TokenOf.cons {word : Token} (found : TokenOf ts depth front word) (t : Tree) :
    TokenOf (t :: ts) depth (if depth = 0 then t :: front else front) word := by
  cases found with
  | here front _ after => exact .here (t :: front) word after
  | inside member deeper => exact .inside (List.mem_cons_of_mem t member) deeper

def SpellsToken (levels : Nat) (unread : List Char) (ts : List Tree) (s : String) : Prop :=
  ∃ depth front word, TokenOf ts depth front word ∧ word.kind ≠ .blank ∧ word.kind ≠ .comment ∧
    s = String.ofList (textBefore levels unread depth front ++ word.text)

theorem SpellsToken.cons {s : String} {unread : List Char} (t : Tree)
    (spells : SpellsToken levels (if levels = 0 then t.innerText else []) ts s) :
    SpellsToken levels unread (t :: ts) s := by
  obtain ⟨depth, front, word, found, no_blank, no_comment, spelled⟩ := spells
  refine ⟨depth, _, word, found.cons t, no_blank, no_comment, ?_⟩
  rw [textBefore_cons, spelled]

theorem SpellsToken.inside {s : String} {unread : List Char} {opener : Token} {inside : List Tree}
    (closer : Option Token) (ts : List Tree) (spells : SpellsToken levels [] inside s) :
    SpellsToken (levels + 1) unread (block opener inside closer :: ts) s := by
  obtain ⟨depth, front, word, found, no_blank, no_comment, spelled⟩ := spells
  refine ⟨depth + 1, front, word, .inside List.mem_cons_self found, no_blank, no_comment, ?_⟩
  rw [spelled]
  unfold textBefore
  cases front <;> simp

theorem spellsToken (levels : Nat) (ts : List Tree) (unread : List Char) :
    ∀ s ∈ Component.tokensAll (Component.ofTrees levels unread ts),
      SpellsToken levels unread ts s := by
  induction levels, ts using Component.ofTrees_induction generalizing unread with
  | nil levels =>
    rw [Component.ofTrees_nil]
    exact fun s member => absurd member List.not_mem_nil
  | leaf levels word ts ih =>
    intro s member
    rw [Component.ofTrees_leaf, Component.tokensAll_append] at member
    rcases List.mem_append.mp member with here | later
    · obtain ⟨no_blank, no_comment, spelled⟩ := Component.mem_tokens_ofLeaf here
      exact ⟨0, [], word, .here [] word ts, no_blank, no_comment, spelled⟩
    · refine .cons (leaf word) ?_
      rw [innerText, ite_self]
      exact ih [] s later
  | skipped opener inside closer ts ih =>
    intro s member
    rw [Component.ofTrees_block_zero, Component.tokensAll, Component.tokens_ofBlock] at member
    exact .cons _ (ih _ s member)
  | entered levels opener inside closer ts inner ih =>
    intro s member
    rw [Component.ofTrees_block_succ, Component.tokensAll, Component.tokens_ofBlock] at member
    rcases List.mem_append.mp member with inside_ | later
    · exact .inside closer ts (inner [] s inside_)
    · exact .cons _ (ih [] s later)

/-! ### Nodes -/

theorem position_node {piece : Piece} {unread : List Char} {start : Position} {s : Statement}
    {n : Node} {read : List Tree → List Node} (found : piece.statement? unread start = some s)
    (node : s.node? read = some n) : n.position = start := by
  cases piece with
  | atRule name run stop => cases stop <;> cases found <;> cases node <;> rfl
  | declaration name value =>
    cases found
    cases node
    rfl
  | other run stop =>
    cases stop with
    | none => cases found
    | some stop =>
      rw [Piece.statement?] at found
      split at found
      all_goals
        cases found
        cases node
      rfl

/-- Where blocks of a depth are skipped, a statement starts behind what is left unread. -/
theorem leftAfter_position (depth : Nat) (front : List Tree) (p : Position) :
    (leftAfter (depth != maxNesting) none front).elim p Unread.position =
      (skippedBlock depth front).elim p (·.first.stop) := by
  unfold leftAfter skippedBlock unreadOf
  by_cases deepest : depth = maxNesting
  · rw [if_pos deepest, deepest, bne_self_eq_false]
    cases front with
    | nil => rfl
    | cons => cases (List.getLast? _).filter isBraceBlock <;> rfl
  · rw [if_neg deepest, bne_iff_ne.mpr deepest]
    cases front <;> simp

/-- A declaration has the name that its statement starts with and the value behind the colon. -/
theorem declaration_read {unread : List Char} {start : Position} {s : Statement}
    {read : List Tree → List Node} {d : Declaration} (no_separator : t.isSeparator = false)
    (found : (cut t after).1.statement? unread start = some s)
    (node : s.node? read = some (.declaration d)) :
    ∃ name word start value rest, t = leaf ⟨.ident name, word, start⟩ ∧
      d.property = String.ofList name ∧ Declares after value rest ∧
      Component.splitImportant (Component.ofTrees maxNesting [] value) = (d.value, d.important) := by
  have reads := reads_cut no_separator after
  have ways := cuts t after
  generalize cut t after = result at reads ways found
  cases ways with
  | atRule =>
    cases stopped : (halt endsRun after).2.1 <;> rw [stopped] at found <;> cases found <;> cases node
  | @declaration name token value rest =>
    cases found
    cases node
    cases reads with
    | @declaration _ word start _ _ _ declares =>
      exact ⟨name, word, start, value, rest, rfl, rfl, declares, rfl⟩
  | other =>
    unfold cutOther at found
    cases stopped : (halt endsRun (t :: after)).2.1 with
    | none =>
      rw [stopped] at found
      cases found
    | some stop =>
      rw [stopped, Piece.statement?] at found
      split at found <;> cases found <;> cases node

theorem eq_of_declaration? {n : Node} {d : Declaration} (found : n.declaration? = some d) :
    n = .declaration d := by
  cases n with
  | declaration => cases found; rfl
  | _ => cases found

/-- A declaration is read from a value behind a name and a colon, where a statement begins in a
block at some depth. -/
def Declaration.ReadFrom (text : List Char) (d : Declaration) (value : List Tree) : Prop :=
  ∃ depth contents front name word start after rest, Within (ofText text) depth contents ∧
    Begins contents front (leaf ⟨.ident name, word, start⟩) after ∧
    d.property = String.ofList name ∧
    d.position = (skippedBlock depth front).elim start (·.first.stop) ∧ Declares after value rest ∧
    Component.splitImportant (Component.ofTrees maxNesting [] value) = (d.value, d.important)

theorem Declaration.ReadFrom.split {d : Declaration} (source : d.ReadFrom text value) :
    Component.splitImportant (Component.ofTrees maxNesting [] value) = (d.value, d.important) := by
  obtain ⟨_, _, _, _, _, _, _, _, _, _, _, _, _, split⟩ := source
  exact split

theorem declaration_source {d : Declaration} (member : d ∈ declarations (parse text)) :
    ∃ value, d.ReadFrom text value := by
  obtain ⟨n, inside, found⟩ := List.mem_filterMap.mp member
  have read : ∀ n ∈ Node.walk (parse text), ∀ d, n = .declaration d →
      ∃ value, d.ReadFrom text value := by
    refine forall_mem_nodes ?_ (Nat.zero_add maxNesting) (.here (ofText text))
    rintro depth contents s n _ within statement node d rfl
    obtain ⟨front, t, after, begins, found⟩ := statements_begin statement
    obtain ⟨name, word, start, value, rest, rfl, property, declares, split⟩ :=
      declaration_read begins.no_separator found node
    have position := position_node found node
    rw [leftAfter_position] at position
    exact ⟨value, depth, contents, front, name, word, start, after, rest, within, begins, property,
      position, declares, split⟩
  exact read n inside d (eq_of_declaration? found)

theorem writtenIn_declaration {unread : List Char} {start : Position} {s : Statement}
    {read : List Tree → List Node} {d : Declaration} (no_separator : t.isSeparator = false)
    (found : (cut t after).1.statement? unread start = some s)
    (node : s.node? read = some (.declaration d))
    (source : toTokensAll after ⊆ toTokensAll (ofText text)) : d.WrittenIn text t after := by
  obtain ⟨name, word, start, value, rest, first, property, declares, split⟩ :=
    declaration_read no_separator found node
  refine ⟨name, word, start, value, rest, first, property, declares, ?_⟩
  intro s member
  have kept : (Component.splitImportant (Component.ofTrees maxNesting [] value)).1 = d.value :=
    congrArg Prod.fst split
  rw [← kept] at member
  obtain ⟨depth, front, written, found, no_blank, no_comment, spelled⟩ :=
    spellsToken maxNesting value [] s (Component.tokensAll_splitImportant_subset _ member)
  refine ⟨depth, front, written, found, ?_, no_blank, no_comment, ?_⟩
  · exact writtenIn_of_mem (source (toTokensAll_subset declares.value_subset found.mem))
  · rw [spelled, textBefore_maxNesting]

/-- A node stands where its statement starts in a text: at the position of the first token, or just
after the opening bracket of a block that was skipped directly before that token. -/
def Node.Placed (text : List Char) (n : Node) : Prop :=
  ∃ depth contents front t after, Within (ofText text) depth contents ∧
    Begins contents front t after ∧ Quotes (leftAfter (depth != maxNesting) none front) t after n ∧
    t.first.WrittenIn text ∧
    n.position = (skippedBlock depth front).elim t.first.start (·.first.stop) ∧
    ∀ d, n = .declaration d → d.WrittenIn text t after

/-- Each node of a text, at any depth, has the position at which the first token of its statement is
written, and a declaration has the name and the tokens that are written there. Directly behind a
block that is too deep both start in that block: the position is the one just after its opening
bracket, and a token comes with the inside of the block. -/
theorem parse_placed (text : List Char) : ∀ n ∈ Node.walk (parse text), n.Placed text := by
  refine forall_mem_nodes ?_ (Nat.zero_add maxNesting) (.here _)
  intro depth contents s n read within member node
  obtain ⟨front, t, after, begins, found⟩ := statements_begin member
  have source := within.toTokensAll_subset
  refine ⟨depth, contents, front, t, after, within, begins,
    quotes_cut begins.no_separator found node, writtenIn_of_mem (source begins.first_mem), ?_, ?_⟩
  · rw [position_node found node, leftAfter_position]
  · rintro d rfl
    refine writtenIn_declaration begins.no_separator found node (List.Subset.trans ?_ source)
    rw [begins.split, toTokensAll_append, toTokensAll]
    exact List.subset_append_of_subset_right _ (List.subset_append_right _ _)

theorem parse_placed_notText :
    ∃ n ∈ Node.walk (parse notText), n.position = ⟨1, 22⟩ ∧ n.Placed notText := by
  have found : (Node.walk (parse notText)).any (·.position == ⟨1, 22⟩) = true := by decide +kernel
  obtain ⟨n, member, position⟩ := List.any_eq_true.mp found
  exact ⟨n, member, eq_of_beq position, parse_placed notText n member⟩

/-- As many rules inside one another as are entered, and in the last of them an empty rule with a
declaration directly behind it. -/
def deepRules : List Char :=
  (List.replicate maxNesting "a\x7b".toList).flatten ++ "x\x7b\x7db:c".toList ++
    List.replicate maxNesting '\x7d'

/-- The position of the declaration is that of the brace before its name. -/
theorem placed_too_early :
    (declarations (parse deepRules)).map (fun d => (d.property, d.position)) = [("b", ⟨1, 259⟩)] ∧
      (tokens {} deepRules).filter (·.text = ['b']) = [⟨.ident ['b'], ['b'], ⟨1, 260⟩⟩] := by
  decide +kernel

end PageLint.Stylesheet
