import PageLint.Proofs.Stylesheet.Nesting
import PageLint.Proofs.Stylesheet.Recovery

/-!
# What the nesting limit skips

A block that is not entered may hold anything: the nodes are those that there are if it is empty
(`nodes_seen`). Only texts and places tell the difference. `parse_nesting` puts together what the
limit does and what it leaves as it is.
-/

namespace PageLint.Stylesheet

open Stylesheet.Tree
open Node (heightAll)

variable {levels : Nat} {enters : Bool} {unread : Option Unread} {opener closer : Token}
  {closer? : Option Token} {ts us : List Token} {trees : List Tree}
  {inside : List Tree → List Tree}

/-! ### Places -/

/-- Where trees stand shows in the places and raw texts of their nodes only. -/
theorem nodes_moved (f : Position → Position) (levels : Nat) (ts : List Tree) :
    (nodes levels (ts.map (move f))).map Node.bare = (nodes levels ts).map Node.bare := by
  have altered (enters : Bool) (ts : List Tree) :=
    statements_mapped (alike_move f) (braceBody?_move f) (name?_move f) enters enters none none ts
  induction levels generalizing ts with
  | zero =>
    refine filterMap_altered (altered false ts) (fun _ _ _ _ => rfl) ?_
    exact fun _ _ value _ => ofTrees_move f maxNesting [] value
  | succ levels ih =>
    refine filterMap_altered (altered true ts) (fun _ _ body _ => ih body) ?_
    exact fun _ _ value _ => ofTrees_move f maxNesting [] value

def Token.unplaced (t : Token) : Token :=
  t.move fun _ => {}

theorem nodes_unplaced (levels : Nat) (same : ts.map Token.unplaced = us.map Token.unplaced) :
    (nodes levels (ofTokens ts)).map Node.bare = (nodes levels (ofTokens us)).map Node.bare := by
  have keeps : Keeps (some ∘ Token.unplaced) := fun t => .inr ⟨_, rfl, .inl rfl⟩
  have moved (ts : List Token) :
      (ofTokens ts).map (move fun _ => {}) = ofTokens (ts.map Token.unplaced) := by
    rw [← changeAll_move, ← List.filterMap_eq_map, ofTokens_change keeps]
    rfl
  rw [← nodes_moved (fun _ => {}), moved, same, ← moved, nodes_moved]

theorem tokens_unplaced (p q : Position) (text : List Char) :
    (tokens p text).map Token.unplaced = (tokens q text).map Token.unplaced := by
  have start (p : Position) :
      (tokens p text).map Token.unplaced = (tokens {} text).map Token.unplaced := by
    have moved := tokens_after p counted_start text
    rw [after_start] at moved
    rw [moved, List.map_map]
    rfl
  rw [start p, start q]

/-- The last tokens of a text are read again from their own text. -/
theorem tokens_back {p : Position} {text : List Char} {front back : List Token} (q : Position)
    (split : tokens p text = front ++ back) :
    (tokens q (back.flatMap Token.text)).map Token.unplaced = back.map Token.unplaced := by
  induction front generalizing p text with
  | nil =>
    rw [List.nil_append] at split
    rw [← split, tokens_text, tokens_unplaced]
  | cons t front ih =>
    cases text with
    | nil =>
      rw [tokens] at split
      cases split
    | cons c text =>
      rw [tokens_cons] at split
      exact ih (List.cons.inj split).2

/-! ### Blocks that are not entered -/

namespace Tree

/-- A tree in which `inside` stands for what a block in braces holds. Its end is left out. -/
def shell (inside : List Tree → List Tree) (t : Tree) : Tree :=
  match t.braceBody? with
  | some body => block t.first (inside body) none
  | none => t

/-- What is seen of trees where `levels` more blocks may be entered. -/
def seen : (levels : Nat) → List Tree → List Tree
  | 0, ts => ts.map (shell fun _ => [])
  | levels + 1, ts => ts.map (shell (seen levels))

theorem shell_brace (brace : opener.kind = .opens .brace) (body : List Tree) :
    shell inside (block opener body closer?) = block opener (inside body) none := by
  rw [shell, braceBody?_of_brace brace]
  rfl

theorem shell_plain {t : Tree} (plain : t.isBraceBlock = false) : shell inside t = t := by
  cases t with
  | leaf => rfl
  | block opener body closer? =>
    rw [shell, braceBody?, plain]
    rfl

theorem alike_shell (inside : List Tree → List Tree) (t : Tree) : Alike t (shell inside t) := by
  cases t with
  | leaf => exact .leaf (.inl rfl)
  | block opener body closer? =>
    cases brace : (block opener body closer?).isBraceBlock with
    | true =>
      rw [shell_brace (eq_of_beq brace)]
      exact .block (.inl rfl)
    | false =>
      rw [shell_plain brace]
      exact .block (.inl rfl)

theorem braceBody?_shell (inside : List Tree → List Tree) (t : Tree) :
    (shell inside t).braceBody? = t.braceBody?.map inside := by
  cases brace : t.isBraceBlock with
  | false =>
    have no_body : t.braceBody? = none := by
      cases t with
      | leaf => rfl
      | block => exact if_neg (Bool.eq_false_iff.mp brace)
    rw [shell_plain brace, no_body, Option.map_none]
  | true =>
    cases t with
    | leaf => cases brace
    | block opener body closer? =>
      have kind : opener.kind = .opens .brace := eq_of_beq brace
      rw [shell_brace kind, braceBody?_of_brace kind, braceBody?_of_brace kind, Option.map_some]

theorem name?_shell (inside : List Tree → List Tree) (t : Tree) :
    (shell inside t).name? = t.name? := by
  cases t with
  | leaf => rfl
  | block opener body closer? =>
    cases brace : (block opener body closer?).isBraceBlock with
    | true => rw [shell_brace (eq_of_beq brace)]; rfl
    | false => rw [shell_plain brace]

end Tree

theorem value?_plain {ts value rest : List Tree} (found : value? ts = some (value, rest)) :
    ∀ t ∈ value, t.isBraceBlock = false := by
  unfold value? at found
  split at found
  · split at found
    · cases found
      exact fun t member => isBraceBlock_of_value (halt_unended _ _ t member)
    · cases found
  · cases found

theorem Piece.of_declaration {piece : Piece} {name text : List Char} {start start' : Position}
    {value : List Tree}
    (made : piece.statement? text start = some (.declaration name start' value)) :
    piece = .declaration name value := by
  cases piece with
  | atRule _ _ stop => cases stop <;> cases made
  | declaration =>
    cases made
    rfl
  | other _ stop =>
    cases stop with
    | none => cases made
    | some stop =>
      rw [statement?] at made
      cases has_body : stop.braceBody? with
      | none => rw [has_body] at made; cases made
      | some body => rw [has_body] at made; cases made

theorem cut_plain {t : Tree} {ts value : List Tree} {name : List Char}
    (declares : (cut t ts).1 = .declaration name value) : ∀ t ∈ value, t.isBraceBlock = false := by
  have ways := cuts t ts
  generalize cut t ts = result at ways declares
  cases ways with
  | atRule => cases declares
  | declaration _ found =>
    cases declares
    exact value?_plain found
  | other => cases declares

/-- A declaration's value has no block in braces outside of its brackets. -/
theorem declaration_plain {ts value : List Tree} {name : List Char} {start : Position}
    (member : Statement.declaration name start value ∈ statements enters unread ts) :
    ∀ t ∈ value, t.isBraceBlock = false := by
  induction ts using statements_induction generalizing unread with
  | finished ts finished =>
    rw [statements_nil finished] at member
    cases member
  | statement ts t rest starts ih =>
    rw [statements_cut starts] at member
    rcases List.mem_append.mp member with here | later
    · exact cut_plain (Piece.of_declaration (Option.mem_toList.mp here))
    · exact ih later

/-- What blocks hold that are not entered shows in texts and places only. -/
theorem nodes_seen (levels : Nat) (ts : List Tree) :
    (nodes levels (seen levels ts)).map Node.bare = (nodes levels ts).map Node.bare := by
  have altered (inside : List Tree → List Tree) (enters : Bool) (ts : List Tree) :=
    statements_mapped (alike_shell inside) (braceBody?_shell inside) (name?_shell inside)
      enters enters none none ts
  have values {inside : List Tree → List Tree} {enters : Bool} {ts : List Tree} (name start value)
      (member : Statement.declaration name start value ∈ statements enters none ts) :
      Component.ofTrees maxNesting [] (value.map (shell inside)) =
        Component.ofTrees maxNesting [] value := by
    rw [List.map_congr_left fun t inner => shell_plain (declaration_plain member t inner),
      List.map_id']
  induction levels generalizing ts with
  | zero => exact filterMap_altered (altered _ false ts) (fun _ _ _ _ => rfl) values
  | succ levels ih => exact filterMap_altered (altered _ true ts) (fun _ _ body _ => ih body) values

/-! ### Blocks that are open -/

theorem Units.left_open {closing : Option Bracket} {unclosed : List OpenBlock}
    (units : Units closing ts trees []) (inner : innermost unclosed = closing) (done : List Tree) :
    ∃ added before, (∀ more, group unclosed done (ts ++ more) =
        group (added ++ unclosed) before more) ∧
      added.map (fun b => b.opener.kind.opened?) = (unclosedAll trees).map some := by
  generalize ended : [] = stop at units
  induction units generalizing unclosed done with
  | done => exact ⟨[], done, fun _ => rfl, rfl⟩
  | closed => cases ended
  | single no_block inside _ ih =>
    obtain ⟨added, before, reads, brackets⟩ := ih inner _ ended
    refine ⟨added, before, fun more => ?_, brackets⟩
    rw [List.cons_append, group_single no_block,
      settle_inside fun b top => inside b (inner.symm.trans top)]
    exact reads more
  | @block _ opener b _ inside closer after _ _ opens contents _ _ ih =>
    obtain ⟨added, before, reads, brackets⟩ :=
      ih inner (Tree.block opener inside (some closer) :: done) ended
    refine ⟨added, before, fun more => ?_, brackets⟩
    have whole := contents.append (List.cons_ne_nil closer after) more
    have entered := group_units whole (innermost_cons opens done unclosed) []
    rw [List.cons_append, group_opener opens, entered, List.cons_append,
      group_closer opens contents.closed_by, List.append_nil, List.reverse_reverse]
    exact reads more
  | @unclosed _ opener b _ inside opens _ ih =>
    obtain ⟨added, before, reads, brackets⟩ := ih (innermost_cons opens done unclosed) [] rfl
    refine ⟨added ++ [⟨opener, done⟩], before, fun more => ?_, ?_⟩
    · rw [List.cons_append, group_opener opens, reads more, List.append_assoc]
      rfl
    · rw [List.map_append, brackets, unclosedAll, Tree.unclosed, opens, unclosedAll,
        List.append_nil, List.map_append]
      simp [opens]

/-- Trees up to the closing brace that ends the block which they are in. -/
theorem Units.in_brace (units : Units none ts trees []) :
    Units (some .brace) ts (trees.takeWhile (!isStrayBrace ·))
      (toTokensAll (trees.dropWhile (!isStrayBrace ·))) := by
  generalize outside : none = closing at units
  generalize ended : [] = stop at units
  induction units with
  | done => exact .done
  | closed => cases outside
  | @single _ t ts trees _ no_block _ others ih =>
    cases outside
    cases ended
    cases stray : (leaf t).isStrayBrace with
    | true =>
      have closes : t.kind = .closes .brace := eq_of_beq stray
      have kept : toTokensAll trees = ts := by
        rw [ofTokens_iff.mp others, toTokensAll_ofTokens]
      rw [List.takeWhile_cons_of_neg (by simp [stray]),
        List.dropWhile_cons_of_neg (by simp [stray]), toTokensAll, kept]
      exact .closed closes
    | false =>
      rw [List.takeWhile_cons_of_pos (by simp [stray]),
        List.dropWhile_cons_of_pos (by simp [stray])]
      refine .single no_block ?_ (ih rfl rfl)
      rintro _ ⟨⟩
      exact ne_of_beq_false stray
  | block opens contents _ _ ih => exact .block opens contents (ih outside ended)
  | unclosed opens contents _ => exact .unclosed opens contents

theorem seen_append (levels : Nat) (a b : List Tree) :
    seen levels (a ++ b) = seen levels a ++ seen levels b := by
  cases levels <;> exact List.map_append

theorem seen_reverse (levels : Nat) (trees : List Tree) :
    seen levels trees.reverse = (seen levels trees).reverse := by
  cases levels <;> exact List.map_reverse

theorem seen_brace_zero (brace : opener.kind = .opens .brace) (body : List Tree) :
    seen 0 (block opener body closer? :: trees) = block opener [] none :: seen 0 trees := by
  rw [seen, List.map_cons, shell_brace brace]
  rfl

theorem seen_brace_succ (brace : opener.kind = .opens .brace) (body : List Tree) :
    seen (levels + 1) (block opener body closer? :: trees) =
      block opener (seen levels body) none :: seen (levels + 1) trees := by
  rw [seen, List.map_cons, shell_brace brace]
  rfl

/-- What looked alike in the innermost of some open blocks in braces looks alike in the end. -/
theorem group_seen {unclosed : List OpenBlock} {done done' : List Tree}
    (braces : ∀ b ∈ unclosed, b.opener.kind = .opens .brace)
    (same : seen levels done = seen levels done') (ts : List Token) :
    seen (levels + unclosed.length) (group unclosed done ts) =
      seen (levels + unclosed.length) (group unclosed done' ts) := by
  induction unclosed generalizing levels done done' ts with
  | nil =>
    have grouped (done : List Tree) : group [] done ts = done.reverse ++ ofTokens ts := by
      rw [group_units (units_ofTokens ts) rfl, group, closeAll, List.reverse_append, List.reverse_reverse]
    rw [grouped, grouped, seen_append, seen_append, seen_reverse, seen_reverse, List.length_nil,
      Nat.add_zero, same]
  | cons b unclosed ih =>
    obtain ⟨opener, before⟩ := b
    obtain ⟨brace, outer⟩ := List.forall_mem_cons.mp braces
    have opens : opener.kind.opened? = some .brace := by rw [brace]; rfl
    have inner := innermost_cons opens before unclosed
    obtain ⟨inside, rest, units, _⟩ := units_exist ts.length (some .brace) ts (Nat.le_refl _)
    -- The block ends at the same token in both, and then it is the one that looks alike.
    have ended (closer? : Option Token) :
        seen (levels + 1) (block opener (inside.reverse ++ done).reverse closer? :: before) =
          seen (levels + 1) (block opener (inside.reverse ++ done').reverse closer? :: before) := by
      rw [seen_brace_succ brace, seen_brace_succ brace, seen_reverse, seen_reverse, seen_append,
        seen_append, same]
    rw [group_units units inner, group_units units inner, List.length_cons, Nat.add_comm _ 1,
      ← Nat.add_assoc]
    rcases units.stop with rfl | ⟨_, closer, after, same, rfl, closes⟩
    · exact ih outer (ended none) []
    · cases same
      rw [group_closer opens closes, group_closer opens closes]
      exact ih outer (ended (some closer)) after

theorem opens_of_brace {kind : TokenKind} (opens : kind.opened? = some .brace) :
    kind = .opens .brace := by
  cases kind with
  | opens => cases opens; rfl
  | function => cases opens
  | _ => cases opens

/-- A block inside as many blocks in braces as may be entered looks as if it ended at once. -/
theorem ofTokens_emptied {front : List Token}
    (deep : unclosedAll (ofTokens front) = List.replicate levels .brace)
    (brace : opener.kind = .opens .brace) (ts : List Token) :
    seen levels (ofTokens (front ++ opener :: ts)) =
      seen levels (ofTokens (front ++ opener ::
        toTokensAll ((ofTokens ts).dropWhile (!isStrayBrace ·)))) := by
  have outermost : innermost [] = none := rfl
  obtain ⟨unclosed, done, reads, brackets⟩ := (units_ofTokens front).left_open outermost []
  rw [deep, List.map_replicate, List.eq_replicate_iff, List.length_map] at brackets
  obtain ⟨length, brackets⟩ := brackets
  have braces : ∀ b ∈ unclosed, b.opener.kind = .opens .brace := by
    intro b member
    exact opens_of_brace (brackets _ (List.mem_map_of_mem member))
  have opens : opener.kind.opened? = some .brace := by rw [brace]; rfl
  have contents := (units_ofTokens ts).in_brace
  have grouped := group_units contents (innermost_cons opens done unclosed) []
  rw [ofTokens, ofTokens, reads, reads, List.append_nil, group_opener opens, group_opener opens,
    grouped, List.append_nil, ← length, ← Nat.zero_add unclosed.length]
  generalize toTokensAll _ = rest at contents
  have empty (inside : List Tree) (closer? : Option Token) :
      seen 0 (block opener inside closer? :: done) = seen 0 (block opener [] closer? :: done) := by
    rw [seen_brace_zero brace, seen_brace_zero brace]
  rcases contents.stop with rfl | ⟨_, closer, after, same, rfl, closes⟩
  · exact group_seen braces (empty _ none) []
  · cases same
    rw [group_closer opens closes, group_closer opens closes]
    exact group_seen braces (empty _ (some closer)) after

/-! ### Texts -/

/-- What is left of a text from the brace that closes the block which the text starts in. -/
def fromBlockEnd (text : List Char) : List Char :=
  textAll ((ofText text).dropWhile (!isStrayBrace ·))

theorem tokens_opening {a : List Char} (whole : EndsBetweenTokens a) :
    ∃ p q, ∀ rest, tokens {} (a ++ '\x7b' :: rest) =
      tokens {} a ++ ⟨.opens .brace, ['\x7b'], p⟩ :: tokens q rest :=
  tokens_at_mark (by decide) (fun _ => rfl) whole

theorem tokens_closing {a : List Char} (whole : EndsBetweenTokens a) :
    ∃ p q, ∀ rest, tokens {} (a ++ '\x7d' :: rest) =
      tokens {} a ++ ⟨.closes .brace, ['\x7d'], p⟩ :: tokens q rest :=
  tokens_at_mark (by decide) (fun _ => rfl) whole

theorem fromBlockEnd_closed {inside : List Char} (whole : EndsBetweenTokens inside)
    (closed : unclosedAll (ofText inside) = [])
    (inner : ∀ t ∈ ofText inside, t.isStrayBrace = false) (after : List Char) :
    fromBlockEnd (inside ++ '\x7d' :: after) = '\x7d' :: after := by
  obtain ⟨p, q, read⟩ := tokens_closing whole
  have trees : ofText (inside ++ '\x7d' :: after) =
      ofText inside ++ leaf ⟨.closes .brace, ['\x7d'], p⟩ :: ofTokens (tokens q after) := by
    rw [ofText, read, ofTokens_append closed, ofTokens_single rfl]
    rfl
  have passes : ∀ t ∈ ofText inside, (!t.isStrayBrace) = true := by
    intro t member
    rw [inner t member]
    rfl
  rw [fromBlockEnd, trees, List.dropWhile_append_of_pos passes,
    List.dropWhile_cons_of_neg Bool.false_ne_true, textAll, toTokensAll, toTokens,
    toTokensAll_ofTokens, List.flatMap_append, tokens_text]
  rfl

/-- A block inside as many rules and at-rules as may be entered is skipped to its end. -/
theorem parse_emptied {a : List Char} (whole : EndsBetweenTokens a)
    (deep : unclosedAll (ofText a) = List.replicate maxNesting .brace) (text : List Char) :
    (parse (a ++ '\x7b' :: text)).map Node.bare =
      (parse (a ++ '\x7b' :: fromBlockEnd text)).map Node.bare := by
  obtain ⟨p, q, read⟩ := tokens_opening whole
  have parsed (rest : List Char) : parse (a ++ '\x7b' :: rest) = nodes maxNesting
      (ofTokens (tokens {} a ++ ⟨.opens .brace, ['\x7b'], p⟩ :: tokens q rest)) := by
    rw [parse, ofText, read]
  have placed (ts us : List Token) (same : ts.map Token.unplaced = us.map Token.unplaced) :
      (tokens {} a ++ ⟨.opens .brace, ['\x7b'], p⟩ :: ts).map Token.unplaced =
        (tokens {} a ++ ⟨.opens .brace, ['\x7b'], p⟩ :: us).map Token.unplaced := by
    rw [List.map_append, List.map_cons, same, List.map_append, List.map_cons]
  have split : tokens {} text = toTokensAll ((ofText text).takeWhile (!isStrayBrace ·)) ++
      toTokensAll ((ofText text).dropWhile (!isStrayBrace ·)) := by
    rw [← toTokensAll_append, List.takeWhile_append_dropWhile, ofText, toTokensAll_ofTokens]
  calc (parse (a ++ '\x7b' :: text)).map Node.bare
    _ = (nodes maxNesting (ofTokens (tokens {} a ++
          ⟨.opens .brace, ['\x7b'], p⟩ :: tokens {} text))).map Node.bare := by
        rw [parsed]
        exact nodes_unplaced maxNesting (placed _ _ (tokens_unplaced q {} text))
    _ = (nodes maxNesting (ofTokens (tokens {} a ++ ⟨.opens .brace, ['\x7b'], p⟩ ::
          toTokensAll ((ofText text).dropWhile (!isStrayBrace ·))))).map Node.bare := by
        rw [← nodes_seen, ofTokens_emptied deep rfl, nodes_seen]
        rfl
    _ = (parse (a ++ '\x7b' :: fromBlockEnd text)).map Node.bare := by
        rw [parsed]
        exact nodes_unplaced maxNesting (placed _ _ (tokens_back q split).symm)

/-- No node has more than `maxNesting` others above it, and no part of a value stands in more than
as many functions and blocks; what stands in as many has nothing inside. If no block is too deep,
the nodes are those that there are without a limit. And whatever a block holds that is too deep,
they are those that there are if it is written empty, but for places and the raw texts of selectors
and preludes. -/
theorem parse_nesting (text : List Char) :
    (∀ k n, Under Node.children (parse text) k n →
      k ≤ maxNesting ∧ (k = maxNesting → n.children = [])) ∧
    (∀ d ∈ declarations (parse text), ∀ k c, Under Component.contents d.value k c →
      k ≤ maxNesting ∧ (k = maxNesting → c.contents = [])) ∧
    (heightAll (parseWhole text) ≤ maxNesting → Shallow (parseWhole text) →
      parse text = parseWhole text) ∧
    ∀ a inside, text = a ++ '\x7b' :: inside → EndsBetweenTokens a →
      unclosedAll (ofText a) = List.replicate maxNesting .brace →
      (parse text).map Node.bare = (parse (a ++ '\x7b' :: fromBlockEnd inside)).map Node.bare := by
  refine ⟨?_, ?_, ?_, ?_⟩
  · intro k n under
    exact nodes_under under
  · intro d member k c under
    exact value_under member under
  · intro shallow values
    exact nodes_whole shallow values
  · rintro a inside rfl whole deep
    exact parse_emptied whole deep inside

def nested : List Char := (List.replicate maxNesting "a\x7b".toList).flatten ++ "@b ".toList

def deepest : List Char := "c:d;e\x7bf\x7d".toList

def hoverDeclaration : Declaration := ⟨"b", [.token "c"], false, ⟨1, 9⟩⟩

theorem parseWhole_hover : parseWhole hoverText = hoverNodes := by
  have trees : hoverTrees = ofText hoverText := ofTokens_iff.mp units_hover
  have rule : [.rule "a:hover".toList ⟨1, 1⟩ hoverBody] = statements true none hoverTrees :=
    statements_iff.mp (onePass_iff.mpr rfl)
  have declaration : [.declaration ['b'] ⟨1, 9⟩ hoverBody.tail.tail] =
      statements true none hoverBody := statements_iff.mp (onePass_iff.mpr rfl)
  rw [parseWhole, ← trees, wholeNodes_eq, ← rule, List.filterMap_cons, Statement.wholeNode?,
    wholeNodes_eq, ← declaration]
  rfl

theorem parse_nesting_nested :
    (EndsBetweenTokens nested ∧ unclosedAll (ofText nested) = List.replicate maxNesting .brace ∧
      (parse (nested ++ '\x7b' :: (deepest ++ '\x7d' :: "g:h".toList))).map Node.bare =
        (parse (nested ++ '\x7b' :: '\x7d' :: "g:h".toList)).map Node.bare) ∧
    (heightAll (parseWhole hoverText) ≤ maxNesting ∧ Shallow (parseWhole hoverText) ∧
      parse hoverText = parseWhole hoverText) ∧
    Under Node.children (parse hoverText) 1 (.declaration hoverDeclaration) ∧ 1 ≤ maxNesting ∧
      hoverDeclaration ∈ declarations (parse hoverText) ∧
      Under Component.contents hoverDeclaration.value 0 (.token "c") ∧ 0 ≤ maxNesting := by
  have whole : EndsBetweenTokens nested := by decide +kernel
  have deep : unclosedAll (ofText nested) = List.replicate maxNesting .brace := by decide +kernel
  have skips : fromBlockEnd (deepest ++ '\x7d' :: "g:h".toList) = '\x7d' :: "g:h".toList :=
    fromBlockEnd_closed (by decide +kernel) (by decide +kernel) (by decide +kernel) "g:h".toList
  have shallow : heightAll (parseWhole hoverText) ≤ maxNesting := by
    rw [parseWhole_hover]
    simp [hoverNodes, heightAll, Node.height, maxNesting]
  have values : Shallow (parseWhole hoverText) := by
    rw [parseWhole_hover]
    decide +kernel
  obtain ⟨bound, inner, same, _⟩ := parse_nesting hoverText
  obtain ⟨_, _, _, skipped⟩ :=
    parse_nesting (nested ++ '\x7b' :: (deepest ++ '\x7d' :: "g:h".toList))
  refine ⟨⟨whole, deep, ?_⟩, ⟨shallow, values, same shallow values⟩, ?_⟩
  · have emptied := skipped nested _ rfl whole deep
    rwa [skips] at emptied
  · have found : hoverDeclaration ∈ declarations (parse hoverText) := by
      rw [same shallow values, parseWhole_hover]
      simp [declarations, hoverNodes, Node.walk, Node.children, Node.declaration?, hoverDeclaration]
    have below : Under Node.children (parse hoverText) 1 (.declaration hoverDeclaration) := by
      rw [same shallow values, parseWhole_hover]
      exact .deeper List.mem_cons_self (.top List.mem_cons_self)
    have part : Under Component.contents hoverDeclaration.value 0 (.token "c") :=
      .top List.mem_cons_self
    exact ⟨below, (bound 1 _ below).1, found, part, (inner _ found 0 _ part).1⟩

end PageLint.Stylesheet
