import PageLint.Proofs.Stylesheet.Move
import PageLint.Proofs.Stylesheet.Unclosed

/-!
# Recovery at a semicolon

However malformed a text is, a `;` outside of all blocks ends what it started. `parse_semicolon`
says that the nodes of what follows are those that it has by itself.
-/

namespace PageLint.Stylesheet

open Stylesheet.Tree

variable {a b : List Char} {p : Position} {semicolon : Token} {front back : List Tree}

/-! ### Statements -/

namespace Reading

/-- Whatever is being read, a `;` ends it. -/
theorem step_semicolon (is_semicolon : semicolon.kind = .semicolon) (r : Reading) :
    (r.step (leaf semicolon)).2 = between := by
  obtain ⟨kind, text, start⟩ := semicolon
  cases is_semicolon
  cases r <;> rfl

end Reading

open Reading

theorem onePass_semicolon (is_semicolon : semicolon.kind = .semicolon) (r : Reading)
    (front back : List Tree) :
    onePass r (front ++ leaf semicolon :: back) =
      onePass r (front ++ [leaf semicolon]) ++ onePass between back := by
  induction front generalizing r with
  | nil =>
    rw [List.nil_append, List.nil_append, onePass, onePass, step_semicolon is_semicolon,
      List.append_assoc]
    rfl
  | cons t front ih =>
    rw [List.cons_append, List.cons_append, onePass, ih, onePass, List.append_assoc]

theorem statements_semicolon (is_semicolon : semicolon.kind = .semicolon) (front back : List Tree) :
    statements true none (front ++ leaf semicolon :: back) =
      statements true none (front ++ [leaf semicolon]) ++ statements true none back := by
  have one_pass (ts : List Tree) : statements true none ts = onePass between ts :=
    onePass_iff.mp (statements_iff.mpr rfl)
  rw [one_pass, one_pass, one_pass, onePass_semicolon is_semicolon]

theorem nodes_semicolon {levels : Nat} (enters : levels ≠ 0)
    (is_semicolon : semicolon.kind = .semicolon)
    (front back : List Tree) :
    nodes levels (front ++ leaf semicolon :: back) =
      nodes levels (front ++ [leaf semicolon]) ++ nodes levels back := by
  obtain ⟨levels, rfl⟩ := Nat.exists_eq_succ_of_ne_zero enters
  rw [nodes, statements_semicolon is_semicolon, List.filterMap_append]
  rfl

/-! ### Texts -/

theorem advance_semicolon (p : Position) (a : List Char) :
    p.advance (a ++ [';']) = (p.advance a).advance [';'] := by
  refine advance_append p ?_
  intro m length _ feed
  rw [← length, List.getElem?_concat_length] at feed
  cases feed

theorem tokens_semicolon (p : Position) (b : List Char) :
    tokens p (';' :: b) = ⟨.semicolon, [';'], p⟩ :: tokens (p.advance [';']) b := by
  rw [tokens_cons]
  rfl

theorem ofTokens_single {t : Token} (no_block : t.kind.opened? = none) (ts : List Token) :
    ofTokens (t :: ts) = leaf t :: ofTokens ts := by
  refine (ofTokens_iff.mp (.single no_block ?_ (units_ofTokens ts))).symm
  intro b outside
  cases outside

theorem after_start (origin : Position) : origin.after {} = origin := by
  simp [Position.after]

/-- The trees of a text that starts at `origin`. -/
theorem ofTokens_after (origin : Position) (b : List Char) :
    ofTokens (tokens origin b) = (ofText b).map (move origin.after) := by
  have keeps : Keeps (some ∘ Token.move origin.after) := fun t => .inr ⟨_, rfl, .inl rfl⟩
  have moved := tokens_after origin counted_start b
  rw [after_start] at moved
  rw [moved, ← List.filterMap_eq_map, ofTokens_change keeps, changeAll_move, ofText]

theorem ofText_semicolon (whole : EndsBetweenTokens a) (closed : unclosedAll (ofText a) = [])
    (b : List Char) :
    ofText (a ++ ';' :: b) =
      ofText a ++ leaf ⟨.semicolon, [';'], Position.advance {} a⟩ ::
        (ofText b).map (move (Position.advance {} (a ++ [';'])).after) := by
  rw [ofText, tokens_marked .semicolon {} whole, ofTokens_append closed, tokens_semicolon,
    ofTokens_single rfl, advance_semicolon, ofTokens_after ((Position.advance {} a).advance [';'])]
  rfl

/-- The nodes of a text with a `;` outside of all blocks, strings, comments, URLs and escapes: those
up to the `;`, and those of the rest by itself with only their positions counted from where it
starts. -/
theorem parse_semicolon (whole : EndsBetweenTokens a) (closed : unclosedAll (ofText a) = [])
    (b : List Char) :
    parse (a ++ ';' :: b) =
      parse (a ++ [';']) ++
        (parse b).map (Node.relabel id (Position.advance {} (a ++ [';'])).after) := by
  have counted : Position.Counted {} := ⟨Nat.le_refl 1, Nat.le_refl 1⟩
  have follows := tokens_follow (Position.advance {} (a ++ [';'])) counted b
  have kept : toTokensAll (ofText b) = tokens {} b := toTokensAll_ofTokens _
  rw [← kept] at follows
  have alone := ofText_semicolon whole closed []
  have empty : ofText [] = [] := by rw [ofText, tokens]; rfl
  rw [empty, List.map_nil] at alone
  have enters : maxNesting ≠ 0 := by decide
  rw [parse, parse, parse, ofText_semicolon whole closed, alone, nodes_semicolon enters rfl,
    nodes_move follows]

def garbage : List Char := "a:b \x7d ) ! @c url(d) \"e\" /*;*/\n]f".toList

theorem parse_semicolon_garbage :
    EndsBetweenTokens garbage ∧ unclosedAll (ofText garbage) = [] ∧
      Position.advance {} (garbage ++ [';']) = ⟨2, 4⟩ ∧
      parse (garbage ++ ';' :: "a\x7bb:c\x7d".toList) =
        parse (garbage ++ [';']) ++
          (parse "a\x7bb:c\x7d".toList).map (Node.relabel id (Position.after ⟨2, 4⟩)) := by
  have whole : EndsBetweenTokens garbage := by decide +kernel
  have closed : unclosedAll (ofText garbage) = [] := by decide +kernel
  have start : Position.advance {} (garbage ++ [';']) = ⟨2, 4⟩ := by decide +kernel
  refine ⟨whole, closed, start, ?_⟩
  rw [← start]
  exact parse_semicolon whole closed _

end PageLint.Stylesheet
