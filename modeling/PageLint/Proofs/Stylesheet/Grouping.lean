import PageLint.Stylesheet.Tree

/-!
# Units of a token sequence

`Units` says by its rules how tokens form blocks: a block reaches from its opening token to the first
closing bracket that fits and is not inside a block of its own, or to the end. `ofTokens_iff` says
that grouping with a stack of open blocks does the same.
-/

namespace PageLint.Stylesheet

open Stylesheet.Tree

/-- Reading `ts` inside a block that `closing` ends, or outside all blocks, gives the units `trees`
and stops before `rest`: at the closing bracket or at the end. -/
inductive Units : (closing : Option Bracket) → (ts : List Token) → (trees : List Tree) →
    (rest : List Token) → Prop
  | done {closing} : Units closing [] [] []
  | closed {b t rest} (closes : t.kind = .closes b) : Units (some b) (t :: rest) [] (t :: rest)
  | single {closing t ts trees rest} (no_block : t.kind.opened? = none)
      (inside : ∀ b, closing = some b → t.kind ≠ .closes b) (others : Units closing ts trees rest) :
      Units closing (t :: ts) (leaf t :: trees) rest
  | block {closing opener b ts inside closer after trees rest} (opens : opener.kind.opened? = some b)
      (contents : Units (some b) ts inside (closer :: after)) (others : Units closing after trees rest) :
      Units closing (opener :: ts) (block opener inside (some closer) :: trees) rest
  | unclosed {closing opener b ts inside} (opens : opener.kind.opened? = some b)
      (contents : Units (some b) ts inside []) :
      Units closing (opener :: ts) [Tree.block opener inside none] []

variable {closing : Option Bracket} {ts rest : List Token} {trees : List Tree}

theorem Units.stop (units : Units closing ts trees rest) :
    rest = [] ∨ ∃ b t after, closing = some b ∧ rest = t :: after ∧ t.kind = .closes b := by
  induction units with
  | done => exact .inl rfl
  | closed closes => exact .inr ⟨_, _, _, rfl, rfl, closes⟩
  | single _ _ _ ih => exact ih
  | block _ _ _ _ ih => exact ih
  | unclosed => exact .inl rfl

theorem Units.closed_by {b : Bracket} {t : Token} (units : Units (some b) ts trees (t :: rest)) :
    t.kind = .closes b := by
  rcases units.stop with none | ⟨_, _, _, same, stop, closes⟩
  · cases none
  · cases same
    cases stop
    exact closes

theorem units_exist (n : Nat) (closing : Option Bracket) (ts : List Token) (short : ts.length ≤ n) :
    ∃ trees rest, Units closing ts trees rest ∧ rest.length ≤ ts.length := by
  induction n generalizing closing ts with
  | zero =>
    obtain rfl := List.eq_nil_of_length_eq_zero (Nat.le_zero.mp short)
    exact ⟨[], [], .done, Nat.le_refl _⟩
  | succ n ih =>
    cases ts with
    | nil => exact ⟨[], [], .done, Nat.le_refl _⟩
    | cons t ts =>
      rw [List.length_cons, Nat.succ_le_succ_iff] at short
      cases opens : t.kind.opened? with
      | none =>
        by_cases closes : ∃ b, closing = some b ∧ t.kind = .closes b
        · obtain ⟨b, rfl, closes⟩ := closes
          exact ⟨[], t :: ts, .closed closes, Nat.le_refl _⟩
        · obtain ⟨trees, rest, others, shorter⟩ := ih closing ts short
          refine ⟨leaf t :: trees, rest, .single opens ?_ others, Nat.le_succ_of_le shorter⟩
          intro b inner fits
          exact closes ⟨b, inner, fits⟩
      | some b =>
        -- What the block leaves over is no longer than what it was given, so the bound goes on.
        obtain ⟨inside, back, contents, shorter⟩ := ih (some b) ts short
        cases back with
        | nil => exact ⟨_, [], .unclosed opens contents, Nat.zero_le _⟩
        | cons closer after =>
          rw [List.length_cons] at shorter
          obtain ⟨trees, rest, others, shorter'⟩ := ih closing after (by omega)
          refine ⟨_, rest, .block opens contents others, ?_⟩
          rw [List.length_cons]
          omega

/-! ### Grouping with a stack -/

def innermost : List OpenBlock → Option Bracket
  | [] => none
  | b :: _ => b.opener.kind.opened?

theorem innermost_cons {opener : Token} {b : Bracket} (opens : opener.kind.opened? = some b)
    (before : List Tree) (outer : List OpenBlock) :
    innermost (⟨opener, before⟩ :: outer) = some b := opens

theorem group_opener {opener : Token} {b : Bracket} (opens : opener.kind.opened? = some b)
    (unclosed : List OpenBlock) (done : List Tree) (ts : List Token) :
    group unclosed done (opener :: ts) = group (⟨opener, done⟩ :: unclosed) [] ts := by
  rw [group, opens, Option.isSome_some, if_pos rfl]

theorem group_single {t : Token} (no_block : t.kind.opened? = none) (unclosed : List OpenBlock)
    (done : List Tree) (ts : List Token) :
    group unclosed done (t :: ts) =
      group (settle unclosed done t).1 (settle unclosed done t).2 ts := by
  rw [group, no_block, Option.isSome_none, if_neg Bool.false_ne_true]

theorem settle_inside {t : Token} {unclosed : List OpenBlock}
    (inside : ∀ b, innermost unclosed = some b → t.kind ≠ .closes b) (done : List Tree) :
    settle unclosed done t = (unclosed, leaf t :: done) := by
  unfold settle
  split
  · rename_i opened outer bracket closes
    exact if_neg fun fits => inside bracket fits closes
  · rfl

theorem settle_closer {t opener : Token} {b : Bracket} (opens : opener.kind.opened? = some b)
    (closes : t.kind = .closes b) (unclosed : List OpenBlock) (before done : List Tree) :
    settle (⟨opener, before⟩ :: unclosed) done t =
      (unclosed, block opener done.reverse (some t) :: before) := by
  unfold settle
  simp only [closes, opens, if_true]

theorem group_closer {t opener : Token} {b : Bracket} (opens : opener.kind.opened? = some b)
    (closes : t.kind = .closes b) (unclosed : List OpenBlock) (before done : List Tree)
    (ts : List Token) :
    group (⟨opener, before⟩ :: unclosed) done (t :: ts) =
      group unclosed (block opener done.reverse (some t) :: before) ts := by
  have no_block : t.kind.opened? = none := by rw [closes]; rfl
  rw [group_single no_block, settle_closer opens closes]

/-- Grouping takes what the rules read as one piece. -/
theorem group_units (units : Units closing ts trees rest) {unclosed : List OpenBlock}
    (inner : innermost unclosed = closing) (done : List Tree) :
    group unclosed done ts = group unclosed (trees.reverse ++ done) rest := by
  -- The stack is another one inside a block, but its top is always what `closing` says.
  induction units generalizing unclosed done with
  | done => rfl
  | closed => rfl
  | single no_block inside _ ih =>
    rw [group_single no_block, settle_inside fun b top => inside b (inner.symm.trans top), ih inner,
      List.reverse_cons, List.append_assoc]
    rfl
  | block opens contents _ ih ih' =>
    rw [group_opener opens, ih (innermost_cons opens done unclosed),
      group_closer opens contents.closed_by, ih' inner, List.append_nil, List.reverse_reverse,
      List.reverse_cons, List.append_assoc]
    rfl
  | unclosed opens _ ih =>
    rw [group_opener opens, ih (innermost_cons opens done unclosed), List.append_nil, group, group,
      closeAll, List.reverse_reverse]
    rfl

/-- Grouping a sequence of tokens gives its units. -/
theorem ofTokens_iff : Units none ts trees [] ↔ trees = ofTokens ts := by
  have grouped {trees : List Tree} (units : Units none ts trees []) : trees = ofTokens ts := by
    rw [ofTokens, group_units units rfl, group, closeAll, List.append_nil, List.reverse_reverse]
  constructor
  · exact grouped
  · rintro rfl
    obtain ⟨trees, rest, units, _⟩ := units_exist ts.length none ts (Nat.le_refl _)
    rcases units.stop with rfl | ⟨_, _, _, outside, _⟩
    · rwa [← grouped units]
    · cases outside

theorem units_ofTokens (ts : List Token) : Units none ts (ofTokens ts) [] :=
  ofTokens_iff.mpr rfl

end PageLint.Stylesheet
