import PageLint.Proofs.Stylesheet.Boundary
import PageLint.Proofs.Stylesheet.Grouping

/-!
# Blocks that the end of a text leaves open

`unclosedAll` lists the brackets that trees leave open. `shut_ofText` says what closing them does:
the blocks at the end get their closing brackets, and every other tree stays as it is.
-/

namespace PageLint.Stylesheet

open Stylesheet.Tree

namespace Tree

mutual
def unclosed : Tree → List Bracket
  | leaf _ => []
  | block opener inside none => unclosedAll inside ++ opener.kind.opened?.toList
  | block _ _ (some _) => []

def unclosedAll : List Tree → List Bracket
  | [] => []
  | t :: ts => unclosed t ++ unclosedAll ts
end

end Tree

/-- Closing what `ts` leave open with these brackets gives `us`. -/
inductive Shut : (brackets : List Char) → (ts us : List Tree) → Prop
  | none (ts) : Shut [] ts ts
  | last {brackets opener b inside inside' closer} (ts) (opens : opener.kind.opened? = some b)
      (closes : closer.text = [b.closing]) (within : Shut brackets inside inside') :
      Shut (brackets ++ [b.closing]) (ts ++ [block opener inside none])
        (ts ++ [block opener inside' (some closer)])

def Closers (bs : List Bracket) (ts : List Token) : Prop :=
  ts.map (fun t => (t.kind, t.text)) = bs.map fun b => (.closes b, [b.closing])

variable {closing : Option Bracket} {ts more rest closers : List Token} {trees after us : List Tree}
  {brackets : List Char} {t : Tree}

theorem Shut.cons (shut : Shut brackets trees us) (t : Tree) :
    Shut brackets (t :: trees) (t :: us) := by
  cases shut with
  | none => exact .none _
  | last ts opens closes within => exact .last (t :: ts) opens closes within

theorem Shut.eq_of_nil (shut : Shut [] trees us) : us = trees := by
  generalize none : ([] : List Char) = brackets at shut
  cases shut with
  | none => rfl
  | last => exact absurd none.symm (List.append_ne_nil_of_right_ne_nil _ (List.cons_ne_nil _ _))

/-- Reading that stops at a closing bracket does not depend on what follows. -/
theorem Units.append (units : Units closing ts trees rest) (stopped : rest ≠ [])
    (more : List Token) :
    Units closing (ts ++ more) trees (rest ++ more) := by
  induction units with
  | done => exact absurd rfl stopped
  | closed closes => exact .closed closes
  | single no_block inside _ ih => exact .single no_block inside (ih stopped)
  | block opens _ _ ih ih' => exact .block opens (ih (List.cons_ne_nil _ _)) (ih' stopped)
  | unclosed => exact absurd rfl stopped

/-- After the brackets that close all that is open, reading goes on as at the start. -/
theorem Units.shut (units : Units closing ts trees [])
    (closed : Closers (unclosedAll trees) closers)
    (others : Units closing more after rest) :
    ∃ us, Shut ((unclosedAll trees).map Bracket.closing) trees us ∧
      Units closing (ts ++ (closers ++ more)) (us ++ after) rest := by
  generalize ended : [] = stop at units
  -- Inside an open block, what follows is the bracket that closes it, so `more` varies.
  induction units generalizing closers more after rest with
  | done =>
    obtain rfl := List.map_eq_nil_iff.mp closed
    exact ⟨[], .none [], others⟩
  | closed => cases ended
  | single no_block inside _ ih =>
    obtain ⟨us, shut, units⟩ := ih closed others ended
    exact ⟨_ :: us, shut.cons _, .single no_block inside units⟩
  | block opens contents _ _ ih =>
    obtain ⟨us, shut, units⟩ := ih closed others ended
    refine ⟨_ :: us, shut.cons _, ?_⟩
    exact .block opens (contents.append (List.cons_ne_nil _ _) _) units
  | @unclosed _ opener b _ inside opens _ ih =>
    rw [unclosedAll, Tree.unclosed, opens, unclosedAll, List.append_nil,
      Option.toList_some] at closed ⊢
    unfold Closers at closed
    rw [List.map_append, List.map_eq_append_iff] at closed
    obtain ⟨inner, last, rfl, closed, final⟩ := closed
    obtain ⟨closer, rfl, final⟩ := List.map_eq_singleton_iff.mp final
    obtain ⟨kind, text⟩ := Prod.mk.inj (List.cons.inj final).1
    have stops : Units (some b) (closer :: more) [] (closer :: more) := .closed kind
    obtain ⟨us, shut, units⟩ := ih closed stops rfl
    rw [List.append_nil] at units
    refine ⟨[Tree.block opener us (some closer)], ?_, ?_⟩
    · rw [List.map_append]
      exact .last [] opens text shut
    · rw [List.append_assoc]
      exact .block opens units others

/-! ### The trees of a text -/

theorem ofTokens_shut (ts more : List Token)
    (closed : Closers (unclosedAll (ofTokens ts)) closers) :
    ∃ us, Shut ((unclosedAll (ofTokens ts)).map Bracket.closing) (ofTokens ts) us ∧
      ofTokens (ts ++ (closers ++ more)) = us ++ ofTokens more := by
  obtain ⟨us, shut, read⟩ := (units_ofTokens ts).shut closed (units_ofTokens more)
  exact ⟨us, shut, (ofTokens_iff.mp read).symm⟩

/-- Where no block is left open, grouping takes what follows by itself. -/
theorem ofTokens_append {ts : List Token} (closed : unclosedAll (ofTokens ts) = [])
    (more : List Token) :
    ofTokens (ts ++ more) = ofTokens ts ++ ofTokens more := by
  have no_closers : Closers (unclosedAll (ofTokens ts)) [] := by rw [closed]; rfl
  obtain ⟨us, shut, read⟩ := ofTokens_shut ts more no_closers
  rw [closed] at shut
  rwa [shut.eq_of_nil] at read

theorem marked_closers (bs : List Bracket) : Marked (bs.map Bracket.closing) := by
  cases bs with
  | nil => exact .nil
  | cons b bs => cases b <;> exact .cons (by decide)

theorem closers_tokens (p : Position) (bs : List Bracket) :
    Closers bs (tokens p (bs.map Bracket.closing)) := by
  unfold Closers
  induction bs generalizing p with
  | nil => rw [List.map_nil, List.map_nil, tokens]; rfl
  | cons b bs ih =>
    rw [List.map_cons, tokens_cons, List.map_cons, List.map_cons]
    have single : tokenAt b.closing (bs.map Bracket.closing) = (.closes b, 1) := by
      cases b <;> rfl
    rw [single, Nat.sub_self, List.take_zero, List.drop_zero, ih]

theorem shut_ofText {text : List Char} (whole : EndsBetweenTokens text) :
    let brackets := (unclosedAll (ofText text)).map Bracket.closing
    Shut brackets (ofText text) (ofText (text ++ brackets)) := by
  intro brackets
  obtain ⟨us, shut, grouped⟩ := ofTokens_shut (tokens {} text) []
    (closers_tokens (Position.advance {} text) (unclosedAll (ofText text)))
  have read := tokens_marked (marked_closers (unclosedAll (ofText text))) {} whole
  have none : ofTokens [] = [] := rfl
  rw [List.append_nil, ← read, none, List.append_nil] at grouped
  rwa [← grouped] at shut

end PageLint.Stylesheet
