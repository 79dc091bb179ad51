import Mathlib.Data.List.Forall2
import PageLint.Proofs.Stylesheet.Cut
import PageLint.Proofs.Stylesheet.Grouping

/-!
# Changes that keep the kinds of tokens

A change puts a token of the same kind, names aside, in the place of each token and may leave out
comments. Grouping does not notice (`ofTokens_change`), and neither does what cuts statements apart
(`statements_altered`).
-/

namespace PageLint.Stylesheet

open Stylesheet.Tree

def Keeps (change : Token → Option Token) : Prop :=
  ∀ t, (change t = none ∧ t.kind = .comment) ∨ ∃ u, change t = some u ∧ t.kind.Kept u.kind

namespace Tree

mutual
def change (g : Token → Option Token) : Tree → Option Tree
  | leaf t => (g t).map leaf
  | block opener inside closer =>
    some (block ((g opener).getD opener) (changeAll g inside) (closer.bind g))

def changeAll (g : Token → Option Token) : List Tree → List Tree
  | [] => []
  | t :: ts => (change g t).toList ++ changeAll g ts
end

theorem changeAll_eq (g : Token → Option Token) (ts : List Tree) :
    changeAll g ts = ts.filterMap (change g) := by
  induction ts with
  | nil => rfl
  | cons t ts ih =>
    rw [changeAll, ih]
    cases changed : change g t with
    | none => rw [List.filterMap_cons_none changed]; rfl
    | some u => rw [List.filterMap_cons_some changed]; rfl

end Tree

namespace Keeps

variable {g : Token → Option Token} {closing : Option Bracket} {ts rest : List Token}
  {trees : List Tree} {t : Token}

theorem opener (keeps : Keeps g) {b : Bracket} (opens : t.kind.opened? = some b) :
    ∃ u, g t = some u ∧ u.kind = t.kind := by
  rcases keeps t with ⟨_, comment⟩ | ⟨u, changed, kept⟩
  · rw [comment] at opens
    cases opens
  · rcases kept with same | ⟨⟨name, ident⟩, _⟩
    · exact ⟨u, changed, same⟩
    · rw [ident] at opens
      cases opens

theorem closer (keeps : Keeps g) {b : Bracket} (closes : t.kind = .closes b) :
    ∃ u, g t = some u ∧ u.kind = .closes b := by
  rcases keeps t with ⟨_, comment⟩ | ⟨u, changed, kept⟩
  · rw [comment] at closes
    cases closes
  · rcases kept with same | ⟨⟨name, ident⟩, _⟩
    · exact ⟨u, changed, same.trans closes⟩
    · rw [ident] at closes
      cases closes

theorem keepsKinds (keeps : Keeps g) : KeepsKinds (Tree.change g) := by
  intro t
  cases t with
  | leaf token =>
    rw [change]
    rcases keeps token with ⟨gone, comment⟩ | ⟨u, changed, kept⟩
    · exact .inl ⟨by rw [gone]; rfl, beq_iff_eq.mpr comment⟩
    · exact .inr ⟨leaf u, by rw [changed]; rfl, .leaf kept⟩
  | block opener =>
    refine .inr ⟨_, rfl, .block ?_⟩
    rcases keeps opener with ⟨gone, _⟩ | ⟨u, changed, kept⟩
    · rw [gone]
      exact .inl rfl
    · rw [changed]
      exact kept

end Keeps

theorem Units.change {g : Token → Option Token} {closing : Option Bracket} {ts rest : List Token}
    {trees : List Tree} (keeps : Keeps g) (units : Units closing ts trees rest) :
    Units closing (ts.filterMap g) (changeAll g trees) (rest.filterMap g) := by
  induction units with
  | done => exact .done
  | closed closes =>
    obtain ⟨u, kept, closes⟩ := keeps.closer closes
    rw [List.filterMap_cons_some kept]
    exact .closed closes
  | @single _ t _ _ _ no_block inside _ ih =>
    rw [changeAll, Tree.change]
    rcases keeps t with ⟨gone, _⟩ | ⟨u, changed, kept⟩
    · rw [List.filterMap_cons_none gone, gone]
      exact ih
    · rw [List.filterMap_cons_some changed, changed]
      refine .single ?_ ?_ ih
      · rw [kept.same (f := TokenKind.opened?) fun _ => rfl]
        exact no_block
      · intro b inner
        have closes := kept.same (f := (· = .closes b)) fun _ => by simp
        rw [Ne, closes]
        exact inside b inner
  | block opens contents _ ih ih' =>
    obtain ⟨u, kept, same⟩ := keeps.opener opens
    rw [changeAll, Tree.change, List.filterMap_cons_some kept, kept]
    obtain ⟨v, kept', _⟩ := keeps.closer contents.closed_by
    rw [List.filterMap_cons_some kept'] at ih
    rw [Option.bind_some, kept']
    exact .block (same ▸ opens) ih ih'
  | unclosed opens _ ih =>
    obtain ⟨u, kept, same⟩ := keeps.opener opens
    rw [changeAll, Tree.change, List.filterMap_cons_some kept, kept]
    exact .unclosed (same ▸ opens) ih

/-- Changed tokens are grouped as before. -/
theorem ofTokens_change {g : Token → Option Token} (keeps : Keeps g) (ts : List Token) :
    ofTokens (ts.filterMap g) = changeAll g (ofTokens ts) :=
  (ofTokens_iff.mp ((units_ofTokens ts).change keeps)).symm

/-! ### Statements -/

/-- A statement and one that was read from the same trees after a change. The change makes `inside`
of what a block holds and `value` of a value. Texts and places may differ. -/
inductive Statement.Altered (inside value : List Tree → List Tree) : Statement → Statement → Prop
  | atRule {name text text' start start' body} :
      Altered inside value (.atRule name text start body)
        (.atRule name text' start' (body.map inside))
  | rule {text text' start start' body} :
      Altered inside value (.rule text start body) (.rule text' start' (inside body))
  | declaration {name start start' parts} :
      Altered inside value (.declaration name start parts) (.declaration name start' (value parts))
  | dropped {text text' start start'} :
      Altered inside value (.dropped text start) (.dropped text' start')

/-- The `;` or block that ends a piece is no comment. -/
theorem cut_stop {t stop : Tree} {ts : List Tree} (ended : (cut t ts).1.stop? = some stop) :
    stop.isComment = false := by
  have no_comment (ended : stop.endsRun = true) : stop.isComment = false := by
    refine Bool.eq_false_iff.mpr fun comment => ?_
    rw [endsRun_of_comment comment] at ended
    cases ended
  have ways := cuts t ts
  generalize cut t ts = result at ways ended
  cases ways with
  | atRule => exact no_comment (halt_ends ended)
  | declaration => cases ended
  | other => exact no_comment (halt_ends ended)

section Altered

variable {change : Tree → Option Tree} {inside : List Tree → List Tree}

theorem statement?_altered (keeps : KeepsKinds change)
    (bodies : ∀ t u, change t = some u → u.braceBody? = t.braceBody?.map inside) {piece : Piece}
    (no_comment : ∀ stop, piece.stop? = some stop → stop.isComment = false)
    (text text' : List Char) (start start' : Position) :
    List.Forall₂ (Statement.Altered inside (List.filterMap change))
      (piece.statement? text start).toList
      ((piece.map change).statement? text' start').toList := by
  cases piece with
  | atRule name run stop =>
    cases stop with
    | none => exact .cons .atRule .nil
    | some stop =>
      obtain ⟨u, kept, _⟩ := keeps.of_not_comment (no_comment stop rfl)
      rw [Piece.map, Option.bind_some, kept, Piece.statement?, Piece.statement?,
        bodies stop u kept]
      exact .cons .atRule .nil
  | declaration name value => exact .cons .declaration .nil
  | other run stop =>
    cases stop with
    | none => exact .nil
    | some stop =>
      obtain ⟨u, kept, _⟩ := keeps.of_not_comment (no_comment stop rfl)
      rw [Piece.map, Option.bind_some, kept, Piece.statement?, Piece.statement?,
        bodies stop u kept]
      cases stop.braceBody? with
      | none => exact .cons .dropped .nil
      | some body => exact .cons .rule .nil

/-- The statements of changed trees are those of the trees, altered, if no name of a declaration is
read as none. Whether blocks are entered and what was left unread shows in texts and places only. -/
theorem statements_altered (keeps : KeepsKinds change)
    (bodies : ∀ t u, change t = some u → u.braceBody? = t.braceBody?.map inside)
    {enters enters' : Bool} {unread unread' : Option Unread} {ts : List Tree}
    (named : ∀ t u rest, t :: rest <:+ ts → change t = some u →
      u.name? = t.name? ∨ value? rest = none) :
    List.Forall₂ (Statement.Altered inside (List.filterMap change)) (statements enters unread ts)
      (statements enters' unread' (ts.filterMap change)) := by
  induction ts using statements_induction generalizing unread unread' with
  | finished ts finished =>
    have finished' := dropWhile_change keeps (fun _ => isSeparator_of_comment)
      (fun _ _ => Alike.isSeparator) ts
    rw [finished] at finished'
    rw [statements_nil finished, statements_nil finished']
    exact .nil
  | statement ts t rest starts ih =>
    obtain ⟨u, kept, alike, starts'⟩ := dropWhile_change_cons keeps
      (fun _ => isSeparator_of_comment) (fun _ _ => Alike.isSeparator) starts
    have suffix : t :: rest <:+ ts := starts ▸ List.dropWhile_suffix isSeparator
    have later : (cut t rest).2 <:+ ts :=
      ((cut_suffix t rest).trans (List.suffix_cons t rest)).trans suffix
    have named' : ∀ t' u' rest', t' :: rest' <:+ (cut t rest).2 → change t' = some u' →
        u'.name? = t'.name? ∨ value? rest' = none := by
      intro t' u' rest' inner
      exact named t' u' rest' (inner.trans later)
    rw [statements_cut starts, statements_cut starts',
      cut_change keeps kept alike rest (named t u rest suffix kept)]
    exact List.rel_append (statement?_altered keeps bodies (fun _ => cut_stop) _ _ _ _) (ih named')

/-- A change that takes one tree for another of the same kind and name. -/
theorem statements_mapped {g : Tree → Tree} (alike : ∀ t, Alike t (g t))
    (bodies : ∀ t, (g t).braceBody? = t.braceBody?.map inside)
    (names : ∀ t, (g t).name? = t.name?) (enters enters' : Bool) (unread unread' : Option Unread)
    (ts : List Tree) :
    List.Forall₂ (Statement.Altered inside (List.map g)) (statements enters unread ts)
      (statements enters' unread' (ts.map g)) := by
  have keeps : KeepsKinds (some ∘ g) := fun t => .inr ⟨g t, rfl, alike t⟩
  have altered : List.Forall₂ (Statement.Altered inside (List.filterMap (some ∘ g)))
      (statements enters unread ts) (statements enters' unread' (ts.filterMap (some ∘ g))) := by
    refine statements_altered keeps ?_ ?_
    · rintro t _ ⟨⟩
      exact bodies t
    · rintro t _ _ _ ⟨⟩
      exact .inl (names t)
  rwa [List.filterMap_eq_map] at altered

end Altered

end PageLint.Stylesheet
