import Mathlib.Data.List.Basic
import PageLint.Proofs.Stylesheet.Boundary
import PageLint.Proofs.Stylesheet.Change
import PageLint.Proofs.Stylesheet.Components
import PageLint.Proofs.Stylesheet.Contents

/-!
# Stylesheets that start elsewhere

The position at which a text starts makes no difference to its nodes but to their positions
(`nodes_move`): `Position.after` says where they are found instead.
-/

namespace PageLint.Stylesheet

open Text Stylesheet.Tree

/-! ### Positions -/

/-- Where `p` is found if the text that it counts from starts at `origin`. -/
def Position.after (origin p : Position) : Position where
  line := origin.line + (p.line - 1)
  column := if p.line = 1 then origin.column + (p.column - 1) else p.column

structure Position.Counted (p : Position) : Prop where
  line : 1 ≤ p.line
  column : 1 ≤ p.column

variable {origin p : Position} {text : List Char}

theorem counted_start : Position.Counted {} :=
  ⟨Nat.le_refl 1, Nat.le_refl 1⟩

theorem counted_next_line (n : Nat) : Position.Counted ⟨n + 1, 1⟩ :=
  ⟨Nat.le_add_left 1 n, Nat.le_refl 1⟩

theorem Position.Counted.right (counted : p.Counted) (n : Nat) : Counted ⟨p.line, p.column + n⟩ :=
  ⟨counted.line, Nat.le_add_right_of_le counted.column⟩

theorem Position.Counted.advance (counted : p.Counted) (text : List Char) :
    (p.advance text).Counted := by
  fun_induction Position.advance p text with
  | case1 => exact counted
  | case2 p rest ih => exact ih (counted_next_line _)
  | case3 p c rest _ ih =>
    apply ih
    split
    · exact counted_next_line _
    · exact counted.right _

theorem after_next_line (origin : Position) (counted : p.Counted) :
    origin.after ⟨p.line + 1, 1⟩ = ⟨(origin.after p).line + 1, 1⟩ := by
  have := counted.line
  simp only [Position.after, Position.mk.injEq]
  constructor
  · omega
  · exact if_neg (by omega)

theorem after_right (origin : Position) (counted : p.Counted) (n : Nat) :
    origin.after ⟨p.line, p.column + n⟩ = ⟨(origin.after p).line, (origin.after p).column + n⟩ := by
  have := counted.column
  simp only [Position.after, Position.mk.injEq, true_and]
  split <;> omega

theorem after_advance (origin : Position) (counted : p.Counted) (text : List Char) :
    origin.after (p.advance text) = (origin.after p).advance text := by
  fun_induction Position.advance p text with
  | case1 => rfl
  | case2 p rest ih =>
    rw [ih (counted_next_line _), after_next_line origin counted, Position.advance]
  | case3 p c rest no_pair ih =>
    rw [advance_cons _ no_pair]
    split at ih
    · rename_i newline
      rw [if_pos newline, if_pos newline, ih (counted_next_line _), after_next_line origin counted]
    · rename_i no_newline
      rw [if_neg no_newline, if_neg no_newline, ih (counted.right _), after_right origin counted]

/-! ### Tokens and trees -/

def Token.move (f : Position → Position) (t : Token) : Token :=
  { t with start := f t.start }

def Follows (f : Position → Position) (t : Token) : Prop :=
  f t.stop = (t.move f).stop

theorem tokens_after (origin : Position) (counted : p.Counted) (text : List Char) :
    tokens (origin.after p) text = (tokens p text).map (Token.move origin.after) := by
  fun_induction tokens p text with
  | case1 => rw [tokens]; rfl
  | case2 p c rest kind length read taken ih =>
    rw [tokens_cons, read, ← after_advance origin counted, ih (counted.advance _)]
    rfl

theorem tokens_follow (origin : Position) (counted : p.Counted) (text : List Char) :
    ∀ t ∈ tokens p text, Follows origin.after t := by
  fun_induction tokens p text with
  | case1 => exact fun t member => absurd member List.not_mem_nil
  | case2 p c rest kind length read taken ih =>
    refine List.forall_mem_cons.mpr ⟨?_, ih (counted.advance _)⟩
    exact after_advance origin counted taken

namespace Tree

variable {f : Position → Position}

def move (f : Position → Position) : Tree → Tree
  | leaf t => leaf (t.move f)
  | block opener inside closer =>
    block (opener.move f) (changeAll (some ∘ Token.move f) inside) (closer.map (Token.move f))

theorem change_move (f : Position → Position) (t : Tree) :
    change (some ∘ Token.move f) t = some (move f t) := by
  cases t with
  | leaf => rfl
  | block _ _ closer => cases closer <;> rfl

theorem changeAll_move (f : Position → Position) (ts : List Tree) :
    changeAll (some ∘ Token.move f) ts = ts.map (move f) := by
  rw [changeAll_eq, funext (change_move f), List.filterMap_eq_map']

theorem move_block (f : Position → Position) (opener : Token) (inside : List Tree)
    (closer : Option Token) :
    move f (block opener inside closer) =
      block (opener.move f) (inside.map (move f)) (closer.map (Token.move f)) := by
  rw [move, changeAll_move]

mutual
theorem toTokens_move (f : Position → Position) (t : Tree) :
    toTokens (move f t) = (toTokens t).map (Token.move f) := by
  cases t with
  | leaf => rfl
  | block opener inside closer =>
    rw [move_block, toTokens, toTokensAll_move, toTokens, List.map_cons, List.map_append]
    cases closer <;> rfl

theorem toTokensAll_move (f : Position → Position) (ts : List Tree) :
    toTokensAll (ts.map (move f)) = (toTokensAll ts).map (Token.move f) := by
  cases ts with
  | nil => rfl
  | cons t ts =>
    rw [List.map_cons, toTokensAll, toTokens_move, toTokensAll_move, toTokensAll, List.map_append]
end

theorem flatMap_text_move (f : Position → Position) (ts : List Token) :
    (ts.map (Token.move f)).flatMap Token.text = ts.flatMap Token.text :=
  List.flatMap_map ..

theorem textAll_move (f : Position → Position) (ts : List Tree) :
    textAll (ts.map (move f)) = textAll ts := by
  rw [textAll, toTokensAll_move, flatMap_text_move, textAll]

theorem first_move (f : Position → Position) (t : Tree) : (move f t).first = t.first.move f := by
  cases t <;> rfl

theorem innerText_move (f : Position → Position) (t : Tree) :
    (move f t).innerText = t.innerText := by
  cases t with
  | leaf => rfl
  | block opener inside closer =>
    have moved : closer.toList.map (Token.move f) = (closer.map (Token.move f)).toList := by
      cases closer <;> rfl
    rw [move_block, innerText, toTokensAll_move, ← moved, ← List.map_append, flatMap_text_move,
      innerText]

theorem readText_move (f : Position → Position) (unread : List Char) (ts : List Tree) :
    readText unread (ts.map (move f)) = readText unread ts := by
  rw [readText, List.getLast?_map, readText]
  cases ts.getLast? with
  | none => rfl
  | some last =>
    rw [Option.map_some]
    dsimp only
    rw [← List.map_dropLast, textAll_move, first_move]
    rfl

theorem isBraceBlock_move (f : Position → Position) (t : Tree) :
    (move f t).isBraceBlock = t.isBraceBlock := by
  cases t <;> rfl

theorem braceBody?_move (f : Position → Position) (t : Tree) :
    (move f t).braceBody? = t.braceBody?.map (List.map (move f)) := by
  cases t with
  | leaf => rfl
  | block opener inside closer =>
    rw [move_block, braceBody?, ← move_block, isBraceBlock_move, braceBody?]
    cases (block opener inside closer).isBraceBlock <;> rfl

end Tree

/-! ### Statements -/

variable {f : Position → Position} {enters : Bool} {unread : Option Unread} {ts : List Tree}

def Unread.move (f : Position → Position) (u : Unread) : Unread :=
  { u with position := f u.position }

def Statement.move (f : Position → Position) : Statement → Statement
  | atRule name prelude start body =>
    .atRule name prelude (f start) (body.map (List.map (Tree.move f)))
  | rule selector start body => .rule selector (f start) (body.map (Tree.move f))
  | declaration property start value => .declaration property (f start) (value.map (Tree.move f))
  | dropped text start => .dropped text (f start)

theorem unreadOf_move {t : Tree} (follows : Follows f t.first) (enters : Bool) :
    unreadOf enters (t.move f) = (unreadOf enters t).map (Unread.move f) := by
  rw [unreadOf, first_move, innerText_move, ← follows, unreadOf]
  cases enters <;> rfl

theorem statement?_move (f : Position → Position) (text : List Char) (start : Position)
    (piece : Piece) :
    (piece.map (some ∘ Tree.move f)).statement? text (f start) =
      (piece.statement? text start).map (Statement.move f) := by
  cases piece with
  | atRule name run stop =>
    rw [Piece.map, List.filterMap_eq_map]
    cases stop with
    | none => rw [Option.bind_none, Piece.statement?, textAll_move]; rfl
    | some stop =>
      rw [Option.bind_some, Function.comp_apply, Piece.statement?, readText_move, braceBody?_move]
      rfl
  | declaration name value => rw [Piece.map, List.filterMap_eq_map]; rfl
  | other run stop =>
    rw [Piece.map, List.filterMap_eq_map]
    cases stop with
    | none => rfl
    | some stop =>
      rw [Option.bind_some, Function.comp_apply, Piece.statement?, readText_move, braceBody?_move,
        Piece.statement?]
      cases stop.braceBody? <;> rfl

theorem alike_move (f : Position → Position) (t : Tree) : Alike t (t.move f) := by
  cases t with
  | leaf => exact .leaf (.inl rfl)
  | block => exact .block (.inl rfl)

theorem name?_move (f : Position → Position) (t : Tree) : (t.move f).name? = t.name? := by
  cases t <;> rfl

theorem keepsKinds_move (f : Position → Position) : KeepsKinds (some ∘ Tree.move f) :=
  fun t => .inr ⟨t.move f, rfl, alike_move f t⟩

theorem first_mem_toTokensAll {t : Tree} (member : t ∈ ts) : t.first ∈ toTokensAll ts := by
  obtain ⟨front, back, rfl⟩ := List.append_of_mem member
  rw [toTokensAll_append, toTokensAll]
  refine List.mem_append_right _ (List.mem_append_left _ ?_)
  cases t <;> exact List.mem_cons_self

theorem unreadBefore_move (f : Position → Position) (unread : Option Unread) (ts : List Tree) :
    unreadBefore (unread.map (Unread.move f)) (ts.map (move f)) =
      (unreadBefore unread ts).map (Unread.move f) := by
  unfold unreadBefore
  have same : (ts.map (move f)).head?.any isSeparator = ts.head?.any isSeparator := by
    cases ts with
    | nil => rfl
    | cons t ts => exact (alike_move f t).isSeparator
  rw [same]
  split <;> rfl

theorem block?_move (f : Position → Position) (piece : Piece) :
    (piece.map (some ∘ Tree.move f)).block? = piece.block?.map (Tree.move f) := by
  have filtered (stop : Option Tree) :
      (stop.bind (some ∘ Tree.move f)).filter isBraceBlock =
        (stop.filter isBraceBlock).map (Tree.move f) := by
    cases stop with
    | none => rfl
    | some stop =>
      rw [Option.bind_some, Function.comp_apply, Option.filter, isBraceBlock_move, Option.filter]
      split <;> rfl
  cases piece with
  | atRule => exact filtered _
  | declaration => rfl
  | other => exact filtered _

theorem elim_text_move (f : Position → Position) (unread : Option Unread) :
    (unread.map (Unread.move f)).elim [] Unread.text = unread.elim [] Unread.text := by
  cases unread <;> rfl

theorem elim_position_move (f : Position → Position) (unread : Option Unread) (start : Position) :
    (unread.map (Unread.move f)).elim (f start) Unread.position =
      f (unread.elim start Unread.position) := by
  cases unread <;> rfl

/-- Statements that are found elsewhere are the same, moved. -/
theorem statements_move (follows : ∀ t ∈ toTokensAll ts, Follows f t) :
    statements enters (unread.map (Unread.move f)) (ts.map (move f)) =
      (statements enters unread ts).map (Statement.move f) := by
  induction ts using statements_induction generalizing unread with
  | finished ts finished =>
    have finished' := dropWhile_change (keepsKinds_move f) (fun _ => isSeparator_of_comment)
      (fun _ _ => Alike.isSeparator) ts
    rw [List.filterMap_eq_map, finished] at finished'
    rw [statements_nil finished', statements_nil finished, List.map_nil]
  | statement ts t rest starts ih =>
    obtain ⟨u, moved, _, starts'⟩ := dropWhile_change_cons (keepsKinds_move f)
      (fun _ => isSeparator_of_comment) (fun _ _ => Alike.isSeparator) starts
    obtain rfl : t.move f = u := Option.some.inj moved
    rw [List.filterMap_eq_map] at starts'
    have suffix : t :: rest <:+ ts := by
      rw [← starts]
      exact List.dropWhile_suffix _
    have others : ∀ token ∈ toTokensAll (cut t rest).2, Follows f token := by
      intro token inside
      have suffix' := (cut_suffix t rest).trans (List.suffix_cons t rest)
      exact follows token ((toTokensAll_suffix (suffix'.trans suffix)).subset inside)
    have next : ((cut t rest).1.map (some ∘ move f)).block?.bind (unreadOf enters) =
        ((cut t rest).1.block?.bind (unreadOf enters)).map (Unread.move f) := by
      rw [block?_move]
      cases ended : (cut t rest).1.block? with
      | none => rfl
      | some last =>
        have inside := (toTokensAll_suffix suffix).subset
          (first_mem_toTokensAll (block?_mem ended))
        exact unreadOf_move (follows _ inside) enters
    have cut_moved := cut_change (keepsKinds_move f) moved (alike_move f t) rest
      (.inl (name?_move f t))
    rw [List.filterMap_eq_map] at cut_moved
    rw [statements_cut starts, statements_cut starts', cut_moved, unreadBefore_move]
    dsimp only
    rw [next, ih others, first_move, elim_text_move, Token.move, elim_position_move,
      statement?_move, List.map_append, Option.toList_map]

/-! ### Nodes -/

namespace Node

mutual
/-- A node with `text` in the place of selectors and preludes and `place` in that of positions. -/
def relabel (text : String → String) (place : Position → Position) : Node → Node
  | rule selector p children => rule (text selector) (place p) (relabelAll text place children)
  | atRule name prelude p none => atRule name (text prelude) (place p) none
  | atRule name prelude p (some children) =>
    atRule name (text prelude) (place p) (some (relabelAll text place children))
  | declaration d => declaration { d with position := place d.position }

def relabelAll (text : String → String) (place : Position → Position) : List Node → List Node
  | [] => []
  | n :: ns => relabel text place n :: relabelAll text place ns
end

theorem relabelAll_eq (text : String → String) (place : Position → Position) (ns : List Node) :
    relabelAll text place ns = ns.map (relabel text place) := by
  induction ns with
  | nil => rfl
  | cons n ns ih => rw [relabelAll, ih, List.map_cons]

end Node

theorem ofTrees_move (f : Position → Position) (levels : Nat) (unread : List Char)
    (ts : List Tree) :
    Component.ofTrees levels unread (ts.map (move f)) = Component.ofTrees levels unread ts := by
  induction levels, ts using Component.ofTrees_induction generalizing unread with
  | nil => rfl
  | leaf levels t ts ih =>
    rw [List.map_cons, move, Component.ofTrees_leaf, ih, Component.ofTrees_leaf]
    rfl
  | skipped opener inside closer ts ih =>
    rw [List.map_cons, move_block, Component.ofTrees_block_zero, ← move_block, innerText_move, ih,
      Component.ofTrees_block_zero]
    rfl
  | entered levels opener inside closer ts ih ih' =>
    rw [List.map_cons, move_block, Component.ofTrees_block_succ, ih, ih',
      Component.ofTrees_block_succ]
    rfl

theorem node?_move {s : Statement} {inside inside' : List Tree → List Node}
    (same : ∀ body, s.body? = some body →
      inside' (body.map (move f)) = (inside body).map (Node.relabel id f)) :
    (s.move f).node? inside' = (s.node? inside).map (Node.relabel id f) := by
  cases s with
  | atRule name prelude start body =>
    cases body with
    | none => rfl
    | some body =>
      simp only [Statement.move, Statement.node?, Option.map_some, same body rfl, Node.relabel,
        Node.relabelAll_eq, id]
  | rule selector start body =>
    simp only [Statement.move, Statement.node?, Option.map_some, same body rfl, Node.relabel,
      Node.relabelAll_eq, id]
  | declaration property start value =>
    simp only [Statement.move, Statement.node?, ofTrees_move]
    rfl
  | dropped => rfl

theorem nodes_move {levels : Nat} (follows : ∀ t ∈ toTokensAll ts, Follows f t) :
    nodes levels (ts.map (move f)) = (nodes levels ts).map (Node.relabel id f) := by
  induction levels generalizing ts with
  | zero =>
    have moved := @statements_move f false none ts follows
    rw [Option.map_none] at moved
    rw [nodes, moved, nodes, List.filterMap_map, List.map_filterMap]
    refine List.filterMap_congr fun s _ => ?_
    exact node?_move fun _ _ => rfl
  | succ levels ih =>
    have moved := @statements_move f true none ts follows
    rw [Option.map_none] at moved
    rw [nodes, moved, nodes, List.filterMap_map, List.map_filterMap]
    refine List.filterMap_congr fun s member => node?_move fun body found => ?_
    refine ih fun token inside => ?_
    obtain ⟨_, _, _, within⟩ := (statements_iff.mpr rfl).body_inside member found
    exact follows token ((toTokensAll_body within).subset inside)

end PageLint.Stylesheet
