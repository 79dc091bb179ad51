import PageLint.Proofs.Stylesheet.Components
import PageLint.Proofs.Stylesheet.Cut
import PageLint.Proofs.Stylesheet.Unclosed
import PageLint.Stylesheet.Node

/-!
# The end of the text closes what is open

A block that the end of a text leaves open is read as if its closing bracket stood there.
`parse_close` says what it changes to write the brackets: the prelude of an at-rule that is still
open may gain some of them, and nothing else changes.
-/

namespace PageLint.Stylesheet

open Text Stylesheet.Tree

/-- A block, and the same block with other trees inside and another end. -/
structure Edit where
  opener : Token
  inside : List Tree
  closer : Option Token
  inside' : List Tree
  closer' : Option Token

namespace Edit

def before (x : Edit) : Tree :=
  block x.opener x.inside x.closer

def after (x : Edit) : Tree :=
  block x.opener x.inside' x.closer'

end Edit

variable {ends : Tree → Bool} {t : Tree} {front ts us : List Tree} {brackets text : List Char}
  {x : Edit}

/-! ### Cutting before the last block -/

theorem halt_last (ends : Tree → Bool) (front : List Tree) (t : Tree) :
    halt ends (front ++ [t]) =
      if (halt ends front).2.1.isSome then
        ((halt ends front).1, (halt ends front).2.1, (halt ends front).2.2 ++ [t])
      else if ends t then (front, some t, [])
      else (front ++ [t], none, []) := by
  induction front with
  | nil =>
    rw [List.nil_append, halt, halt]
    rfl
  | cons first front ih =>
    rw [List.cons_append, halt, halt]
    split
    · rfl
    · rw [ih]
      split
      · rfl
      · split <;> rfl

theorem dropWhile_last {p : Tree → Bool} (kept : p t = false) (front : List Tree) :
    (front ++ [t]).dropWhile p = front.dropWhile p ++ [t] := by
  induction front with
  | nil => rw [List.nil_append, List.dropWhile_cons, kept]; rfl
  | cons first front ih =>
    rw [List.cons_append, List.dropWhile_cons, List.dropWhile_cons]
    split
    · exact ih
    · rfl

theorem value?_last (front : List Tree) (x : Edit) :
    (value? (front ++ [x.before]) = none ∧ value? (front ++ [x.after]) = none) ∨
      (∃ value rest, value? (front ++ [x.before]) = some (value, rest ++ [x.before]) ∧
        value? (front ++ [x.after]) = some (value, rest ++ [x.after])) ∨
      ∃ value, value? (front ++ [x.before]) = some (value ++ [x.before], []) ∧
        value? (front ++ [x.after]) = some (value ++ [x.after], []) := by
  have before := dropWhile_last (p := isSpace) (t := x.before) rfl front
  have after := dropWhile_last (p := isSpace) (t := x.after) rfl front
  unfold value?
  rw [before, after]
  cases front.dropWhile isSpace with
  | nil => exact .inl ⟨rfl, rfl⟩
  | cons t rest =>
    cases t with
    | block => exact .inl ⟨rfl, rfl⟩
    | leaf colon =>
      rw [List.cons_append, List.cons_append]
      dsimp only
      rw [halt_last, halt_last]
      cases stopped : (halt endsValue rest).2.1 with
      | some stop =>
        simp only [Option.isSome_some, if_true]
        split
        · exact .inr (.inl ⟨_, _, rfl, rfl⟩)
        · exact .inl ⟨rfl, rfl⟩
      | none =>
        have ends : x.before.endsValue = x.before.isBraceBlock := rfl
        have ends' : x.after.endsValue = x.before.isBraceBlock := rfl
        have same : x.after.isBraceBlock = x.before.isBraceBlock := rfl
        simp only [Option.isSome_none, Bool.false_eq_true, if_false, ends, ends']
        cases brace : x.before.isBraceBlock with
        | true => simp [brace, same]
        | false =>
          simp only [Bool.false_eq_true, if_false, Option.any_none, Bool.not_false, Bool.and_true]
          split
          · exact .inr (.inr ⟨rest, rfl, rfl⟩)
          · exact .inl ⟨rfl, rfl⟩

/-- Where the block that ends `front ++ [x.before]` is once a statement is cut off. -/
inductive LastIn (front : List Tree) (x : Edit) : Piece × List Tree → Piece × List Tree → Prop
  | later (piece rest) : LastIn front x (piece, rest ++ [x.before]) (piece, rest ++ [x.after])
  | prelude (name) :
      LastIn front x (.atRule name (front ++ [x.before]) none, [])
        (.atRule name (front ++ [x.after]) none, [])
  | atBlock (name run) (brace : x.opener.kind = .opens .brace) :
      LastIn front x (.atRule name run (some x.before), []) (.atRule name run (some x.after), [])
  | value (name value) :
      LastIn front x (.declaration name (value ++ [x.before]), [])
        (.declaration name (value ++ [x.after]), [])
  | block (run) (brace : x.opener.kind = .opens .brace) :
      LastIn front x (.other run (some x.before), []) (.other run (some x.after), [])
  | unfinished (run) :
      LastIn front x (.other (run ++ [x.before]) none, []) (.other (run ++ [x.after]) none, [])

theorem endsRun_before (x : Edit) : x.before.endsRun = (x.opener.kind == .opens .brace) := rfl

theorem endsRun_after (x : Edit) : x.after.endsRun = (x.opener.kind == .opens .brace) := rfl

theorem cutOther_last (all front : List Tree) (x : Edit) :
    LastIn all x (cutOther (front ++ [x.before])) (cutOther (front ++ [x.after])) := by
  unfold cutOther
  rw [halt_last, halt_last]
  cases stopped : (halt endsRun front).2.1 with
  | some stop => exact .later _ _
  | none =>
    rw [endsRun_before, endsRun_after]
    cases brace : x.opener.kind == .opens .brace with
    | true => exact .block front (eq_of_beq brace)
    | false => exact .unfinished front

theorem cut_last (t : Tree) (front : List Tree) (x : Edit) :
    LastIn front x (cut t (front ++ [x.before])) (cut t (front ++ [x.after])) := by
  have other := cutOther_last front (t :: front) x
  unfold cut
  split
  · split
    · rename_i name keyword
      rw [halt_last, halt_last]
      cases stopped : (halt endsRun front).2.1 with
      | some stop => exact .later _ _
      | none =>
        rw [endsRun_before, endsRun_after]
        cases brace : x.opener.kind == .opens .brace with
        | true => exact .atBlock name front (eq_of_beq brace)
        | false => exact .prelude name
    · rename_i name ident
      obtain ⟨found, found'⟩ | ⟨value, rest, found, found'⟩ | ⟨value, found, found'⟩ :=
        value?_last front x
      · rw [found, found']
        exact other
      · rw [found, found']
        exact .later _ _
      · rw [found, found']
        exact .value name value
    · exact other
  · exact other

/-! ### The last statement -/

inductive LastStatement (ts : List Tree) (x : Edit) : List Statement → List Statement → Prop
  | none : LastStatement ts x [] []
  | prelude (name start) {run} (suffix : run ++ [x.before] <:+ ts) :
      LastStatement ts x [.atRule name (trim (textAll (run ++ [x.before]))) start .none]
        [.atRule name (trim (textAll (run ++ [x.after]))) start .none]
  | atBlock (name prelude start) (brace : x.opener.kind = .opens .brace) :
      LastStatement ts x [.atRule name prelude start (some x.inside)]
        [.atRule name prelude start (some x.inside')]
  | value (name start value) :
      LastStatement ts x [.declaration name start (value ++ [x.before])]
        [.declaration name start (value ++ [x.after])]
  | rule (selector start) (brace : x.opener.kind = .opens .brace) :
      LastStatement ts x [.rule selector start x.inside] [.rule selector start x.inside']

/-- Two lists of statements that differ as an edit of the last block makes them. -/
def Edited (ts : List Tree) (x : Edit) (ss ss' : List Statement) : Prop :=
  ∃ same last last', ss = same ++ last ∧ ss' = same ++ last' ∧ LastStatement ts x last last'

theorem LastStatement.mono {ss ss' : List Statement} (last : LastStatement us x ss ss')
    (suffix : us <:+ ts) : LastStatement ts x ss ss' := by
  cases last with
  | none => exact .none
  | prelude name start inner => exact .prelude name start (inner.trans suffix)
  | atBlock name prelude start brace => exact .atBlock name prelude start brace
  | value name start value => exact .value name start value
  | rule selector start brace => exact .rule selector start brace

theorem Edited.mono {ss ss' : List Statement} (edited : Edited us x ss ss') (suffix : us <:+ ts) :
    Edited ts x ss ss' := by
  obtain ⟨same, last, last', rfl, rfl, differ⟩ := edited
  exact ⟨same, last, last', rfl, rfl, differ.mono suffix⟩

theorem Edited.append (ss : List Statement) {ss' ss'' : List Statement}
    (edited : Edited ts x ss' ss'') :
    Edited ts x (ss ++ ss') (ss ++ ss'') := by
  obtain ⟨same, last, last', rfl, rfl, differ⟩ := edited
  exact ⟨ss ++ same, last, last', (List.append_assoc ..).symm, (List.append_assoc ..).symm, differ⟩

theorem LastStatement.edited {ss ss' : List Statement} (last : LastStatement ts x ss ss') :
    Edited ts x ss ss' :=
  ⟨[], ss, ss', rfl, rfl, last⟩

theorem braceBody?_before (brace : x.opener.kind = .opens .brace) :
    x.before.braceBody? = some x.inside :=
  braceBody?_of_brace brace

theorem braceBody?_after (brace : x.opener.kind = .opens .brace) :
    x.after.braceBody? = some x.inside' :=
  braceBody?_of_brace brace

def statementsFrom (enters : Bool) (text : List Char) (start : Position) (c : Piece × List Tree) :
    List Statement :=
  (c.1.statement? text start).toList ++ statements enters (c.1.block?.bind (unreadOf enters)) c.2

theorem LastIn.edited {c c' : Piece × List Tree} (last : LastIn front x c c') (enters : Bool)
    (text : List Char) (start : Position)
    (later : ∀ rest unread, c.2 = rest ++ [x.before] →
      Edited (front ++ [x.before]) x (statements enters unread (rest ++ [x.before]))
        (statements enters unread (rest ++ [x.after]))) :
    Edited (front ++ [x.before]) x (statementsFrom enters text start c)
      (statementsFrom enters text start c') := by
  have none_left (unread : Option Unread) : statements enters unread [] = [] := statements_nil rfl
  cases last with
  | later piece rest => exact (later rest _ rfl).append _
  | prelude name =>
    simp only [statementsFrom, none_left, List.append_nil]
    exact (LastStatement.prelude name start (List.suffix_refl _)).edited
  | atBlock name run brace =>
    simp only [statementsFrom, none_left, List.append_nil, Piece.statement?,
      braceBody?_before brace, braceBody?_after brace]
    exact (LastStatement.atBlock name _ start brace).edited
  | value name value =>
    simp only [statementsFrom, none_left, List.append_nil]
    exact (LastStatement.value name start value).edited
  | block run brace =>
    simp only [statementsFrom, none_left, List.append_nil, Piece.statement?,
      braceBody?_before brace, braceBody?_after brace]
    exact (LastStatement.rule _ start brace).edited
  | unfinished run =>
    simp only [statementsFrom, none_left, List.append_nil]
    exact LastStatement.none.edited

theorem unreadBefore_edited (unread : Option Unread) (front : List Tree) (x : Edit) :
    unreadBefore unread (front ++ [x.after]) = unreadBefore unread (front ++ [x.before]) := by
  cases front <;> rfl

theorem statements_edited (enters : Bool) (unread : Option Unread) (front : List Tree) (x : Edit) :
    Edited (front ++ [x.before]) x (statements enters unread (front ++ [x.before]))
      (statements enters unread (front ++ [x.after])) := by
  -- Each statement is cut off the front, and the edited block stays the last tree of what is left.
  induction length : front.length using Nat.strongRecOn generalizing front unread with
  | _ n ih =>
    have before := dropWhile_last (p := isSeparator) (t := x.before) rfl front
    have after := dropWhile_last (p := isSeparator) (t := x.after) rfl front
    have suffix := List.dropWhile_suffix isSeparator (l := front)
    cases starts : front.dropWhile isSeparator with
    | nil =>
      rw [starts] at before after
      rw [statements_cut before, statements_cut after, unreadBefore_edited]
      refine ((cutOther_last [] [] x).edited enters _ _ ?_).mono (List.suffix_append front _)
      intro rest unread more
      have ended : (cutOther ([] ++ [x.before])).2 = [] := by
        rw [cutOther, List.nil_append, halt]
        split <;> rfl
      rw [ended] at more
      cases List.append_ne_nil_of_right_ne_nil _ (List.cons_ne_nil _ _) more.symm
    | cons t rest =>
      rw [starts] at before after suffix
      rw [statements_cut before, statements_cut after, unreadBefore_edited]
      have inner : rest ++ [x.before] <:+ front ++ [x.before] := by
        obtain ⟨skipped, rfl⟩ := (List.suffix_cons t rest).trans suffix
        rw [List.append_assoc]
        exact List.suffix_append _ _
      refine ((cut_last t rest x).edited enters _ _ ?_).mono inner
      intro rest' unread more
      have left := cut_suffix t (rest ++ [x.before])
      have shorter := suffix.length_le
      have shorter' := left.length_le
      rw [more] at left shorter'
      rw [List.length_append, List.length_append] at shorter'
      rw [List.length_cons] at shorter
      exact (ih _ (by omega) unread rest' rfl).mono left

/-! ### Nodes -/

theorem ofTrees_shut (shut : Shut brackets ts us) (levels : Nat) (unread : List Char) :
    Component.ofTrees levels unread us = Component.ofTrees levels unread ts := by
  induction shut generalizing levels unread with
  | none => rfl
  | last ts _ _ _ ih =>
    induction ts generalizing unread with
    | nil =>
      rw [List.nil_append, List.nil_append]
      cases levels with
      | zero =>
        rw [Component.ofTrees_block_zero, Component.ofTrees_block_zero, Component.ofTrees_nil,
          Component.ofTrees_nil]
      | succ levels =>
        rw [Component.ofTrees_block_succ, Component.ofTrees_block_succ, ih, Component.ofTrees_nil]
    | cons t ts ih' =>
      rw [List.cons_append, List.cons_append]
      cases t with
      | leaf => rw [Component.ofTrees_leaf, Component.ofTrees_leaf, ih']
      | block =>
        cases levels with
        | zero => rw [Component.ofTrees_block_zero, Component.ofTrees_block_zero, ih']
        | succ levels => rw [Component.ofTrees_block_succ, Component.ofTrees_block_succ, ih']

theorem textAll_block (opener : Token) (inside : List Tree) (closer : Option Token) :
    textAll [block opener inside closer] =
      opener.text ++ (textAll inside ++ closer.toList.flatMap Token.text) := by
  rw [textAll, toTokensAll, toTokensAll, toTokens, List.append_nil, List.flatMap_cons,
    List.flatMap_append, textAll]

theorem textAll_shut (shut : Shut brackets ts us) : textAll us = textAll ts ++ brackets := by
  induction shut with
  | none => exact (List.append_nil _).symm
  | @last brackets opener b inside inside' closer ts _ closes _ ih =>
    rw [textAll_append, textAll_append, textAll_block, textAll_block, ih, Option.toList_some,
      List.flatMap_singleton, closes]
    simp only [Option.toList_none, List.flatMap_nil, List.append_nil, List.append_assoc]

theorem textAll_suffix (suffix : us <:+ ts) : textAll us <:+ textAll ts := by
  obtain ⟨front, rfl⟩ := suffix
  rw [textAll_append]
  exact List.suffix_append _ _

/-- What becomes of the nodes of a text, or of a block at its end, when these brackets close all
that is open: nothing, or the at-rule that is still open gains those left for it. -/
inductive Closing (text : List Char) : (brackets : List Char) → (ns ns' : List Node) → Prop
  | same (brackets ns) : Closing text brackets ns ns
  | prelude {brackets run} (ns name start) (suffix : run <:+ text) :
      Closing text brackets (ns ++ [.atRule name (String.ofList (trim run)) start none])
        (ns ++ [.atRule name (String.ofList (trim (run ++ brackets))) start none])
  | rule {brackets children children'} (ns selector start)
      (inside : Closing text brackets children children') :
      Closing text (brackets ++ ['\x7d']) (ns ++ [.rule selector start children])
        (ns ++ [.rule selector start children'])
  | atRule {brackets children children'} (ns name prelude start)
      (inside : Closing text brackets children children') :
      Closing text (brackets ++ ['\x7d']) (ns ++ [.atRule name prelude start (some children)])
        (ns ++ [.atRule name prelude start (some children')])

/-- Nodes that stand before do not change. -/
theorem Closing.append {ns ns' : List Node} (closing : Closing text brackets ns ns')
    (front : List Node) :
    Closing text brackets (front ++ ns) (front ++ ns') := by
  cases closing with
  | same => exact .same _ _
  | prelude ns name start suffix =>
    rw [← List.append_assoc, ← List.append_assoc]
    exact .prelude _ name start suffix
  | rule ns selector start inside =>
    rw [← List.append_assoc, ← List.append_assoc]
    exact .rule _ selector start inside
  | atRule ns name prelude start inside =>
    rw [← List.append_assoc, ← List.append_assoc]
    exact .atRule _ name prelude start inside

theorem Edited.closing {b : Bracket} {ss ss' : List Statement} {read : List Tree → List Node}
    (edited : Edited ts x ss ss') (opens : x.opener.kind.opened? = some b)
    (shut : ∀ run, Shut (brackets ++ [b.closing]) (run ++ [x.before]) (run ++ [x.after]))
    (suffix : textAll ts <:+ text)
    (children : Closing text brackets (read x.inside) (read x.inside')) :
    Closing text (brackets ++ [b.closing]) (ss.filterMap (Statement.node? read))
      (ss'.filterMap (Statement.node? read)) := by
  obtain ⟨same, last, last', rfl, rfl, differ⟩ := edited
  rw [List.filterMap_append, List.filterMap_append]
  apply Closing.append
  have brace (kind : x.opener.kind = .opens .brace) : b.closing = '\x7d' := by
    rw [kind] at opens
    cases opens
    rfl
  cases differ with
  | none => exact .same _ _
  | @prelude name start run inner =>
    have found := (textAll_suffix inner).trans suffix
    rw [textAll_shut (shut run)]
    exact .prelude [] (String.ofList name) start found
  | atBlock name prelude start kind =>
    rw [brace kind]
    exact .atRule [] _ _ start children
  | value name start value =>
    have same : (Statement.declaration name start (value ++ [x.after])).node? read =
        (Statement.declaration name start (value ++ [x.before])).node? read := by
      simp only [Statement.node?, ofTrees_shut (shut value)]
    rw [List.filterMap_cons, List.filterMap_cons, same]
    exact .same _ _
  | rule selector start kind =>
    rw [brace kind]
    exact .rule [] _ start children

theorem statements_shut {read : List Tree → List Node} (enters : Bool) (shut : Shut brackets ts us)
    (suffix : textAll ts <:+ text)
    (children : ∀ brackets inside inside', Shut brackets inside inside' → textAll inside <:+ text →
      Closing text brackets (read inside) (read inside')) :
    Closing text brackets ((statements enters none ts).filterMap (Statement.node? read))
      ((statements enters none us).filterMap (Statement.node? read)) := by
  cases shut with
  | none => exact .same _ _
  | @last _ opener _ inside inside' closer front opens closes within =>
    have inner : textAll inside <:+ text := by
      rw [textAll_append, textAll_block] at suffix
      refine List.IsSuffix.trans ⟨textAll front ++ opener.text, ?_⟩ suffix
      rw [Option.toList_none, List.flatMap_nil, List.append_nil, List.append_assoc]
    have edited := statements_edited enters none front ⟨opener, inside, none, inside', some closer⟩
    exact edited.closing opens (fun run => .last run opens closes within) suffix
      (children _ _ _ within inner)

theorem nodes_shut (levels : Nat) (shut : Shut brackets ts us) (suffix : textAll ts <:+ text) :
    Closing text brackets (nodes levels ts) (nodes levels us) := by
  induction levels generalizing brackets ts us with
  | zero => exact statements_shut false shut suffix fun _ _ _ _ _ => .same _ []
  | succ levels ih =>
    exact statements_shut true shut suffix fun _ _ _ within inner => ih within inner

/-- Writing the brackets that close what a text leaves open does not change its nodes, but for the
prelude of an at-rule that is still open. -/
theorem parse_close (whole : EndsBetweenTokens text) :
    let brackets := (unclosedAll (ofText text)).map Bracket.closing
    Closing text brackets (parse text) (parse (text ++ brackets)) := by
  have suffix : textAll (ofText text) <:+ text := ⟨[], textAll_ofText text⟩
  exact nodes_shut maxNesting (shut_ofText whole) suffix

def cutShort : List Char := "@media all\x7ba\x7bb:c(d);@e (f[g".toList

/-- An at-rule that ends with the text, inside two blocks. -/
theorem parse_close_cutShort :
    EndsBetweenTokens cutShort ∧
      (unclosedAll (ofText cutShort)).map Bracket.closing = "])\x7d\x7d".toList ∧
      Closing cutShort "])\x7d\x7d".toList (parse cutShort)
        (parse (cutShort ++ "])\x7d\x7d".toList)) := by
  have whole : EndsBetweenTokens cutShort := by decide +kernel
  have brackets : (unclosedAll (ofText cutShort)).map Bracket.closing = "])\x7d\x7d".toList := by
    decide +kernel
  refine ⟨whole, brackets, ?_⟩
  rw [← brackets]
  exact parse_close whole

end PageLint.Stylesheet
