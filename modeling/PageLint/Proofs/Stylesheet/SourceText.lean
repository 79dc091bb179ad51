import PageLint.Proofs.Stylesheet.Contents
import PageLint.Proofs.Stylesheet.Cut

/-!
# Selectors and preludes are source text

`parse_source` says of every node which part of the source its selector or prelude is. A function or
a block that comes last is quoted only up to its opening bracket: `headings_cut_short` has examples.
The inside of a block that is too deep to be entered counts as a part of the statement that follows
it.
-/

namespace PageLint.Stylesheet

open Text Stylesheet.Tree

inductive Within : (ts : List Tree) → (depth : Nat) → (contents : List Tree) → Prop
  | here (ts) : Within ts 0 ts
  | inside {ts opener inside closer depth contents} (member : block opener inside closer ∈ ts)
      (brace : opener.kind = .opens .brace) (deeper : Within inside depth contents) :
      Within ts (depth + 1) contents

/-- A statement of `ts` starts with `t`. Before it stands `front`, and `after` follows `t`. -/
inductive Begins : (ts front : List Tree) → (t : Tree) → (after : List Tree) → Prop
  | here {t after} (no_separator : t.isSeparator = false) : Begins (t :: after) [] t after
  | separator {s ts front t after} (separates : s.isSeparator = true)
      (later : Begins ts front t after) :
      Begins (s :: ts) (s :: front) t after
  | statement {s taken rest read front t after} (reads : Reads s (taken ++ rest) read rest)
      (later : Begins rest front t after) :
      Begins (s :: (taken ++ rest)) (s :: (taken ++ front)) t after

/-- What is left unread where `front` has been read since `unread` was left: the inside of a block
that comes last and is not entered. -/
def leftAfter (enters : Bool) (unread : Option Unread) (front : List Tree) : Option Unread :=
  if front.isEmpty then unread else (front.getLast?.filter isBraceBlock).bind (unreadOf enters)

/-- A node has the texts and the position of the statement that starts with `t` where `unread` is
left before it. -/
inductive Quotes (unread : Option Unread) (t : Tree) (after : List Tree) : Node → Prop
  | rule {run opener inside closer rest children} (other : Other t after)
      (split : t :: after = run ++ block opener inside closer :: rest)
      (unended : ∀ t ∈ run, t.endsRun = false) (brace : opener.kind = .opens .brace) :
      Quotes unread t after
        (.rule (String.ofList (trim (readText (unread.elim [] Unread.text) run)))
          (unread.elim t.first.start Unread.position) children)
  | atBlock {name token run opener inside closer rest children} (keyword : t = leaf token)
      (kind : token.kind = .atKeyword name)
      (split : after = run ++ block opener inside closer :: rest)
      (unended : ∀ t ∈ run, t.endsRun = false) (brace : opener.kind = .opens .brace) :
      Quotes unread t after
        (.atRule (String.ofList name) (String.ofList (trim (readText [] run)))
          (unread.elim t.first.start Unread.position) (some children))
  | atSemicolon {name token run stop rest} (keyword : t = leaf token)
      (kind : token.kind = .atKeyword name) (split : after = run ++ stop :: rest)
      (unended : ∀ t ∈ run, t.endsRun = false) (semicolon : stop.isSemicolon = true) :
      Quotes unread t after
        (.atRule (String.ofList name) (String.ofList (trim (readText [] run)))
          (unread.elim t.first.start Unread.position) none)
  | atEnd {name token} (keyword : t = leaf token) (kind : token.kind = .atKeyword name)
      (unended : ∀ t ∈ after, t.endsRun = false) :
      Quotes unread t after
        (.atRule (String.ofList name) (String.ofList (trim (textAll after)))
          (unread.elim t.first.start Unread.position) none)
  | declaration (d) : Quotes unread t after (.declaration d)

variable {enters : Bool} {unread : Option Unread} {t last : Tree}
  {ts us front after run : List Tree}

/-! ### What is cut off -/

theorem readText_getLast (unread : List Char) (nonempty : run.getLast? = some last) :
    readText unread run ++ last.innerText = unread ++ textAll run := by
  have text : last.text = last.first.text ++ last.innerText := by
    cases last with
    | leaf token => rw [Tree.text, toTokens, List.flatMap_singleton]; exact (List.append_nil _).symm
    | block => rfl
  obtain ⟨front, rfl⟩ := List.getLast?_eq_some_iff.mp nonempty
  have single : textAll [last] = last.text := by
    rw [textAll, toTokensAll, toTokensAll, List.append_nil]
    rfl
  rw [readText, List.getLast?_concat, textAll_append, single, text]
  dsimp only
  rw [List.dropLast_concat]
  simp only [List.append_assoc]

theorem reads_cut (no_separator : t.isSeparator = false) (ts : List Tree) :
    Reads t ts ((cut t ts).1.statement? [] t.first.start) (cut t ts).2 := by
  obtain ⟨read, rest, reads⟩ := reads_exist no_separator ts
  have found := readStatement_of_reads reads (.inl rfl)
  rw [readStatement_eq] at found
  obtain ⟨statement, others⟩ := Prod.mk.inj found
  rw [← statement, ← (Prod.mk.inj others).2] at reads
  exact reads

theorem reads_later {taken : List Tree} (no_separator : t.isSeparator = false)
    (split : ts = taken ++ (cut t ts).2) (later : Begins (cut t ts).2 front last after) :
    Begins (t :: ts) (t :: (taken ++ front)) last after := by
  have reads := reads_cut no_separator ts
  generalize (cut t ts).2 = rest at split reads later
  rw [split] at reads ⊢
  exact .statement reads later

theorem isBraceBlock_of_unended (unended : t.endsRun = false) : t.isBraceBlock = false :=
  (Bool.or_eq_false_iff.mp unended).2

theorem filter_getLast? (no_brace : ∀ t ∈ run, t.isBraceBlock = false) :
    run.getLast?.filter isBraceBlock = none := by
  cases found : run.getLast? with
  | none => rfl
  | some last =>
    have member := List.mem_of_getLast? found
    rw [Option.filter, no_brace last member]
    rfl

/-- The block in braces that ends a statement is the last tree it takes. -/
theorem cut_taken (t : Tree) (ts : List Tree) :
    ∃ taken, ts = taken ++ (cut t ts).2 ∧
      (t :: taken).getLast?.filter isBraceBlock = (cut t ts).1.block? := by
  have run : ∀ t ∈ (halt endsRun ts).1, t.isBraceBlock = false :=
    fun t member => isBraceBlock_of_unended (halt_unended endsRun ts t member)
  have ways := cuts t ts
  generalize cut t ts = result at ways
  cases ways with
  | @atRule name token keyword =>
    subst keyword
    refine ⟨(halt endsRun ts).1 ++ (halt endsRun ts).2.1.toList, ?_, ?_⟩
    · rw [List.append_assoc, halt_split]
    · rw [Piece.block?]
      cases stop : (halt endsRun ts).2.1 with
      | none =>
        rw [Option.toList_none, List.append_nil]
        exact filter_getLast? (List.forall_mem_cons.mpr ⟨rfl, run⟩)
      | some stop =>
        rw [Option.toList_some, ← List.cons_append, List.getLast?_concat]
        rfl
  | @declaration name token value rest leads found =>
    subst leads
    obtain ⟨taken, split, no_brace⟩ := value?_taken found
    exact ⟨taken, split, filter_getLast? (List.forall_mem_cons.mpr ⟨rfl, no_brace⟩)⟩
  | other =>
    unfold cutOther Piece.block?
    rw [halt]
    split
    · exact ⟨[], rfl, rfl⟩
    · rename_i unended
      refine ⟨(halt endsRun ts).1 ++ (halt endsRun ts).2.1.toList, ?_, ?_⟩
      · rw [List.append_assoc, halt_split]
      · cases stop : (halt endsRun ts).2.1 with
        | none =>
          have first := isBraceBlock_of_unended (Bool.eq_false_iff.mpr unended)
          rw [Option.toList_none, List.append_nil]
          exact filter_getLast? (List.forall_mem_cons.mpr ⟨first, run⟩)
        | some stop =>
          rw [Option.toList_some, ← List.cons_append, List.getLast?_concat]
          rfl

/-! ### Where statements begin -/

theorem isBraceBlock_of_separator (separates : t.isSeparator = true) : t.isBraceBlock = false := by
  cases t with
  | leaf => rfl
  | block => cases separates

theorem begins_after {inner : List Tree} (starts : ts.dropWhile isSeparator = t :: after)
    (later : Begins (t :: after) inner last us) :
    Begins ts (ts.takeWhile isSeparator ++ inner) last us := by
  induction ts with
  | nil => cases starts
  | cons s ts ih =>
    rw [List.dropWhile_cons] at starts
    rw [List.takeWhile_cons]
    split at starts
    · rename_i separates
      rw [if_pos separates]
      exact .separator separates (ih starts)
    · rename_i no_separator
      rw [if_neg no_separator, starts]
      exact later

theorem unreadBefore_eq (enters : Bool) (unread : Option Unread) (ts : List Tree) :
    unreadBefore unread ts = leftAfter enters unread (ts.takeWhile isSeparator) := by
  rw [unreadBefore, leftAfter]
  cases ts with
  | nil => rfl
  | cons t ts =>
    rw [List.head?_cons, Option.any_some, List.takeWhile_cons]
    split
    · have no_brace : ∀ t' ∈ t :: ts.takeWhile isSeparator, t'.isBraceBlock = false := by
        rename_i separates
        refine List.forall_mem_cons.mpr ⟨isBraceBlock_of_separator separates, ?_⟩
        intro t' member
        exact isBraceBlock_of_separator (List.mem_takeWhile_imp member)
      rw [filter_getLast? no_brace]
      rfl
    · rfl

theorem leftAfter_append (enters : Bool) (unread : Option Unread) (skipped taken front : List Tree)
    (t : Tree) :
    leftAfter enters unread (skipped ++ t :: (taken ++ front)) =
      leftAfter enters (((t :: taken).getLast?.filter isBraceBlock).bind (unreadOf enters))
        front := by
  have nonempty : (skipped ++ t :: (taken ++ front)).isEmpty = false := by
    cases skipped <;> rfl
  have last :
      (skipped ++ t :: (taken ++ front)).getLast? = front.getLast?.or (t :: taken).getLast? := by
    rw [← List.cons_append, List.getLast?_append, List.getLast?_append, Option.or_assoc,
      List.getLast?_cons, Option.some_or]
  rw [leftAfter, leftAfter, nonempty, last]
  cases front with
  | nil => rfl
  | cons first front =>
    rw [List.getLast?_cons]
    rfl

/-- Every statement is read where the grammar has one begin. -/
theorem statements_begin {s : Statement} (member : s ∈ statements enters unread ts) :
    ∃ front t after, Begins ts front t after ∧
      (cut t after).1.statement? ((leftAfter enters unread front).elim [] Unread.text)
        ((leftAfter enters unread front).elim t.first.start Unread.position) = some s := by
  induction ts using statements_induction generalizing unread with
  | finished ts finished =>
    rw [statements_nil finished] at member
    cases member
  | statement ts t rest starts ih =>
    have no_separator := of_dropWhile_cons starts
    rw [statements_cut starts, unreadBefore_eq enters] at member
    rcases List.mem_append.mp member with here | later
    · refine ⟨_, t, rest, begins_after starts (.here no_separator), ?_⟩
      rw [List.append_nil]
      exact Option.mem_toList.mp here
    · obtain ⟨front, t', after, begins, found⟩ := ih later
      obtain ⟨taken, split, last⟩ := cut_taken t rest
      refine ⟨_, t', after, begins_after starts (reads_later no_separator split begins), ?_⟩
      rw [leftAfter_append, last]
      exact found

/-! ### Nodes -/

theorem Reads.other {selector : List Char} {start : Position} {body rest : List Tree}
    (reads : Reads t after (some (.rule selector start body)) rest) : Other t after := by
  cases reads with
  | rule other => exact other

theorem quotes_cut {s : Statement} {n : Node} {read : List Tree → List Node}
    (no_separator : t.isSeparator = false)
    (found : (cut t after).1.statement? (unread.elim [] Unread.text)
      (unread.elim t.first.start Unread.position) = some s)
    (node : s.node? read = some n) : Quotes unread t after n := by
  have reads := reads_cut no_separator after
  have ways := cuts t after
  generalize cut t after = result at reads ways found
  cases ways with
  | atRule keyword kind =>
    obtain ⟨run, stop, rest, runs⟩ := runs_exist after
    rw [halt_of_runs runs] at found
    cases runs with
    | atEnd unended =>
      cases found
      cases node
      exact .atEnd keyword kind unended
    | atBlock split unended brace =>
      cases found
      rw [Statement.node?, braceBody?_of_brace brace] at node
      cases node
      exact .atBlock keyword kind split unended brace
    | atSemicolon split unended semicolon =>
      cases found
      rw [Statement.node?, braceBody?_of_semicolon semicolon] at node
      cases node
      exact .atSemicolon keyword kind split unended semicolon
  | declaration =>
    cases found
    cases node
    exact .declaration _
  | other =>
    obtain ⟨run, stop, rest, runs⟩ := runs_exist (t :: after)
    rw [cutOther, halt_of_runs runs] at found reads
    cases runs with
    | atEnd => cases found
    | atBlock split unended brace =>
      cases found
      rw [braceBody?_of_brace brace] at node
      cases node
      rw [Piece.statement?, braceBody?_of_brace brace] at reads
      exact .rule reads.other split unended brace
    | atSemicolon _ _ semicolon =>
      cases found
      rw [braceBody?_of_semicolon semicolon] at node
      cases node

/-- A node of a tree is at its top or below a node there. -/
theorem mem_walk {n : Node} {ns : List Node} (member : n ∈ Node.walk ns) :
    ∃ m ∈ ns, n = m ∨ n ∈ Node.walk m.children := by
  induction ns with
  | nil =>
    rw [Node.walk] at member
    cases member
  | cons m ns ih =>
    rw [Node.walk, Node.walk_append] at member
    rcases List.mem_cons.mp member with rfl | member
    · exact ⟨n, List.mem_cons_self, .inl rfl⟩
    rcases List.mem_append.mp member with below | later
    · exact ⟨m, List.mem_cons_self, .inr below⟩
    · obtain ⟨m', member, found⟩ := ih later
      exact ⟨m', List.mem_cons_of_mem _ member, found⟩

theorem Within.deeper {depth : Nat} {contents body : List Tree} {opener : Token}
    {closer : Option Token}
    (within : Within ts depth contents) (member : block opener body closer ∈ contents)
    (brace : opener.kind = .opens .brace) : Within ts (depth + 1) body := by
  induction within with
  | here => exact .inside member brace (.here body)
  | inside outer brace' _ ih => exact .inside outer brace' (ih member)

def Quoted (ts : List Tree) (n : Node) : Prop :=
  ∃ depth contents front t after, Within ts depth contents ∧ Begins contents front t after ∧
    Quotes (leftAfter (depth != maxNesting) none front) t after n

theorem Begins.no_separator (begins : Begins ts front t after) : t.isSeparator = false := by
  induction begins with
  | here no_separator => exact no_separator
  | separator _ _ ih => exact ih
  | statement _ _ ih => exact ih

theorem not_mem_walk_nil {n : Node} : n ∉ Node.walk [] := by
  rw [Node.walk]
  exact List.not_mem_nil

/-- What is below the node of a statement was read from the statement's block. -/
theorem below_node? {s : Statement} {m n : Node} {read : List Tree → List Node}
    (node : s.node? read = some m) (below : n ∈ Node.walk m.children) :
    ∃ body, s.body? = some body ∧ n ∈ Node.walk (read body) := by
  cases s with
  | atRule name prelude start body =>
    cases node
    cases body with
    | none => exact absurd below not_mem_walk_nil
    | some body => exact ⟨body, rfl, below⟩
  | rule selector start body =>
    cases node
    exact ⟨body, rfl, below⟩
  | declaration =>
    cases node
    exact absurd below not_mem_walk_nil
  | dropped => cases node

theorem statement_quoted {s : Statement} {n : Node} {read : List Tree → List Node} {depth : Nat}
    {contents : List Tree} (within : Within ts depth contents)
    (member : s ∈ statements (depth != maxNesting) none contents) (node : s.node? read = some n) :
    Quoted ts n := by
  obtain ⟨front, t, after, begins, found⟩ := statements_begin member
  exact ⟨depth, contents, front, t, after, within, begins,
    quotes_cut begins.no_separator found node⟩

/-- What holds of the node of each statement, in a block at any depth, holds of all nodes. -/
theorem forall_mem_nodes {holds : Node → Prop}
    (each : ∀ {depth contents s n read}, Within ts depth contents →
      s ∈ statements (depth != maxNesting) none contents → s.node? read = some n → holds n)
    {levels depth : Nat} {contents : List Tree} (deep : depth + levels = maxNesting)
    (within : Within ts depth contents) : ∀ n ∈ Node.walk (nodes levels contents), holds n := by
  induction levels generalizing depth contents with
  | zero =>
    intro n member
    obtain ⟨m, top, place⟩ := mem_walk member
    obtain ⟨s, found, node⟩ := List.mem_filterMap.mp top
    have enters : (depth != maxNesting) = false := by rw [← deep, Nat.add_zero, bne_self_eq_false]
    rw [← enters] at found
    rcases place with rfl | below
    · exact each within found node
    · obtain ⟨_, _, below⟩ := below_node? node below
      exact absurd below not_mem_walk_nil
  | succ levels ih =>
    intro n member
    obtain ⟨m, top, place⟩ := mem_walk member
    obtain ⟨s, found, node⟩ := List.mem_filterMap.mp top
    have enters : (depth != maxNesting) = true := bne_iff_ne.mpr (by omega)
    rcases place with rfl | below
    · rw [← enters] at found
      exact each within found node
    · obtain ⟨body, has_body, below⟩ := below_node? node below
      obtain ⟨opener, closer, brace, block⟩ := (statements_iff.mpr rfl).body_inside found has_body
      exact ih (by omega) (within.deeper block brace) n below

/-- Every node of a text, at any depth, quotes the source of a statement of the grammar. Its
selector or prelude is the text of the units before the block or the `;` that ends it, but for the
last of them: of a function or a block only the opening bracket is quoted. -/
theorem parse_source (text : List Char) :
    textAll (ofText text) = text ∧
      (∀ unread run last, run.getLast? = some last →
        readText unread run ++ last.innerText = unread ++ textAll run) ∧
      ∀ n ∈ Node.walk (parse text), Quoted (ofText text) n :=
  ⟨textAll_ofText text, fun unread _ _ => readText_getLast unread,
    forall_mem_nodes statement_quoted (Nat.zero_add maxNesting) (.here _)⟩

def Node.heading? : Node → Option String
  | rule selector _ _ => some selector
  | atRule _ prelude _ _ => some prelude
  | declaration _ => none

def notText : List Char := "@media all\x7ba:not(.b)\x7bc:d\x7d\x7d".toList

theorem parse_source_not :
    ∃ n ∈ Node.walk (parse notText), n.heading? = some "a:not(" ∧ Quoted (ofText notText) n := by
  have found : (Node.walk (parse notText)).any (·.heading? == some "a:not(") = true := by
    decide +kernel
  obtain ⟨n, member, heading⟩ := List.any_eq_true.mp found
  obtain ⟨_, _, quoted⟩ := parse_source notText
  exact ⟨n, member, eq_of_beq heading, quoted n member⟩

/-- Of `:not(.b)`, `(max-width:600px)` and `url("a.css")` only the start is quoted. -/
theorem headings_cut_short :
    (parse "a:not(.b)\x7b\x7d".toList).map Node.heading? = [some "a:not("] ∧
      (parse "@media (max-width:600px)\x7b\x7d".toList).map Node.heading? = [some "("] ∧
      (parse "@import url(\"a.css\");".toList).map Node.heading? = [some "url("] := by
  decide +kernel

end PageLint.Stylesheet
