import Mathlib.Data.List.TakeWhile
import PageLint.Stylesheet.Statement

/-!
# The grammar of statements

`Statements` gives the statements of a stylesheet or a block by rules: what each kind of statement
starts with, how far it runs and what ends it. `statements_iff` says that reading finds exactly
these, although it first tries every name as a declaration and starts over where that fails.
-/

namespace PageLint.Stylesheet

open Text Stylesheet.Tree

/-- What follows a property name is the rest of a declaration: a colon and a value up to its end.
What comes after that is `rest`. -/
inductive Declares : (ts value rest : List Tree) → Prop
  | ended {spaces colon value stop rest} (blank : ∀ t ∈ spaces, t.isSpace = true)
      (is_colon : colon.kind = .colon) (unended : ∀ t ∈ value, t.endsValue = false)
      (stops : stop.isSemicolon = true ∨ stop.isStrayBrace = true) :
      Declares (spaces ++ leaf colon :: (value ++ stop :: rest)) value rest
  | last {spaces colon value} (blank : ∀ t ∈ spaces, t.isSpace = true)
      (is_colon : colon.kind = .colon) (unended : ∀ t ∈ value, t.endsValue = false) :
      Declares (spaces ++ leaf colon :: value) value []

/-- A statement starts with `t` that is neither an at-rule nor a declaration. -/
structure Other (t : Tree) (ts : List Tree) : Prop where
  no_separator : t.isSeparator = false
  no_atRule : ∀ name word start, t ≠ leaf ⟨.atKeyword name, word, start⟩
  no_declaration : ∀ name word start, t = leaf ⟨.ident name, word, start⟩ →
    ∀ value rest, ¬ Declares ts value rest

/-- A statement starts with `t` and goes on in `ts`, and `rest` comes after it. It is `none` if the
end comes before what would make a statement of it. -/
inductive Reads : (t : Tree) → (ts : List Tree) → Option Statement → (rest : List Tree) → Prop
  | atBlock {name word start run opener inside closer rest} (unended : ∀ t ∈ run, t.endsRun = false)
      (brace : opener.kind = .opens .brace) :
      Reads (leaf ⟨.atKeyword name, word, start⟩) (run ++ block opener inside closer :: rest)
        (some (.atRule name (trim (readText [] run)) start (some inside))) rest
  | atSemicolon {name word start run stop rest} (unended : ∀ t ∈ run, t.endsRun = false)
      (semicolon : stop.isSemicolon = true) :
      Reads (leaf ⟨.atKeyword name, word, start⟩) (run ++ stop :: rest)
        (some (.atRule name (trim (readText [] run)) start none)) rest
  | atEnd {name word start run} (unended : ∀ t ∈ run, t.endsRun = false) :
      Reads (leaf ⟨.atKeyword name, word, start⟩) run
        (some (.atRule name (trim (textAll run)) start none)) []
  | declaration {name word start ts value rest} (declares : Declares ts value rest) :
      Reads (leaf ⟨.ident name, word, start⟩) ts (some (.declaration name start value)) rest
  | rule {t ts run opener inside closer rest} (other : Other t ts)
      (split : t :: ts = run ++ block opener inside closer :: rest)
      (unended : ∀ t ∈ run, t.endsRun = false) (brace : opener.kind = .opens .brace) :
      Reads t ts (some (.rule (trim (readText [] run)) t.first.start inside)) rest
  | dropped {t ts run stop rest} (other : Other t ts) (split : t :: ts = run ++ stop :: rest)
      (unended : ∀ t ∈ run, t.endsRun = false) (semicolon : stop.isSemicolon = true) :
      Reads t ts (some (.dropped (trim (readText [] run)) t.first.start)) rest
  | unfinished {t ts} (other : Other t ts) (unended : ∀ t' ∈ t :: ts, t'.endsRun = false) :
      Reads t ts none []

inductive Statements : List Tree → List Statement → Prop
  | done : Statements [] []
  | separator {t ts ss} (separates : t.isSeparator = true) (others : Statements ts ss) :
      Statements (t :: ts) ss
  | statement {t ts read rest ss} (reads : Reads t ts read rest) (others : Statements rest ss) :
      Statements (t :: ts) (read.toList ++ ss)

/-- A rule or an at-rule runs on in `ts` up to `stop`, or to the end. -/
inductive Runs (ts : List Tree) :
    (run : List Tree) → (stop : Option Tree) → (rest : List Tree) → Prop
  | atEnd (unended : ∀ t ∈ ts, t.endsRun = false) : Runs ts ts none []
  | atBlock {run opener inside closer rest} (split : ts = run ++ block opener inside closer :: rest)
      (unended : ∀ t ∈ run, t.endsRun = false) (brace : opener.kind = .opens .brace) :
      Runs ts run (some (block opener inside closer)) rest
  | atSemicolon {run stop rest} (split : ts = run ++ stop :: rest)
      (unended : ∀ t ∈ run, t.endsRun = false) (semicolon : stop.isSemicolon = true) :
      Runs ts run (some stop) rest

variable {ends : Tree → Bool} {t stop : Tree} {run ts value rest : List Tree} {enters : Bool}
  {name : List Char} {start : Position}

/-! ### Runs -/

theorem takeWhile_run (unended : ∀ t ∈ run, ends t = false) (ended : ends stop = true) :
    (run ++ stop :: rest).takeWhile (!ends ·) = run := by
  have pass : ∀ t ∈ run, (!ends t) = true := fun t member => by rw [unended t member]; rfl
  rw [List.takeWhile_append_of_pos pass, List.takeWhile_cons, ended]
  exact List.append_nil run

theorem dropWhile_run (unended : ∀ t ∈ run, ends t = false) (ended : ends stop = true) :
    (run ++ stop :: rest).dropWhile (!ends ·) = stop :: rest := by
  have pass : ∀ t ∈ run, (!ends t) = true := fun t member => by rw [unended t member]; rfl
  rw [List.dropWhile_append_of_pos pass, List.dropWhile_cons, ended]
  rfl

theorem takeWhile_unended (unended : ∀ t ∈ run, ends t = false) :
    run.takeWhile (!ends ·) = run :=
  List.takeWhile_eq_self_iff.mpr fun t member => by rw [unended t member]; rfl

theorem dropWhile_unended (unended : ∀ t ∈ run, ends t = false) :
    run.dropWhile (!ends ·) = [] :=
  List.dropWhile_eq_nil_iff.mpr fun t member => by rw [unended t member]; rfl

theorem cut_run (ends : Tree → Bool) (ts : List Tree) :
    (∀ t ∈ ts, ends t = false) ∨
      ∃ run stop rest, ts = run ++ stop :: rest ∧ (∀ t ∈ run, ends t = false) ∧ ends stop = true := by
  cases found : ts.find? ends with
  | none =>
    refine .inl fun t member => ?_
    exact Bool.eq_false_iff.mpr (List.find?_eq_none.mp found t member)
  | some stop =>
    obtain ⟨ended, run, rest, split, unended⟩ := List.find?_eq_some_iff_append.mp found
    refine .inr ⟨run, stop, rest, split, fun t member => ?_, ended⟩
    exact Bool.not_eq_true' _ ▸ unended t member

/-! ### What ends a run -/

theorem endsRun_of_brace {opener : Token} (brace : opener.kind = .opens .brace)
    (inside : List Tree) (closer : Option Token) : (block opener inside closer).endsRun = true := by
  simp only [endsRun, isBraceBlock, brace, beq_self_eq_true, Bool.or_true]

theorem endsRun_of_semicolon (semicolon : stop.isSemicolon = true) : stop.endsRun = true := by
  rw [endsRun, semicolon, Bool.true_or]

theorem braceBody?_of_brace {opener : Token} {inside : List Tree} {closer : Option Token}
    (brace : opener.kind = .opens .brace) :
    (block opener inside closer).braceBody? = some inside := by
  simp only [braceBody?, isBraceBlock, brace, beq_self_eq_true, if_true]

theorem isBraceBlock_of_semicolon (semicolon : stop.isSemicolon = true) :
    stop.isBraceBlock = false := by
  cases stop with
  | leaf => rfl
  | block => cases semicolon

theorem braceBody?_of_semicolon (semicolon : stop.isSemicolon = true) : stop.braceBody? = none := by
  cases stop with
  | leaf => rfl
  | block => cases semicolon

theorem endsRun_cases (ended : stop.endsRun = true) :
    (∃ opener inside closer, stop = block opener inside closer ∧ opener.kind = .opens .brace) ∨
      stop.isSemicolon = true := by
  rcases Bool.or_eq_true_iff.mp ended with semicolon | brace
  · exact .inr semicolon
  · cases stop with
    | leaf => cases brace
    | block opener inside closer => exact .inl ⟨opener, inside, closer, rfl, eq_of_beq brace⟩

theorem runs_exist (ts : List Tree) : ∃ run stop rest, Runs ts run stop rest := by
  rcases cut_run endsRun ts with unended | ⟨run, stop, rest, split, unended, ended⟩
  · exact ⟨ts, none, [], .atEnd unended⟩
  · rcases endsRun_cases ended with ⟨opener, inside, closer, rfl, brace⟩ | semicolon
    · exact ⟨run, _, rest, .atBlock split unended brace⟩
    · exact ⟨run, _, rest, .atSemicolon split unended semicolon⟩

/-! ### Declarations -/

theorem isSpace_of_colon {colon : Token} (is_colon : colon.kind = .colon) :
    (leaf colon).isSpace = false := by
  rw [isSpace, is_colon]
  rfl

theorem dropWhile_spaces {spaces : List Tree} {colon : Token}
    (blank : ∀ t ∈ spaces, t.isSpace = true) (is_colon : colon.kind = .colon) (ts : List Tree) :
    (spaces ++ leaf colon :: ts).dropWhile isSpace = leaf colon :: ts := by
  rw [List.dropWhile_append_of_pos blank, List.dropWhile_cons, isSpace_of_colon is_colon,
    if_neg Bool.false_ne_true]

theorem endsValue_of_stops (stops : stop.isSemicolon = true ∨ stop.isStrayBrace = true) :
    stop.endsValue = true ∧ stop.isBraceBlock = false := by
  cases stop with
  | leaf token =>
    refine ⟨?_, rfl⟩
    rcases stops with semicolon | stray
    · rw [endsValue, semicolon, Bool.true_or, Bool.true_or]
    · rw [endsValue, stray, Bool.or_true, Bool.true_or]
  | block =>
    rcases stops with semicolon | stray
    · cases semicolon
    · cases stray

theorem readDeclaration?_of_declares (declares : Declares ts value rest) :
    readDeclaration? name start ts = some (.declaration name start value, rest) := by
  cases declares with
  | ended blank is_colon unended stops =>
    obtain ⟨ended, no_brace⟩ := endsValue_of_stops stops
    rw [readDeclaration?, dropWhile_spaces blank is_colon]
    simp only [is_colon, beq_self_eq_true, if_true, dropWhile_run unended ended,
      takeWhile_run unended ended, List.head?_cons, Option.any_some, no_brace, Bool.false_eq_true,
      if_false, List.drop_one, List.tail_cons]
  | last blank is_colon unended =>
    rw [readDeclaration?, dropWhile_spaces blank is_colon]
    simp only [is_colon, beq_self_eq_true, if_true, dropWhile_unended unended,
      takeWhile_unended unended, List.head?_nil, Option.any_none, Bool.false_eq_true, if_false,
      List.drop_nil]

theorem declares_of_readDeclaration? {r : Statement × List Tree}
    (read : readDeclaration? name start ts = some r) : ∃ value rest, Declares ts value rest := by
  unfold readDeclaration? at read
  split at read
  · rename_i colon after cut
    have blank : ∀ t ∈ ts.takeWhile isSpace, t.isSpace = true := fun t => List.mem_takeWhile_imp
    have split : ts = ts.takeWhile isSpace ++ leaf colon :: after := by
      rw [← cut, List.takeWhile_append_dropWhile]
    rw [split]
    split at read
    · rename_i is_colon
      have is_colon := eq_of_beq is_colon
      rcases cut_run endsValue after with unended | ⟨value, stop, rest, rfl, unended, ended⟩
      · exact ⟨after, [], .last blank is_colon unended⟩
      · refine ⟨value, rest, .ended blank is_colon unended ?_⟩
        simp only [dropWhile_run unended ended, List.head?_cons, Option.any_some] at read
        split at read
        · cases read
        · rename_i no_brace
          rw [endsValue, Bool.eq_false_iff.mpr no_brace, Bool.or_false] at ended
          exact Bool.or_eq_true_iff.mp ended
    · cases read
  · cases read

theorem readDeclaration?_eq_none (none : ∀ value rest, ¬ Declares ts value rest) :
    readDeclaration? name start ts = .none := by
  cases read : readDeclaration? name start ts with
  | none => rfl
  | some r =>
    obtain ⟨value, rest, declares⟩ := declares_of_readDeclaration? read
    exact absurd declares (none value rest)

/-! ### One statement -/

def Statement.body? : Statement → Option (List Tree)
  | atRule _ _ _ body => body
  | rule _ _ body => some body
  | declaration .. => none
  | dropped .. => none

theorem readStatement_other (other : Other t ts) :
    readStatement enters none t ts = readRule enters none t.first.start (t :: ts) := by
  unfold readStatement
  split
  · rename_i name word start
    exact absurd rfl (other.no_atRule name word start)
  · rename_i name word start
    dsimp only
    rw [readDeclaration?_eq_none (other.no_declaration name word start rfl)]
    rfl
  · rfl

theorem readRule_block {opener : Token} {inside : List Tree} {closer : Option Token}
    (unended : ∀ t ∈ run, t.endsRun = false) (brace : opener.kind = .opens .brace) :
    readRule enters none start (run ++ block opener inside closer :: rest) =
      (some (.rule (trim (readText [] run)) start inside),
        unreadOf enters (block opener inside closer), rest) := by
  have ended := endsRun_of_brace brace inside closer
  unfold readRule
  simp only [takeWhile_run unended ended, dropWhile_run unended ended, braceBody?_of_brace brace]
  rfl

theorem readRule_semicolon (unended : ∀ t ∈ run, t.endsRun = false)
    (semicolon : stop.isSemicolon = true) :
    readRule enters none start (run ++ stop :: rest) =
      (some (.dropped (trim (readText [] run)) start), none, rest) := by
  have ended := endsRun_of_semicolon semicolon
  unfold readRule
  simp only [takeWhile_run unended ended, dropWhile_run unended ended,
    braceBody?_of_semicolon semicolon]
  rfl

theorem readRule_unended (unended : ∀ t ∈ run, t.endsRun = false) :
    readRule enters none start run = (none, none, []) := by
  unfold readRule
  simp only [dropWhile_unended unended]

theorem readAtRule_block {opener : Token} {inside : List Tree} {closer : Option Token}
    (unended : ∀ t ∈ run, t.endsRun = false) (brace : opener.kind = .opens .brace) :
    readAtRule enters name start (run ++ block opener inside closer :: rest) =
      (.atRule name (trim (readText [] run)) start (some inside),
        unreadOf enters (block opener inside closer), rest) := by
  have ended := endsRun_of_brace brace inside closer
  have is_brace : (block opener inside closer).isBraceBlock = true := beq_iff_eq.mpr brace
  unfold readAtRule
  simp only [takeWhile_run unended ended, dropWhile_run unended ended, is_brace, if_true,
    braceBody?_of_brace brace]

theorem readAtRule_semicolon (unended : ∀ t ∈ run, t.endsRun = false)
    (semicolon : stop.isSemicolon = true) :
    readAtRule enters name start (run ++ stop :: rest) =
      (.atRule name (trim (readText [] run)) start none, none, rest) := by
  have ended := endsRun_of_semicolon semicolon
  unfold readAtRule
  simp only [takeWhile_run unended ended, dropWhile_run unended ended,
    isBraceBlock_of_semicolon semicolon, Bool.false_eq_true, if_false,
    braceBody?_of_semicolon semicolon]

theorem readAtRule_unended (unended : ∀ t ∈ run, t.endsRun = false) :
    readAtRule enters name start run = (.atRule name (trim (textAll run)) start none, none, []) := by
  unfold readAtRule
  simp only [dropWhile_unended unended, takeWhile_unended unended]

theorem unreadOf_entered {body : List Tree} (entered : enters = true ∨ some body = none) :
    unreadOf enters t = none := by
  rcases entered with rfl | body
  · rfl
  · cases body

/-- Reading gives the statement of the grammar. Where blocks are not entered that is so only of
statements that have none. -/
theorem readStatement_of_reads {read : Option Statement} (reads : Reads t ts read rest)
    (entered : enters = true ∨ read.bind Statement.body? = none) :
    readStatement enters none t ts = (read, none, rest) := by
  cases reads with
  | atBlock unended brace =>
    simp only [readStatement, readAtRule_block unended brace, unreadOf_entered entered]
    rfl
  | atSemicolon unended semicolon =>
    simp only [readStatement, readAtRule_semicolon unended semicolon]
    rfl
  | atEnd unended =>
    simp only [readStatement, readAtRule_unended unended]
    rfl
  | declaration declares =>
    simp only [readStatement, readDeclaration?_of_declares declares]
    rfl
  | rule other split unended brace =>
    rw [readStatement_other other, split, readRule_block unended brace, unreadOf_entered entered]
  | dropped other split unended semicolon =>
    rw [readStatement_other other, split, readRule_semicolon unended semicolon]
  | unfinished other unended =>
    rw [readStatement_other other, readRule_unended unended]

theorem Reads.no_separator {read : Option Statement} (reads : Reads t ts read rest) :
    t.isSeparator = false := by
  cases reads with
  | atBlock => rfl
  | atSemicolon => rfl
  | atEnd => rfl
  | declaration => rfl
  | rule other => exact other.no_separator
  | dropped other => exact other.no_separator
  | unfinished other => exact other.no_separator

theorem suffix_of_run (run : List Tree) (stop : Tree) (rest : List Tree) :
    rest <:+ run ++ stop :: rest :=
  (List.suffix_cons stop rest).trans (List.suffix_append run (stop :: rest))

theorem suffix_of_split (split : t :: ts = run ++ stop :: rest) : rest <:+ ts := by
  cases run with
  | nil =>
    obtain ⟨rfl, rfl⟩ := List.cons.inj split
    exact List.suffix_refl ts
  | cons first run =>
    obtain ⟨rfl, rfl⟩ := List.cons.inj split
    exact suffix_of_run run stop rest

theorem Declares.rest_suffix (declares : Declares ts value rest) : rest <:+ ts := by
  cases declares with
  | @ended spaces colon value stop =>
    exact (suffix_of_run value stop rest).trans (suffix_of_run spaces (leaf colon) _)
  | last => exact List.nil_suffix

theorem Reads.rest_suffix {read : Option Statement} (reads : Reads t ts read rest) : rest <:+ ts := by
  cases reads with
  | atBlock => exact suffix_of_run _ _ rest
  | atSemicolon => exact suffix_of_run _ _ rest
  | atEnd => exact List.nil_suffix
  | declaration declares => exact declares.rest_suffix
  | rule _ split => exact suffix_of_split split
  | dropped _ split => exact suffix_of_split split
  | unfinished => exact List.nil_suffix

theorem reads_exist (no_separator : t.isSeparator = false) (ts : List Tree) :
    ∃ read rest, Reads t ts read rest := by
  by_cases at_rule : ∃ name word start, t = leaf ⟨.atKeyword name, word, start⟩
  · obtain ⟨name, word, start, rfl⟩ := at_rule
    obtain ⟨run, stop, rest, runs⟩ := runs_exist ts
    cases runs with
    | atEnd unended => exact ⟨_, [], .atEnd unended⟩
    | atBlock split unended brace =>
      subst split
      exact ⟨_, rest, .atBlock unended brace⟩
    | atSemicolon split unended semicolon =>
      subst split
      exact ⟨_, rest, .atSemicolon unended semicolon⟩
  · by_cases declared : ∃ name word start value rest,
        t = leaf ⟨.ident name, word, start⟩ ∧ Declares ts value rest
    · obtain ⟨name, word, start, value, rest, rfl, declares⟩ := declared
      exact ⟨_, rest, .declaration declares⟩
    · have other : Other t ts := by
        refine ⟨no_separator, ?_, ?_⟩
        · intro name word start same
          exact at_rule ⟨name, word, start, same⟩
        · intro name word start same value rest declares
          exact declared ⟨name, word, start, value, rest, same, declares⟩
      obtain ⟨run, stop, rest, runs⟩ := runs_exist (t :: ts)
      cases runs with
      | atEnd unended => exact ⟨_, [], .unfinished other unended⟩
      | atBlock split unended brace => exact ⟨_, rest, .rule other split unended brace⟩
      | atSemicolon split unended semicolon =>
        exact ⟨_, rest, .dropped other split unended semicolon⟩

/-! ### All statements -/

theorem statements_none (enters : Bool) (ts : List Tree) :
    statements enters none ts =
      match ts.dropWhile isSeparator with
      | [] => []
      | t :: rest =>
        let next := readStatement enters none t rest
        next.1.toList ++ statements enters next.2.1 next.2.2 := by
  rw [statements, ite_self]
  split
  · rename_i none
    rw [none]
  · rename_i some
    rw [some]

theorem statements_separator (separates : t.isSeparator = true) :
    statements enters none (t :: ts) = statements enters none ts := by
  rw [statements_none, statements_none, List.dropWhile_cons, if_pos separates]

theorem statements_statement {read : Option Statement} (no_separator : t.isSeparator = false)
    (found : readStatement enters none t ts = (read, none, rest)) :
    statements enters none (t :: ts) = read.toList ++ statements enters none rest := by
  rw [statements_none, List.dropWhile_cons, no_separator, if_neg Bool.false_ne_true]
  simp only [found]

theorem statements_of_grammar {ss : List Statement} (grammar : Statements ts ss)
    (entered : enters = true ∨ ∀ s ∈ ss, s.body? = none) : statements enters none ts = ss := by
  induction grammar with
  | done => rw [statements_none, List.dropWhile_nil]
  | separator separates _ ih => rw [statements_separator separates, ih entered]
  | @statement t ts read rest ss reads _ ih =>
    -- Unread text is left behind only by a block that is not entered.
    have one : enters = true ∨ read.bind Statement.body? = none := by
      refine entered.imp_right fun bare => ?_
      cases read with
      | none => rfl
      | some s => exact bare s (List.mem_append_left _ (List.mem_singleton_self s))
    have others : enters = true ∨ ∀ s ∈ ss, s.body? = none :=
      entered.imp_right fun bare s member => bare s (List.mem_append_right _ member)
    rw [statements_statement reads.no_separator (readStatement_of_reads reads one), ih others]

theorem statements_exist (n : Nat) (ts : List Tree) (short : ts.length ≤ n) :
    ∃ ss, Statements ts ss := by
  induction n generalizing ts with
  | zero =>
    obtain rfl := List.eq_nil_of_length_eq_zero (Nat.le_zero.mp short)
    exact ⟨[], .done⟩
  | succ n ih =>
    cases ts with
    | nil => exact ⟨[], .done⟩
    | cons t ts =>
      rw [List.length_cons, Nat.succ_le_succ_iff] at short
      cases separates : t.isSeparator with
      | true =>
        obtain ⟨ss, others⟩ := ih ts short
        exact ⟨ss, .separator separates others⟩
      | false =>
        obtain ⟨read, rest, reads⟩ := reads_exist separates ts
        obtain ⟨ss, others⟩ := ih rest (Nat.le_trans reads.rest_suffix.length_le short)
        exact ⟨_, .statement reads others⟩

/-- Reading finds the statements of the grammar and nothing else. -/
theorem statements_iff {ss : List Statement} :
    Statements ts ss ↔ ss = statements true none ts := by
  constructor
  · intro grammar
    exact (statements_of_grammar grammar (.inl rfl)).symm
  · rintro rfl
    obtain ⟨ss, grammar⟩ := statements_exist ts.length ts (Nat.le_refl _)
    rwa [statements_of_grammar grammar (.inl rfl)]

end PageLint.Stylesheet
