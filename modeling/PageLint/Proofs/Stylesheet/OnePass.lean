import PageLint.Proofs.Stylesheet.Grammar

/-!
# Reading statements in one pass

`onePass` reads statements with what is known after each tree: it looks at a tree once and never
goes back. A name may still turn out to start a declaration or a rule, so until then both are kept.
`onePass_iff` says that it finds the statements of the grammar.
-/

namespace PageLint.Stylesheet

open Text Stylesheet.Tree

/-- What is known of the statement that is being read. `run` is what has been read of it. -/
inductive Reading where
  | between
  | inAtRule (name : List Char) (start : Position) (run : List Tree)
  /-- a name so far, and blanks after it -/
  | afterName (name : List Char) (start : Position) (run : List Tree)
  /-- a declaration, unless a block in braces follows. `run` ends with `value`. -/
  | inValue (name : List Char) (start : Position) (run value : List Tree)
  | inRule (start : Position) (run : List Tree)

namespace Reading

def ruleStep (start : Position) (run : List Tree) (t : Tree) : Option Statement × Reading :=
  match t.braceBody? with
  | some body => (some (.rule (trim (readText [] run)) start body), between)
  | none =>
    if t.isSemicolon then (some (.dropped (trim (readText [] run)) start), between)
    else (none, inRule start (run ++ [t]))

def step (r : Reading) (t : Tree) : Option Statement × Reading :=
  match r with
  | between =>
    match t with
    | leaf ⟨.atKeyword name, _, start⟩ => (none, inAtRule name start [])
    | leaf ⟨.ident name, _, start⟩ => (none, afterName name start [t])
    | t => if t.isSeparator then (none, between) else ruleStep t.first.start [] t
  | inAtRule name start run =>
    if t.endsRun then (some (.atRule name (trim (readText [] run)) start t.braceBody?), between)
    else (none, inAtRule name start (run ++ [t]))
  | afterName name start run =>
    match t with
    | leaf ⟨.colon, _, _⟩ => (none, inValue name start (run ++ [t]) [])
    | t => if t.isSpace then (none, afterName name start (run ++ [t])) else ruleStep start run t
  | inValue name start run value =>
    if t.isSemicolon || t.isStrayBrace then (some (.declaration name start value), between)
    else
      match t.braceBody? with
      | some body => (some (.rule (trim (readText [] run)) start body), between)
      | none => (none, inValue name start (run ++ [t]) (value ++ [t]))
  | inRule start run => ruleStep start run t

def finish : Reading → Option Statement
  | inAtRule name start run => some (.atRule name (trim (textAll run)) start none)
  | inValue name start _ value => some (.declaration name start value)
  | between | afterName .. | inRule .. => none

end Reading

def onePass (r : Reading) : List Tree → List Statement
  | [] => r.finish.toList
  | t :: ts => (r.step t).1.toList ++ onePass (r.step t).2 ts

variable {name : List Char} {start : Position} {t stop : Tree} {run ts rest value : List Tree}
  {opener : Token} {inside : List Tree} {closer : Option Token}

/-! ### What goes on with a statement -/

theorem braceBody?_of_no_brace (no_brace : t.isBraceBlock = false) : t.braceBody? = none := by
  cases t with
  | leaf => rfl
  | block opener inside closer => simp only [braceBody?, no_brace, Bool.false_eq_true, if_false]

namespace Reading

theorem rule_goes_on (unended : t.endsRun = false) :
    (inRule start run).step t = (none, inRule start (run ++ [t])) := by
  obtain ⟨no_semicolon, no_brace⟩ := Bool.or_eq_false_iff.mp unended
  simp only [step, ruleStep, braceBody?_of_no_brace no_brace, no_semicolon, Bool.false_eq_true,
    if_false]

theorem atRule_goes_on (unended : t.endsRun = false) :
    (inAtRule name start run).step t = (none, inAtRule name start (run ++ [t])) := by
  simp only [step, unended, Bool.false_eq_true, if_false]

theorem name_goes_on (blank : t.isSpace = true) :
    (afterName name start run).step t = (none, afterName name start (run ++ [t])) := by
  unfold step
  dsimp only
  split
  · cases blank
  · rw [if_pos blank]

theorem value_goes_on (unended : t.endsValue = false) :
    (inValue name start run value).step t =
      (none, inValue name start (run ++ [t]) (value ++ [t])) := by
  obtain ⟨unstopped, no_brace⟩ := Bool.or_eq_false_iff.mp unended
  simp only [step, unstopped, braceBody?_of_no_brace no_brace, Bool.false_eq_true, if_false]

end Reading

open Reading

/-- Trees that only go on with a statement are added to it. -/
theorem onePass_run (grow : List Tree → Reading)
    (goes_on : ∀ t ∈ ts, ∀ run, (grow run).step t = (none, grow (run ++ [t])))
    (run rest : List Tree) : onePass (grow run) (ts ++ rest) = onePass (grow (run ++ ts)) rest := by
  induction ts generalizing run with
  | nil => rw [List.nil_append, List.append_nil]
  | cons t ts ih =>
    have others : ∀ t' ∈ ts, ∀ run, (grow run).step t' = (none, grow (run ++ [t'])) :=
      fun t' member => goes_on t' (List.mem_cons_of_mem _ member)
    rw [List.cons_append, onePass, goes_on t List.mem_cons_self, Option.toList_none,
      List.nil_append, ih others, List.append_assoc, List.singleton_append]

theorem onePass_stop (grow : List Tree → Reading)
    (goes_on : ∀ t ∈ ts, ∀ run, (grow run).step t = (none, grow (run ++ [t])))
    (run : List Tree) (stop : Tree) (rest : List Tree) :
    onePass (grow run) (ts ++ stop :: rest) =
      ((grow (run ++ ts)).step stop).1.toList ++ onePass ((grow (run ++ ts)).step stop).2 rest := by
  rw [onePass_run grow goes_on, onePass]

theorem onePass_end (grow : List Tree → Reading)
    (goes_on : ∀ t ∈ ts, ∀ run, (grow run).step t = (none, grow (run ++ [t]))) (run : List Tree) :
    onePass (grow run) ts = (grow (run ++ ts)).finish.toList := by
  have read := onePass_run grow goes_on run []
  rwa [List.append_nil] at read

/-! ### Rules and at-rules -/

theorem onePass_rule_block (unended : ∀ t ∈ ts, t.endsRun = false)
    (brace : opener.kind = .opens .brace) (run : List Tree) :
    onePass (inRule start run) (ts ++ block opener inside closer :: rest) =
      .rule (trim (readText [] (run ++ ts))) start inside :: onePass between rest := by
  rw [onePass_stop (inRule start) fun t member _ => rule_goes_on (unended t member)]
  simp only [step, ruleStep, braceBody?_of_brace brace]
  rfl

theorem onePass_rule_semicolon (unended : ∀ t ∈ run, t.endsRun = false)
    (semicolon : stop.isSemicolon = true) :
    onePass (inRule start []) (run ++ stop :: rest) =
      .dropped (trim (readText [] run)) start :: onePass between rest := by
  rw [onePass_stop (inRule start) fun t member _ => rule_goes_on (unended t member)]
  simp only [step, ruleStep, braceBody?_of_semicolon semicolon, semicolon, if_true]
  rfl

theorem onePass_rule_end (unended : ∀ t ∈ ts, t.endsRun = false) (run : List Tree) :
    onePass (inRule start run) ts = [] :=
  onePass_end (inRule start) (fun t member _ => rule_goes_on (unended t member)) run

theorem onePass_at (name word : List Char) (start : Position) (ts : List Tree) :
    onePass between (leaf ⟨.atKeyword name, word, start⟩ :: ts) =
      onePass (inAtRule name start []) ts := rfl

theorem onePass_atRule_stop (unended : ∀ t ∈ run, t.endsRun = false)
    (ended : stop.endsRun = true) :
    onePass (inAtRule name start []) (run ++ stop :: rest) =
      .atRule name (trim (readText [] run)) start stop.braceBody? :: onePass between rest := by
  rw [onePass_stop (inAtRule name start) fun t member _ => atRule_goes_on (unended t member)]
  simp only [step, ended, if_true]
  rfl

theorem onePass_atRule_end (unended : ∀ t ∈ run, t.endsRun = false) :
    onePass (inAtRule name start []) run = [.atRule name (trim (textAll run)) start none] :=
  onePass_end (inAtRule name start) (fun t member _ => atRule_goes_on (unended t member)) []

/-! ### Names -/

theorem endsRun_of_space (blank : t.isSpace = true) : t.endsRun = false := by
  cases t with
  | block => cases blank
  | leaf token =>
    rcases Bool.or_eq_true_iff.mp blank with kind | kind
    · rw [endsRun, isSemicolon, eq_of_beq kind]
      rfl
    · rw [endsRun, isSemicolon, eq_of_beq kind]
      rfl

theorem endsRun_of_value (unended : t.endsValue = false) : t.endsRun = false := by
  rw [endsValue, Bool.or_eq_false_iff, Bool.or_eq_false_iff] at unended
  rw [endsRun, unended.1.1, unended.2]
  rfl

theorem endsRun_of_colon {colon : Token} (is_colon : colon.kind = .colon) :
    (leaf colon).endsRun = false := by
  rw [endsRun, isSemicolon, is_colon]
  rfl

theorem onePass_name_colon {spaces : List Tree} {colon : Token}
    (blank : ∀ t ∈ spaces, t.isSpace = true) (is_colon : colon.kind = .colon) (run ts : List Tree) :
    onePass (afterName name start run) (spaces ++ leaf colon :: ts) =
      onePass (inValue name start (run ++ spaces ++ [leaf colon]) []) ts := by
  rw [onePass_stop (afterName name start) fun t member _ => name_goes_on (blank t member)]
  obtain ⟨kind, word, place⟩ := colon
  cases is_colon
  rfl

theorem value_run_goes_on (unended : ∀ t ∈ value, t.endsValue = false) (run : List Tree) :
    ∀ t ∈ value, ∀ found, (inValue name start (run ++ found) found).step t =
      (none, inValue name start (run ++ (found ++ [t])) (found ++ [t])) := by
  intro t member found
  rw [value_goes_on (unended t member), List.append_assoc]

theorem onePass_value_stop (unended : ∀ t ∈ value, t.endsValue = false) (run rest : List Tree) :
    onePass (inValue name start run []) (value ++ stop :: rest) =
      ((inValue name start (run ++ value) value).step stop).1.toList ++
        onePass ((inValue name start (run ++ value) value).step stop).2 rest := by
  have read := onePass_stop (fun found => inValue name start (run ++ found) found)
    (value_run_goes_on unended run) [] stop rest
  rwa [List.append_nil, List.nil_append] at read

theorem onePass_value_end (unended : ∀ t ∈ value, t.endsValue = false) (run : List Tree) :
    onePass (inValue name start run []) value = [.declaration name start value] := by
  have read := onePass_end (fun found => inValue name start (run ++ found) found)
    (value_run_goes_on unended run) []
  rwa [List.append_nil] at read

theorem onePass_declares (declares : Declares ts value rest) (run : List Tree) :
    onePass (afterName name start run) ts = .declaration name start value :: onePass between rest := by
  cases declares with
  | ended blank is_colon unended stops =>
    rw [onePass_name_colon blank is_colon, onePass_value_stop unended]
    simp only [step, Bool.or_eq_true_iff.mpr stops, if_true]
    rfl
  | last blank is_colon unended =>
    rw [onePass_name_colon blank is_colon, onePass_value_end unended]
    rfl

theorem step_name_other (unspaced : t.isSpace = false)
    (no_colon : ∀ colon, t = leaf colon → colon.kind ≠ .colon) :
    (afterName name start run).step t = (inRule start run).step t := by
  unfold step
  dsimp only
  split
  · exact absurd rfl (no_colon _ rfl)
  · rw [if_neg (Bool.eq_false_iff.mp unspaced)]

theorem step_value_block (brace : opener.kind = .opens .brace) :
    (inValue name start run value).step (block opener inside closer) =
      (some (.rule (trim (readText [] run)) start inside), between) := by
  simp only [step, braceBody?_of_brace brace, isSemicolon, isStrayBrace, Bool.or_self,
    Bool.false_eq_true, if_false]

theorem onePass_value_block {spaces : List Tree} {colon : Token}
    (blank : ∀ t ∈ spaces, t.isSpace = true) (is_colon : colon.kind = .colon)
    (unended : ∀ t ∈ value, t.endsValue = false) (brace : opener.kind = .opens .brace)
    (run : List Tree) :
    onePass (afterName name start run)
        (spaces ++ leaf colon :: (value ++ block opener inside closer :: rest)) =
      onePass (inRule start run)
        (spaces ++ leaf colon :: (value ++ block opener inside closer :: rest)) := by
  have unended_run : ∀ t ∈ spaces ++ leaf colon :: value, t.endsRun = false := by
    intro t member
    rcases List.mem_append.mp member with space | rest
    · exact endsRun_of_space (blank t space)
    · rcases List.mem_cons.mp rest with rfl | found
      · exact endsRun_of_colon is_colon
      · exact endsRun_of_value (unended t found)
  have regroup : spaces ++ leaf colon :: (value ++ block opener inside closer :: rest) =
      spaces ++ leaf colon :: value ++ block opener inside closer :: rest := by
    rw [List.append_assoc, List.cons_append]
  rw [onePass_name_colon blank is_colon, onePass_value_stop unended, step_value_block brace,
    regroup, onePass_rule_block unended_run brace]
  simp only [List.append_assoc, List.singleton_append]
  rfl

/-- What is kept of a name that starts no declaration is what is kept of a rule. -/
theorem onePass_no_declaration (no_declaration : ∀ value rest, ¬ Declares ts value rest)
    (run : List Tree) : onePass (afterName name start run) ts = onePass (inRule start run) ts := by
  rcases cut_run (!isSpace ·) ts with blank | ⟨spaces, t, after, rfl, blank, unspaced⟩
  · have blank : ∀ t ∈ ts, t.isSpace = true := fun t member => (Bool.not_eq_false' _).mp (blank t member)
    rw [onePass_rule_end fun t member => endsRun_of_space (blank t member),
      onePass_end (afterName name start) fun t member _ => name_goes_on (blank t member)]
    rfl
  · have blank : ∀ t ∈ spaces, t.isSpace = true :=
      fun t member => (Bool.not_eq_false' _).mp (blank t member)
    have unspaced : t.isSpace = false := (Bool.not_eq_true' _).mp unspaced
    by_cases colon : ∃ colon, t = leaf colon ∧ colon.kind = .colon
    · obtain ⟨colon, rfl, is_colon⟩ := colon
      -- The value ends with a block in braces, since any other end would make a declaration.
      rcases cut_run endsValue after with unended | ⟨value, stop, rest, rfl, unended, ended⟩
      · exact absurd (.last blank is_colon unended) (no_declaration after [])
      · rcases Bool.or_eq_true_iff.mp ended with stops | brace
        · have stops := Bool.or_eq_true_iff.mp stops
          exact absurd (.ended blank is_colon unended stops) (no_declaration value rest)
        · cases stop with
          | leaf => cases brace
          | block => exact onePass_value_block blank is_colon unended (eq_of_beq brace) run
    · have no_colon : ∀ token, t = leaf token → token.kind ≠ .colon :=
        fun token same is_colon => colon ⟨token, same, is_colon⟩
      rw [onePass_stop (afterName name start) fun t member _ => name_goes_on (blank t member),
        onePass_stop (inRule start) fun t member _ => rule_goes_on (endsRun_of_space (blank t member)),
        step_name_other unspaced no_colon]

/-! ### Statements -/

theorem onePass_other (other : Other t ts) :
    onePass between (t :: ts) = onePass (inRule t.first.start []) (t :: ts) := by
  rw [onePass, onePass]
  unfold step
  dsimp only
  split
  · rename_i name word start
    exact absurd rfl (other.no_atRule name word start)
  · rename_i name word start
    exact onePass_no_declaration (other.no_declaration name word start rfl) _
  · rw [other.no_separator]
    rfl

theorem onePass_reads {read : Option Statement} (reads : Reads t ts read rest) :
    onePass between (t :: ts) = read.toList ++ onePass between rest := by
  cases reads with
  | atBlock unended brace =>
    rw [onePass_at, onePass_atRule_stop unended (endsRun_of_brace brace _ _),
      braceBody?_of_brace brace]
    rfl
  | atSemicolon unended semicolon =>
    rw [onePass_at, onePass_atRule_stop unended (endsRun_of_semicolon semicolon),
      braceBody?_of_semicolon semicolon]
    rfl
  | atEnd unended => exact onePass_atRule_end unended
  | declaration declares => exact onePass_declares declares _
  | rule other split unended brace =>
    rw [onePass_other other, split, onePass_rule_block unended brace]
    rfl
  | dropped other split unended semicolon =>
    rw [onePass_other other, split, onePass_rule_semicolon unended semicolon]
    rfl
  | unfinished other unended =>
    rw [onePass_other other, onePass_rule_end unended]
    rfl

theorem onePass_separator (separates : t.isSeparator = true) :
    onePass between (t :: ts) = onePass between ts := by
  cases t with
  | block => cases separates
  | leaf token =>
    obtain ⟨kind, word, start⟩ := token
    cases kind with
    | blank => rfl
    | comment => rfl
    | semicolon => rfl
    | pageComment => rfl
    | closes => rfl
    | _ => cases separates

/-- Reading in one pass finds the statements of the grammar. -/
theorem onePass_iff {ss : List Statement} : Statements ts ss ↔ ss = onePass between ts := by
  have found {ss : List Statement} (grammar : Statements ts ss) : ss = onePass between ts := by
    induction grammar with
    | done => rfl
    | separator separates _ ih => rw [onePass_separator separates, ih]
    | statement reads _ ih => rw [onePass_reads reads, ih]
  constructor
  · exact found
  · rintro rfl
    obtain ⟨ss, grammar⟩ := statements_exist ts.length ts (Nat.le_refl _)
    rwa [← found grammar]

end PageLint.Stylesheet
