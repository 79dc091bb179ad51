import PageLint.Proofs.Stylesheet.Reader

/-!
# Reading in loops makes progress

Each turn of a loop is computed once for every token that may come next; the results of whole loops
follow by induction on the tokens left (`skip_eq`, `run_eq`, `loop_valueTurn`), or on the statements
(`loop_statementTurn`), and those of blocks by induction on the levels that may be entered. So
reading in loops agrees with `parse`, which looks ahead instead. That a turn which goes on has
taken a token is read off the same equations: where a declaration was tried in vain, the rule that
is read in its place takes the name again.
-/

namespace PageLint.Stylesheet

open Text Stylesheet.Tree

namespace Reader

/-- A turn leaves the loop, or has taken at least one token. `left` is the reader in a state. -/
inductive Advances {σ α : Type} (left : σ → Reader) (s : σ) : Turn σ α → Prop
  | leave (result) : Advances left s (.leave result)
  | again {s'} (taken : List Tree) (some_taken : taken ≠ [])
      (split : (left s).rest = taken ++ (left s').rest) : Advances left s (.again s')

/-- In every state there is a turn to take, and no turn stands still. -/
def Progresses {σ α : Type} (left : σ → Reader) (turn : σ → Option (Turn σ α)) : Prop :=
  ∀ s, ∃ t, turn s = some t ∧ Advances left s t

/-- How blocks are read: with `holds` if they are entered, and else not at all. -/
inductive Inside {α : Type} :
    (inside : Entry α) → (enters : Bool) → (holds : List Tree → List α) → Prop
  | unentered : Inside none false fun _ => []
  | entered {read holds} (found : ∀ ts, read (.start ts) = some (holds ts, finished)) :
      Inside (some read) true holds

def leftOpen (enters : Bool) (t : Tree) : Option Tree :=
  if enters then none else t.opened?

variable {α : Type} {o : Option Tree} {t stop : Tree} {ts run rest : List Tree} {enters : Bool}
  {levels : Nat} {start : Reader}

/-! ### Blocks -/

theorem enter_eq {read : Reader → Option (α × Reader)} {trees : List Tree} {found : α}
    (whole : read (.start trees) = some (found, finished)) (opener : Token) (closer : Option Token)
    (rest : List Tree) :
    enter read ⟨some (block opener trees closer), rest⟩ = some (some found, ⟨none, rest⟩) := by
  simp only [enter, whole]
  rfl

theorem Inside.body_eq {inside : Entry α} {holds : List Tree → List α}
    (blocks : Inside inside enters holds) (opener : Token) (trees : List Tree)
    (closer : Option Token) (rest : List Tree) :
    body inside ⟨some (block opener trees closer), rest⟩ =
      some (holds trees, ⟨leftOpen enters (block opener trees closer), rest⟩) := by
  cases blocks with
  | unentered => rfl
  | entered found =>
    simp only [body, enter_eq (found trees)]
    rfl

/-! ### Texts -/

def openedAfter (o : Option Tree) (run : List Tree) : Option Tree :=
  run.foldl (fun _ t => t.opened?) o

theorem loop_run {turn : Reader → Option (Turn Reader α)}
    (goes_on : ∀ t ∈ run, ∀ o rest, turn ⟨o, t :: rest⟩ = some (.again ⟨t.opened?, rest⟩))
    (o : Option Tree) (rest : List Tree) :
    loop turn (turns ⟨o, run ++ rest⟩) ⟨o, run ++ rest⟩ =
      loop turn (turns ⟨openedAfter o run, rest⟩) ⟨openedAfter o run, rest⟩ := by
  induction run generalizing o with
  | nil => rfl
  | cons t run ih =>
    obtain ⟨first, others⟩ := List.forall_mem_cons.mp goes_on
    rw [turns, List.cons_append, List.length_cons, loop_again (first o (run ++ rest))]
    exact ih others t.opened?

theorem innerText_opened? (t : Tree) : t.opened?.elim [] innerText = t.innerText := by
  cases t <;> rfl

theorem text_run (o : Option Tree) (run rest : List Tree) :
    text ⟨o, run ++ rest⟩ =
      readText (o.elim [] innerText) run ++ text ⟨openedAfter o run, rest⟩ := by
  rcases List.eq_nil_or_concat' run with rfl | ⟨front, last, rfl⟩
  · rfl
  · have ends : (front ++ [last]).getLast? = some last := List.getLast?_concat
    have read := readText_getLast (o.elim [] innerText) ends
    rw [text, text, openedAfter, List.foldl_append, List.foldl_cons, List.foldl_nil,
      innerText_opened?, textAll_append, ← List.append_assoc, ← List.append_assoc, read]

theorem textUntil_eq {stop : Reader} {front : List Char} (split : start.text = front ++ stop.text) :
    start.textUntil stop = front := by
  rw [textUntil, split, List.length_append, Nat.add_sub_cancel, List.take_left]

theorem textUntil_finished (r : Reader) : r.textUntil finished = r.text :=
  textUntil_eq (List.append_nil _).symm

theorem textUntil_leaf (o : Option Tree) (token : Token) (rest : List Tree) :
    textUntil ⟨o, leaf token :: rest⟩ ⟨none, rest⟩ = o.elim [] innerText ++ token.text := by
  refine textUntil_eq ?_
  simp [text, textAll, toTokensAll, toTokens]

/-! ### Passing over -/

theorem opened?_of_leaves {p : Tree → Bool}
    (leaves : ∀ opener inside closer, p (block opener inside closer) = false) (holds : p t = true) :
    t.opened? = none := by
  cases t with
  | leaf => rfl
  | block opener inside closer =>
    rw [leaves] at holds
    cases holds

/-- What is open behind the trees that `skips` holds of, if `o` was before. -/
def openBefore (skips : Tree → Bool) (o : Option Tree) (ts : List Tree) : Option Tree :=
  if ts.head?.any skips then none else o

theorem skip_eq {skips : Tree → Bool}
    (leaves : ∀ opener inside closer, skips (block opener inside closer) = false)
    (o : Option Tree) (ts : List Tree) :
    skip skips ⟨o, ts⟩ =
      some (match ts.dropWhile skips with
        | [] => finished
        | t :: rest => ⟨openBefore skips o ts, t :: rest⟩) := by
  unfold openBefore
  rw [skip, turns]
  induction ts generalizing o with
  | nil => exact loop_leave rfl 0
  | cons t ts ih =>
    rw [List.dropWhile_cons, List.length_cons, List.head?_cons, Option.any_some]
    cases skipped : skips t with
    | true =>
      have turn : skipTurn skips ⟨o, t :: ts⟩ = some (.again ⟨none, ts⟩) := by
        simp only [skipTurn, next?, skipped, opened?_of_leaves leaves skipped, if_true]
      rw [loop_again turn, ih, ite_self]
      rfl
    | false =>
      have turn : skipTurn skips ⟨o, t :: ts⟩ = some (.leave ⟨o, t :: ts⟩) := by
        simp only [skipTurn, next?, skipped, Bool.false_eq_true, if_false]
      rw [loop_leave turn]
      rfl

/-! ### Rules and at-rules -/

section Rules

variable {inside : Entry Node} {holds : List Tree → List Node}

theorem runTurn_goes_on (start : Reader) (unended : t.endsRun = false) (o : Option Tree)
    (rest : List Tree) :
    runTurn inside start ⟨o, t :: rest⟩ = some (.again ⟨t.opened?, rest⟩) := by
  obtain ⟨no_semicolon, no_brace⟩ := Bool.or_eq_false_iff.mp unended
  simp only [runTurn, next?, no_semicolon, no_brace, Bool.false_eq_true, if_false]

theorem run_unended (unended : ∀ t ∈ ts, t.endsRun = false) (o : Option Tree) :
    Reader.run inside ⟨o, ts⟩ = some (trim (text ⟨o, ts⟩), none, finished) := by
  have goes_on : ∀ t ∈ ts, ∀ o' rest, runTurn inside ⟨o, ts⟩ ⟨o', t :: rest⟩ =
      some (.again ⟨t.opened?, rest⟩) := fun t member => runTurn_goes_on _ (unended t member)
  have passed := loop_run goes_on o []
  rw [List.append_nil] at passed
  rw [Reader.run, passed]
  refine loop_leave ?_ 0
  rw [runTurn, next?, textUntil_finished]

def openBehind (enters : Bool) (piece : Piece) : Option Tree :=
  piece.block?.bind (leftOpen enters)

theorem leftOpen_stop (ended : stop.endsRun = true) :
    ((some stop).filter isBraceBlock).bind (leftOpen enters) = leftOpen enters stop := by
  rcases endsRun_cases ended with ⟨opener, trees, closer, rfl, brace⟩ | semicolon
  · have is_brace : (block opener trees closer).isBraceBlock = true := beq_iff_eq.mpr brace
    rw [Option.filter_some, is_brace]
    rfl
  · have unopened := opened?_of_leaves (fun _ _ _ => rfl) semicolon
    rw [Option.filter_some, isBraceBlock_of_semicolon semicolon, leftOpen, unopened, ite_self]
    rfl

theorem runTurn_ended (blocks : Inside inside enters holds) (start : Reader)
    (ended : stop.endsRun = true) (o : Option Tree) (rest : List Tree) :
    runTurn inside start ⟨o, stop :: rest⟩ =
      some (.leave (trim (start.textUntil ⟨o, stop :: rest⟩), stop.braceBody?.map holds,
        ⟨leftOpen enters stop, rest⟩)) := by
  rcases endsRun_cases ended with ⟨opener, trees, closer, rfl, brace⟩ | semicolon
  · have is_brace : (block opener trees closer).isBraceBlock = true := beq_iff_eq.mpr brace
    simp only [runTurn, next?, isSemicolon, is_brace, Bool.false_eq_true, if_false, if_true,
      opened?, blocks.body_eq, braceBody?_of_brace brace]
    rfl
  · have unopened := opened?_of_leaves (fun _ _ _ => rfl) semicolon
    simp only [runTurn, next?, semicolon, if_true, braceBody?_of_semicolon semicolon,
      unopened, leftOpen, ite_self]
    rfl

theorem run_ended (blocks : Inside inside enters holds) (unended : ∀ t ∈ run, t.endsRun = false)
    (ended : stop.endsRun = true) (o : Option Tree) (rest : List Tree) :
    Reader.run inside ⟨o, run ++ stop :: rest⟩ =
      some (trim (readText (o.elim [] innerText) run), stop.braceBody?.map holds,
        ⟨leftOpen enters stop, rest⟩) := by
  have turn := runTurn_ended blocks ⟨o, run ++ stop :: rest⟩ ended (openedAfter o run) rest
  rw [textUntil_eq (text_run o run (stop :: rest))] at turn
  rw [Reader.run, loop_run (fun t member => runTurn_goes_on _ (unended t member))]
  exact loop_leave turn _

/-- The text, the nodes and the place behind a run that `halt` finds. -/
theorem run_eq (blocks : Inside inside enters holds) (o : Option Tree) (ts : List Tree) :
    Reader.run inside ⟨o, ts⟩ =
      let (run, stop, rest) := halt endsRun ts
      some (trim (stop.elim (text ⟨o, ts⟩) fun _ => readText (o.elim [] innerText) run),
        (stop.bind braceBody?).map holds,
        ⟨(stop.filter isBraceBlock).bind (leftOpen enters), rest⟩) := by
  rcases cut_run endsRun ts with unended | ⟨run, stop, rest, rfl, unended, ended⟩
  · rw [run_unended unended, halt_eq, dropWhile_unended unended]
    rfl
  · rw [run_ended blocks unended ended, halt_eq, dropWhile_run unended ended,
      takeWhile_run unended ended, List.head?_cons]
    simp only [leftOpen_stop ended]
    rfl

end Rules

/-! ### Values -/

section Values

open Component

variable {inside : Entry Component} {holds : List Tree → List Component}

def ComponentsOf (levels : Nat) (enters : Bool) (holds : List Tree → List Component) : Prop :=
  ∀ unread opener trees closer rest,
    ofTrees levels unread (Tree.block opener trees closer :: rest) =
      ofBlock opener.kind (holds trees) ::
        ofTrees levels ((leftOpen enters (Tree.block opener trees closer)).elim [] innerText) rest

theorem valueTurn_leaf {outermost : Bool} {token : Token} (o : Option Tree) (found : List Component)
    (rest : List Tree) (unended : ends outermost (leaf token) = false) :
    valueTurn outermost inside (⟨o, leaf token :: rest⟩, found) =
      some (.again (⟨none, rest⟩, found ++ ofLeaf (o.elim [] innerText) token)) := by
  simp only [valueTurn, next?, unended, Bool.false_eq_true, if_false, opened?, textUntil_leaf,
    ofLeaf]
  cases token.kind <;> simp only [List.append_nil]

theorem valueTurn_block {outermost : Bool} {opener : Token} {trees : List Tree}
    {closer : Option Token} (blocks : Inside inside enters holds) (o : Option Tree)
    (found : List Component) (rest : List Tree)
    (unended : ends outermost (Tree.block opener trees closer) = false) :
    valueTurn outermost inside (⟨o, Tree.block opener trees closer :: rest⟩, found) =
      some (.again (⟨leftOpen enters (Tree.block opener trees closer), rest⟩,
        found ++ [ofBlock opener.kind (holds trees)])) := by
  simp only [valueTurn, next?, unended, Bool.false_eq_true, if_false, opened?, blocks.body_eq]
  rfl

theorem valueTurn_ended {outermost : Bool} (o : Option Tree) (found : List Component)
    (rest : List Tree) (ended : ends outermost t = true) :
    valueTurn outermost inside (⟨o, t :: rest⟩, found) =
      some (.leave (if t.isBraceBlock then none else some found, ⟨t.opened?, rest⟩)) := by
  simp only [valueTurn, next?, ended, if_true]

theorem loop_valueTurn (blocks : Inside inside enters holds)
    (parts : ComponentsOf levels enters holds) (outermost : Bool) (o : Option Tree)
    (found : List Component) (ts : List Tree) :
    loop (valueTurn outermost inside) (turns ⟨o, ts⟩) (⟨o, ts⟩, found) =
      some (if (halt (ends outermost) ts).2.1.any isBraceBlock then none
        else some (found ++ ofTrees levels (o.elim [] innerText) (halt (ends outermost) ts).1),
        ⟨(halt (ends outermost) ts).2.1.bind opened?, (halt (ends outermost) ts).2.2⟩) := by
  rw [turns]
  induction ts generalizing o found with
  | nil =>
    rw [halt, ofTrees_nil, List.append_nil]
    exact loop_leave rfl 0
  | cons t ts ih =>
    rw [List.length_cons, halt]
    cases ended : ends outermost t with
    | true =>
      rw [loop_leave (valueTurn_ended o found ts ended)]
      simp only [if_true, ofTrees_nil, List.append_nil]
      rfl
    | false =>
      simp only [Bool.false_eq_true, if_false]
      cases t with
      | leaf token =>
        rw [loop_again (valueTurn_leaf o found ts ended), ih, ofTrees_leaf, List.append_assoc]
        rfl
      | block opener trees closer =>
        rw [loop_again (valueTurn_block blocks o found ts ended), ih, parts, List.append_assoc]
        rfl

theorem halt_never (ts : List Tree) : halt (ends false) ts = (ts, none, []) := by
  induction ts with
  | nil => rfl
  | cons t ts ih => rw [halt, ends, Bool.false_and, if_neg Bool.false_ne_true, ih]

theorem components_eq (blocks : Inside inside enters holds)
    (parts : ComponentsOf levels enters holds) (ts : List Tree) :
    components inside (.start ts) = some (ofTrees levels [] ts, finished) := by
  rw [components, value, Reader.start, loop_valueTurn blocks parts, halt_never]
  rfl

theorem inside_valuesInside (levels : Nat) :
    ∃ enters holds,
      Inside (valuesInside levels) enters holds ∧ ComponentsOf levels enters holds := by
  induction levels with
  | zero => exact ⟨false, _, .unentered, fun _ _ _ _ _ => ofTrees_block_zero⟩
  | succ levels ih =>
    obtain ⟨enters, holds, blocks, parts⟩ := ih
    exact ⟨true, ofTrees levels [], .entered (components_eq blocks parts),
      fun _ _ _ _ _ => ofTrees_block_succ⟩

end Values

/-! ### Statements -/

def declared (name : List Char) (position : Position) (value : List Tree) : Declaration :=
  let (components, important) := Component.splitImportant (Component.ofTrees maxNesting [] value)
  ⟨String.ofList name, components, important, position⟩

theorem opened?_of_stop {stop : Option Tree} (halted : (halt endsValue ts).2.1 = stop)
    (no_brace : stop.any isBraceBlock = false) : stop.bind opened? = none := by
  cases stop with
  | none => rfl
  | some stop =>
    have ended := halt_ends halted
    rw [endsValue, show stop.isBraceBlock = false from no_brace, Bool.or_false] at ended
    exact opened?_of_leaves (p := fun t => t.isSemicolon || t.isStrayBrace) (fun _ _ _ => rfl) ended

theorem value_outermost (ts : List Tree) :
    value true (valuesInside maxNesting) ⟨none, ts⟩ =
      some (if (halt endsValue ts).2.1.any isBraceBlock then none
        else some (Component.ofTrees maxNesting [] (halt endsValue ts).1),
        ⟨(halt endsValue ts).2.1.bind Tree.opened?, (halt endsValue ts).2.2⟩) := by
  obtain ⟨enters, holds, blocks, parts⟩ := inside_valuesInside maxNesting
  exact loop_valueTurn blocks parts true none [] ts

theorem declaration?_eq (name : List Char) (position : Position) (ts : List Tree) :
    declaration? name position ⟨none, ts⟩ =
      some ((value? ts).map fun (value, rest) => (declared name position value, ⟨none, rest⟩)) := by
  rw [declaration?, skip_eq fun _ _ _ => rfl, value?]
  cases ts.dropWhile isSpace with
  | nil => rfl
  | cons t after =>
    cases t with
    | block => rfl
    | leaf token =>
      obtain ⟨kind, word, start⟩ := token
      by_cases colon : kind = .colon
      · subst colon
        have read := value_outermost after
        have unopened := opened?_of_stop (rfl : (halt endsValue after).2.1 = _)
        simp only [openBefore, ite_self, Option.bind_eq_bind, Option.bind_some, next?]
        rw [Tree.opened?, read]
        cases brace : (halt endsValue after).2.1.any isBraceBlock with
        | true => rfl
        | false =>
          rw [unopened brace]
          rfl
      · have no_colon : decide (kind = .colon) = false := decide_eq_false colon
        simp only [Option.bind_eq_bind, Option.bind_some, next?, no_colon, Bool.false_and,
          Bool.false_eq_true, if_false]
        split
        · rename_i other
          cases other
          exact absurd rfl colon
        · rfl

variable {inside : Entry Node} {holds : List Tree → List Node}

theorem rule?_eq (blocks : Inside inside enters holds) (position : Position) (o : Option Tree)
    (ts : List Tree) :
    rule? inside position ⟨o, ts⟩ =
      some (((cutOther ts).1.statement? (o.elim [] innerText) position).bind
          (Statement.node? holds),
        ⟨openBehind enters (cutOther ts).1, (cutOther ts).2⟩) := by
  rw [rule?, run_eq blocks, cutOther]
  rcases halt endsRun ts with ⟨run, stop, rest⟩
  cases stop with
  | none => rfl
  | some stop =>
    simp only [Option.bind_eq_bind, Option.bind_some, Option.elim_some, Piece.statement?]
    cases stop.braceBody? <;> rfl

theorem atRule_eq (blocks : Inside inside enters holds) (name : List Char) (position : Position)
    (before : List Char) (ts : List Tree) :
    ∃ node,
      ((Piece.atRule name (halt endsRun ts).1 (halt endsRun ts).2.1).statement? before
        position).bind (Statement.node? holds) = some node ∧
      atRule inside name position ⟨none, ts⟩ =
        some (node, ⟨openBehind enters (.atRule name (halt endsRun ts).1 (halt endsRun ts).2.1),
          (halt endsRun ts).2.2⟩) := by
  obtain ⟨run, stop, rest, runs⟩ := runs_exist ts
  rw [atRule, run_eq blocks, halt_of_runs runs]
  cases runs <;> exact ⟨_, rfl, rfl⟩

def nodeOf? (holds : List Tree → List Node) (o : Option Tree) (t : Tree) (rest : List Tree) :
    Option Node :=
  ((cut t rest).1.statement? (o.elim [] innerText) (position ⟨o, t :: rest⟩ t)).bind
    (Statement.node? holds)

theorem statementTurn_eq (blocks : Inside inside enters holds) (o : Option Tree)
    (found : List Node) (starts : ts.dropWhile isSeparator = t :: rest) :
    statementTurn inside (⟨o, ts⟩, found) =
      some (.again (⟨openBehind enters (cut t rest).1, (cut t rest).2⟩,
        found ++ (nodeOf? holds (openBefore isSeparator o ts) t rest).toList)) := by
  have skipped : skip isSeparator ⟨o, ts⟩ = some ⟨openBefore isSeparator o ts, t :: rest⟩ := by
    rw [skip_eq fun _ _ _ => rfl, starts]
  generalize openBefore isSeparator o ts = before at skipped ⊢
  simp only [statementTurn, skipped, Option.bind_eq_bind, Option.bind_some, next?, nodeOf?]
  generalize position ⟨before, t :: rest⟩ t = place
  have as_rule := rule?_eq blocks place before (t :: rest)
  cases t with
  | block =>
    rw [as_rule]
    rfl
  | leaf token =>
    obtain ⟨kind, word, start⟩ := token
    cases kind with
    | atKeyword name =>
      obtain ⟨node, made, read⟩ := atRule_eq blocks name place (before.elim [] innerText) rest
      simp only [Tree.opened?, read, Option.bind_some, cut, made]
      rfl
    | ident name =>
      -- A name that starts no declaration is read once more, as the start of a rule.
      simp only [Tree.opened?, declaration?_eq, Option.bind_some, cut]
      cases value? rest with
      | none =>
        simp only [Option.map_none, as_rule]
        rfl
      | some read => rfl
    | _ =>
      rw [as_rule]
      rfl

theorem statementTurn_finished (o : Option Tree) (found : List Node)
    (ended : ts.dropWhile isSeparator = []) :
    statementTurn inside (⟨o, ts⟩, found) = some (.leave (found, finished)) := by
  have skipped : skip isSeparator ⟨o, ts⟩ = some finished := by
    rw [skip_eq fun _ _ _ => rfl, ended]
  rw [statementTurn, skipped]
  rfl

def unread (t : Tree) : Unread :=
  ⟨t.first.stop, t.innerText⟩

theorem unread_openBehind (enters : Bool) (piece : Piece) :
    (openBehind enters piece).map unread = piece.block?.bind (unreadOf enters) := by
  rw [openBehind]
  cases ended : piece.block? with
  | none => rfl
  | some last =>
    have brace := (Option.filter_eq_some_iff.mp ended).2
    cases last with
    | leaf => cases brace
    | block => cases enters <;> rfl

theorem unread_openBefore (o : Option Tree) (ts : List Tree) :
    (openBefore isSeparator o ts).map unread = unreadBefore (o.map unread) ts := by
  rw [openBefore, unreadBefore, apply_ite (Option.map unread)]
  rfl

theorem statements_nodeOf? (o : Option Tree) (starts : ts.dropWhile isSeparator = t :: rest) :
    (statements enters (o.map unread) ts).filterMap (Statement.node? holds) =
      (nodeOf? holds (openBefore isSeparator o ts) t rest).toList ++
        (statements enters ((openBehind enters (cut t rest).1).map unread)
          (cut t rest).2).filterMap (Statement.node? holds) := by
  have text : ((openBefore isSeparator o ts).map unread).elim [] Unread.text =
      (openBefore isSeparator o ts).elim [] innerText := by
    cases openBefore isSeparator o ts <;> rfl
  have place : ((openBefore isSeparator o ts).map unread).elim t.first.start Unread.position =
      position ⟨openBefore isSeparator o ts, t :: rest⟩ t := by
    cases openBefore isSeparator o ts <;> rfl
  rw [statements_cut starts, List.filterMap_append, ← unread_openBefore, ← unread_openBehind, text,
    place, nodeOf?]
  congr 1
  generalize (cut t rest).1.statement? _ _ = s
  cases s <;> rfl

theorem loop_statementTurn (blocks : Inside inside enters holds) (ts : List Tree) (o : Option Tree)
    (found : List Node) {turns : Nat} (enough : ts.length < turns) :
    loop (statementTurn inside) turns (⟨o, ts⟩, found) =
      some (found ++ (statements enters (o.map unread) ts).filterMap (Statement.node? holds),
        finished) := by
  obtain ⟨turns, rfl⟩ := Nat.exists_eq_succ_of_ne_zero (Nat.ne_zero_of_lt enough)
  induction ts using statements_induction generalizing o found turns with
  | finished ts ended =>
    rw [statements_nil ended, List.filterMap_nil, List.append_nil]
    exact loop_leave (statementTurn_finished o found ended) turns
  | statement ts t rest starts ih =>
    have dropped := (List.dropWhile_suffix isSeparator (l := ts)).length_le
    rw [starts, List.length_cons] at dropped
    have shorter := (cut_suffix t rest).length_le
    -- What is left has fewer tokens, so the turns left are enough for it.
    obtain ⟨turns, rfl⟩ := Nat.exists_eq_succ_of_ne_zero (n := turns) (by omega)
    rw [loop_again (statementTurn_eq blocks o found starts), ih _ _ _ (by omega),
      statements_nodeOf? o starts, List.append_assoc]

theorem contents_eq (blocks : Inside inside enters holds) (ts : List Tree) :
    contents inside (.start ts) =
      some ((statements enters none ts).filterMap (Statement.node? holds), finished) :=
  loop_statementTurn blocks ts none [] ts.length.lt_succ_self

theorem inside_rulesInside (levels : Nat) :
    ∃ enters holds, Inside (rulesInside levels) enters holds ∧
      ∀ ts, (statements enters none ts).filterMap (Statement.node? holds) = nodes levels ts := by
  induction levels with
  | zero => exact ⟨false, _, .unentered, fun _ => rfl⟩
  | succ levels ih =>
    obtain ⟨enters, holds, blocks, same⟩ := ih
    refine ⟨true, nodes levels, .entered fun ts => ?_, fun _ => rfl⟩
    rw [contents_eq blocks, same]

theorem contents_rulesInside (levels : Nat) (ts : List Tree) :
    contents (rulesInside levels) (.start ts) = some (nodes levels ts, finished) := by
  obtain ⟨enters, holds, blocks, same⟩ := inside_rulesInside levels
  rw [contents_eq blocks, same]

/-! ### Progress -/

theorem progresses_skipTurn (skips : Tree → Bool) : Progresses id (skipTurn skips) := by
  rintro ⟨o, ts⟩
  cases ts with
  | nil => exact ⟨_, rfl, .leave finished⟩
  | cons t ts =>
    refine ⟨_, rfl, ?_⟩
    cases skips t with
    | true => exact .again [t] (List.cons_ne_nil t []) rfl
    | false => exact .leave _

theorem progresses_runTurn (blocks : Inside inside enters holds) (start : Reader) :
    Progresses id (runTurn inside start) := by
  rintro ⟨o, ts⟩
  cases ts with
  | nil => exact ⟨_, rfl, .leave _⟩
  | cons t ts =>
    cases ended : t.endsRun with
    | false => exact ⟨_, runTurn_goes_on start ended o ts, .again [t] (List.cons_ne_nil t []) rfl⟩
    | true => exact ⟨_, runTurn_ended blocks start ended o ts, .leave _⟩

theorem progresses_valueTurn {inside : Entry Component} {holds : List Tree → List Component}
    (blocks : Inside inside enters holds) (outermost : Bool) :
    Progresses Prod.fst (valueTurn outermost inside) := by
  rintro ⟨⟨o, ts⟩, found⟩
  cases ts with
  | nil => exact ⟨_, rfl, .leave _⟩
  | cons t ts =>
    cases ended : ends outermost t with
    | true => exact ⟨_, valueTurn_ended o found ts ended, .leave _⟩
    | false =>
      cases t with
      | leaf =>
        exact ⟨_, valueTurn_leaf o found ts ended, .again [_] (List.cons_ne_nil _ []) rfl⟩
      | block =>
        exact ⟨_, valueTurn_block blocks o found ts ended, .again [_] (List.cons_ne_nil _ []) rfl⟩

theorem progresses_statementTurn (blocks : Inside inside enters holds) :
    Progresses Prod.fst (statementTurn inside) := by
  rintro ⟨⟨o, ts⟩, found⟩
  cases starts : ts.dropWhile isSeparator with
  | nil => exact ⟨_, statementTurn_finished o found starts, .leave _⟩
  | cons t rest =>
    -- Whatever was tried first, the statement has at least its first token.
    obtain ⟨taken, split⟩ := cut_suffix t rest
    refine ⟨_, statementTurn_eq blocks o found starts, .again
      (ts.takeWhile isSeparator ++ t :: taken) (by simp) ?_⟩
    rw [List.append_assoc, List.cons_append, split, ← starts, List.takeWhile_append_dropWhile]

/-- Every turn of every loop leaves it or has taken a token, at every level and in every state; no
block is read only in part; and so reading ends on every text, with its nodes. -/
theorem reading_progresses :
    (∀ skips, Progresses id (skipTurn skips)) ∧
    (∀ levels start, Progresses id (runTurn (rulesInside levels) start)) ∧
    (∀ levels outermost, Progresses Prod.fst (valueTurn outermost (valuesInside levels))) ∧
    (∀ levels, Progresses Prod.fst (statementTurn (rulesInside levels))) ∧
    (∀ levels opener trees closer rest,
      enter (contents (rulesInside levels)) ⟨some (block opener trees closer), rest⟩ =
        some (some (nodes levels trees), ⟨none, rest⟩) ∧
      enter (components (valuesInside levels)) ⟨some (block opener trees closer), rest⟩ =
        some (some (Component.ofTrees levels [] trees), ⟨none, rest⟩)) ∧
    ∀ text, parse? text = some (parse text) := by
  refine ⟨progresses_skipTurn, fun levels start => ?_, fun levels outermost => ?_, fun levels => ?_,
    fun levels opener trees closer rest => ⟨?_, ?_⟩, fun text => ?_⟩
  · obtain ⟨_, _, blocks, _⟩ := inside_rulesInside levels
    exact progresses_runTurn blocks start
  · obtain ⟨_, _, blocks, _⟩ := inside_valuesInside levels
    exact progresses_valueTurn blocks outermost
  · obtain ⟨_, _, blocks, _⟩ := inside_rulesInside levels
    exact progresses_statementTurn blocks
  · exact enter_eq (contents_rulesInside levels trees) opener closer rest
  · obtain ⟨_, _, blocks, parts⟩ := inside_valuesInside levels
    exact enter_eq (components_eq blocks parts trees) opener closer rest
  · rw [parse?, contents_rulesInside]
    rfl

end Reader
end PageLint.Stylesheet
