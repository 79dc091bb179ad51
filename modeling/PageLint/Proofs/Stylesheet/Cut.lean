import PageLint.Proofs.Stylesheet.Grammar

/-!
# How a statement is cut from what follows it

`cut` says which trees a statement is made of. It looks at kinds only: what the texts are, where
they stand and whether blocks are entered makes no difference to it (`readStatement_eq`).
-/

namespace PageLint.Stylesheet

open Text Stylesheet.Tree

/-- The trees of a statement. `stop` is the `;` or the block in braces that ends it. -/
inductive Piece where
  | atRule (name : List Char) (run : List Tree) (stop : Option Tree)
  | declaration (name : List Char) (value : List Tree)
  | other (run : List Tree) (stop : Option Tree)

namespace Piece

def statement? (unread : List Char) (start : Position) : Piece → Option Statement
  | atRule name run none => some (.atRule name (trim (textAll run)) start none)
  | atRule name run (some stop) =>
    some (.atRule name (trim (readText [] run)) start stop.braceBody?)
  | declaration name value => some (.declaration name start value)
  | other _ none => none
  | other run (some stop) =>
    some (match stop.braceBody? with
      | some body => .rule (trim (readText unread run)) start body
      | none => .dropped (trim (readText unread run)) start)

def stop? : Piece → Option Tree
  | atRule _ _ stop | other _ stop => stop
  | declaration .. => none

def block? (piece : Piece) : Option Tree :=
  piece.stop?.filter isBraceBlock

end Piece

/-- The trees before the first that `ends` holds of, that one, and those after it. -/
def halt (ends : Tree → Bool) : List Tree → List Tree × Option Tree × List Tree
  | [] => ([], none, [])
  | t :: ts =>
    if ends t then ([], some t, ts)
    else (t :: (halt ends ts).1, (halt ends ts).2)

def value? (ts : List Tree) : Option (List Tree × List Tree) :=
  match ts.dropWhile isSpace with
  | leaf colon :: ts =>
    if colon.kind = .colon && !(halt endsValue ts).2.1.any isBraceBlock then
      some ((halt endsValue ts).1, (halt endsValue ts).2.2)
    else none
  | _ => none

def cutOther (ts : List Tree) : Piece × List Tree :=
  (.other (halt endsRun ts).1 (halt endsRun ts).2.1, (halt endsRun ts).2.2)

def cut (t : Tree) (ts : List Tree) : Piece × List Tree :=
  match t with
  | leaf token =>
    match token.kind with
    | .atKeyword name =>
      (.atRule name (halt endsRun ts).1 (halt endsRun ts).2.1, (halt endsRun ts).2.2)
    | .ident name => (value? ts).elim (cutOther (t :: ts)) fun r => (.declaration name r.1, r.2)
    | _ => cutOther (t :: ts)
  | block .. => cutOther (t :: ts)

theorem halt_eq (ends : Tree → Bool) (ts : List Tree) :
    halt ends ts =
      (ts.takeWhile (!ends ·), (ts.dropWhile (!ends ·)).head?, (ts.dropWhile (!ends ·)).tail) := by
  induction ts with
  | nil => rfl
  | cons t ts ih =>
    rw [halt, List.takeWhile_cons, List.dropWhile_cons, ih]
    cases ends t <;> rfl

theorem readAtRule_eq (enters : Bool) (name text : List Char) (start : Position) (ts : List Tree) :
    (some (readAtRule enters name start ts).1, (readAtRule enters name start ts).2) =
      let piece := Piece.atRule name (halt endsRun ts).1 (halt endsRun ts).2.1
      (piece.statement? text start, piece.block?.bind (unreadOf enters),
        (halt endsRun ts).2.2) := by
  rw [halt_eq]
  unfold readAtRule
  dsimp only
  cases ts.dropWhile (!endsRun ·) with
  | nil => rfl
  | cons stop rest =>
    simp only [Piece.statement?, Piece.block?, Piece.stop?, List.head?_cons, Option.filter]
    split <;> rfl

theorem readRule_eq (enters : Bool) (unread : Option Unread) (start : Position) (ts : List Tree) :
    readRule enters unread start ts =
      ((cutOther ts).1.statement? (unread.elim [] Unread.text) start,
        (cutOther ts).1.block?.bind (unreadOf enters), (cutOther ts).2) := by
  unfold readRule cutOther
  rw [halt_eq]
  dsimp only
  cases ts.dropWhile (!endsRun ·) with
  | nil => rfl
  | cons stop rest =>
    cases stop with
    | leaf => rfl
    | block opener inside closer =>
      simp only [Piece.statement?, Piece.block?, Piece.stop?, List.head?_cons, Option.filter,
        braceBody?]
      cases (block opener inside closer).isBraceBlock <;> rfl

theorem readDeclaration?_eq (name : List Char) (start : Position) (ts : List Tree) :
    readDeclaration? name start ts =
      (value? ts).map fun r => (.declaration name start r.1, r.2) := by
  unfold readDeclaration? value?
  cases ts.dropWhile isSpace with
  | nil => rfl
  | cons t after =>
    cases t with
    | block => rfl
    | leaf colon =>
      dsimp only
      rw [halt_eq, List.drop_one]
      by_cases is_colon : colon.kind = .colon
      · rw [is_colon]
        cases (after.dropWhile (!endsValue ·)).head?.any isBraceBlock <;> rfl
      · rw [beq_false_of_ne is_colon, decide_eq_false is_colon]
        rfl

/-- Reading a statement cuts it off and then takes its texts from the source. -/
theorem readStatement_eq (enters : Bool) (unread : Option Unread) (t : Tree) (ts : List Tree) :
    readStatement enters unread t ts =
      ((cut t ts).1.statement? (unread.elim [] Unread.text)
          (unread.elim t.first.start Unread.position),
        (cut t ts).1.block?.bind (unreadOf enters), (cut t ts).2) := by
  unfold readStatement
  dsimp only
  split
  · exact readAtRule_eq ..
  · rw [readDeclaration?_eq, cut]
    cases value? ts with
    | none => exact readRule_eq ..
    | some r => rfl
  · rename_i no_atRule no_ident
    rw [readRule_eq]
    cases t with
    | block => rfl
    | leaf token =>
      obtain ⟨kind, word, start⟩ := token
      cases kind with
      | atKeyword => exact absurd rfl (no_atRule _ _ _)
      | ident => exact absurd rfl (no_ident _ _ _)
      | _ => rfl

/-! ### What is cut off -/

variable {ends : Tree → Bool} {t stop last : Tree} {ts rest : List Tree} {enters : Bool}
  {unread : Option Unread}

theorem halt_split (ends : Tree → Bool) (ts : List Tree) :
    (halt ends ts).1 ++ ((halt ends ts).2.1.toList ++ (halt ends ts).2.2) = ts := by
  induction ts with
  | nil => rfl
  | cons t ts ih =>
    rw [halt]
    split
    · rfl
    · rw [List.cons_append, ih]

theorem halt_ends (found : (halt ends ts).2.1 = some stop) : ends stop = true := by
  induction ts with
  | nil => cases found
  | cons t ts ih =>
    rw [halt] at found
    split at found
    · rename_i ended
      cases found
      exact ended
    · exact ih found

theorem halt_unended (ends : Tree → Bool) (ts : List Tree) :
    ∀ t ∈ (halt ends ts).1, ends t = false := by
  rw [halt_eq]
  intro t member
  have passes := List.mem_takeWhile_imp (p := (!ends ·)) member
  exact (Bool.not_eq_true' _).mp passes

theorem halt_of_runs {stop : Option Tree} (runs : Runs ts run stop rest) :
    halt endsRun ts = (run, stop, rest) := by
  cases runs with
  | atEnd unended =>
    rw [halt_eq, takeWhile_unended unended, dropWhile_unended unended]
    rfl
  | atBlock split unended brace =>
    have ended := endsRun_of_brace brace
    rw [halt_eq, split, takeWhile_run unended (ended _ _), dropWhile_run unended (ended _ _)]
    rfl
  | atSemicolon split unended semicolon =>
    have ended := endsRun_of_semicolon semicolon
    rw [halt_eq, split, takeWhile_run unended ended, dropWhile_run unended ended]
    rfl

theorem halt_suffix (ends : Tree → Bool) (ts : List Tree) : (halt ends ts).2.2 <:+ ts := by
  rw [halt_eq]
  exact (List.tail_suffix _).trans (List.dropWhile_suffix _)

theorem stop_mem (found : (halt ends ts).2.1 = some stop) : stop ∈ ts := by
  rw [halt_eq] at found
  exact (List.dropWhile_suffix _).subset (List.mem_of_head? found)

inductive Cuts (t : Tree) (ts : List Tree) : Piece × List Tree → Prop
  | atRule {name token} (keyword : t = leaf token) (kind : token.kind = .atKeyword name) :
      Cuts t ts (.atRule name (halt endsRun ts).1 (halt endsRun ts).2.1, (halt endsRun ts).2.2)
  | declaration {name token value rest} (leads : t = leaf token)
      (found : value? ts = some (value, rest)) :
      Cuts t ts (.declaration name value, rest)
  | other : Cuts t ts (cutOther (t :: ts))

theorem cuts (t : Tree) (ts : List Tree) : Cuts t ts (cut t ts) := by
  unfold cut
  split
  · split
    · rename_i keyword
      exact .atRule rfl keyword
    · cases found : value? ts with
      | none => exact .other
      | some r => exact .declaration rfl found
    · exact .other
  · exact .other

theorem isBraceBlock_of_space (space : t.isSpace = true) : t.isBraceBlock = false := by
  cases t with
  | leaf => rfl
  | block => cases space

theorem isBraceBlock_of_value (unended : t.endsValue = false) : t.isBraceBlock = false :=
  (Bool.or_eq_false_iff.mp unended).2

/-- A declaration takes no block in braces. -/
theorem value?_taken {value : List Tree} (found : value? ts = some (value, rest)) :
    ∃ taken, ts = taken ++ rest ∧ ∀ t ∈ taken, t.isBraceBlock = false := by
  unfold value? at found
  split at found
  · rename_i colon after dropped
    split at found
    · rename_i accepted
      cases found
      refine ⟨ts.takeWhile isSpace ++ leaf colon :: ((halt endsValue after).1 ++
        (halt endsValue after).2.1.toList), ?_, ?_⟩
      · rw [List.append_assoc, List.cons_append, List.append_assoc, halt_split, ← dropped,
          List.takeWhile_append_dropWhile]
      · intro t member
        rcases List.mem_append.mp member with space | member
        · exact isBraceBlock_of_space (List.mem_takeWhile_imp space)
        rcases List.mem_cons.mp member with rfl | member
        · rfl
        rcases List.mem_append.mp member with part | stop
        · exact isBraceBlock_of_value (halt_unended endsValue after t part)
        · rw [Option.mem_toList.mp stop] at accepted
          exact (Bool.not_eq_true' _).mp (Bool.and_eq_true_iff.mp accepted).2
    · cases found
  · cases found

theorem halt_suffix_cons (ends : Tree → Bool) (t : Tree) (ts : List Tree) :
    (halt ends (t :: ts)).2.2 <:+ ts := by
  rw [halt]
  split
  · exact List.suffix_refl ts
  · exact halt_suffix ends ts

theorem cut_suffix (t : Tree) (ts : List Tree) : (cut t ts).2 <:+ ts := by
  have ways := cuts t ts
  generalize cut t ts = result at ways
  cases ways with
  | atRule => exact halt_suffix endsRun ts
  | declaration _ found =>
    obtain ⟨taken, rfl, _⟩ := value?_taken found
    exact List.suffix_append taken _
  | other => exact halt_suffix_cons endsRun t ts

theorem block?_mem (ended : (cut t ts).1.block? = some last) : last ∈ t :: ts := by
  have ways := cuts t ts
  generalize cut t ts = result at ways ended
  cases ways with
  | atRule =>
    obtain ⟨found, _⟩ := Option.filter_eq_some_iff.mp ended
    exact List.mem_cons_of_mem t (stop_mem found)
  | declaration => cases ended
  | other =>
    obtain ⟨found, _⟩ := Option.filter_eq_some_iff.mp ended
    exact stop_mem found

/-! ### All statements -/

theorem statements_nil (finished : ts.dropWhile isSeparator = []) :
    statements enters unread ts = [] := by
  rw [statements]
  split
  · rfl
  · rename_i starts
    rw [finished] at starts
    cases starts

/-- What is unread before a statement: nothing, if a separator comes between. -/
def unreadBefore (unread : Option Unread) (ts : List Tree) : Option Unread :=
  if ts.head?.any isSeparator then none else unread

theorem statements_cut (starts : ts.dropWhile isSeparator = t :: rest) :
    statements enters unread ts =
      ((cut t rest).1.statement? ((unreadBefore unread ts).elim [] Unread.text)
        ((unreadBefore unread ts).elim t.first.start Unread.position)).toList ++
      statements enters ((cut t rest).1.block?.bind (unreadOf enters)) (cut t rest).2 := by
  rw [statements]
  split
  · rename_i finished
    rw [finished] at starts
    cases starts
  · rename_i again
    obtain ⟨rfl, rfl⟩ := List.cons.inj (again.symm.trans starts)
    simp only [readStatement_eq]
    rfl

/-- Induction over the statements of trees, from the last to the first. -/
theorem statements_induction {motive : List Tree → Prop} (ts : List Tree)
    (finished : ∀ ts, ts.dropWhile isSeparator = [] → motive ts)
    (statement : ∀ ts t rest, ts.dropWhile isSeparator = t :: rest → motive (cut t rest).2 →
      motive ts) :
    motive ts := by
  induction length : ts.length using Nat.strongRecOn generalizing ts with
  | _ n ih =>
    cases starts : ts.dropWhile isSeparator with
    | nil => exact finished ts starts
    | cons t rest =>
      have dropped := (List.dropWhile_suffix isSeparator (l := ts)).length_le
      rw [starts, List.length_cons] at dropped
      have shorter := (cut_suffix t rest).length_le
      exact statement ts t rest starts (ih _ (by omega) _ rfl)

theorem toTokensAll_suffix {ts us : List Tree} (suffix : us <:+ ts) :
    toTokensAll us <:+ toTokensAll ts := by
  obtain ⟨front, rfl⟩ := suffix
  rw [toTokensAll_append]
  exact List.suffix_append _ _

theorem toTokensAll_body {ts body : List Tree} {opener : Token} {closer : Option Token}
    (member : block opener body closer ∈ ts) : toTokensAll body <:+: toTokensAll ts := by
  obtain ⟨front, back, rfl⟩ := List.append_of_mem member
  refine ⟨toTokensAll front ++ [opener], closer.toList ++ toTokensAll back, ?_⟩
  rw [toTokensAll_append, toTokensAll, toTokens]
  simp only [List.append_assoc, List.cons_append, List.nil_append]

theorem textAll_append (ts us : List Tree) : textAll (ts ++ us) = textAll ts ++ textAll us := by
  rw [textAll, toTokensAll_append, List.flatMap_append, textAll, textAll]

/-! ### What cutting does not look at -/

/-- `k'` is `k`, or a name is no longer read as one. -/
def TokenKind.Kept (k k' : TokenKind) : Prop :=
  k' = k ∨ (∃ name, k = .ident name) ∧ k' = .other

/-- What does not look at names does not notice whether one is read as such. -/
theorem TokenKind.Kept.same {α : Type} {k k' : TokenKind} (kept : k.Kept k') {f : TokenKind → α}
    (no_name : ∀ name, f .other = f (.ident name)) : f k' = f k := by
  rcases kept with rfl | ⟨⟨name, rfl⟩, rfl⟩
  · rfl
  · exact no_name name

inductive Alike : Tree → Tree → Prop
  | leaf {t u} (kept : t.kind.Kept u.kind) : Alike (leaf t) (leaf u)
  | block {opener opener' inside inside' closer closer'} (kept : opener.kind.Kept opener'.kind) :
      Alike (block opener inside closer) (block opener' inside' closer')

def Tree.name? : Tree → Option (List Char)
  | leaf t =>
    match t.kind with
    | .ident name => some name
    | _ => none
  | block .. => none

def Tree.isComment : Tree → Bool
  | leaf t => t.kind == .comment
  | block .. => false

/-- `change` puts a tree of the same kind in the place of each tree, and may leave out comments. -/
def KeepsKinds (change : Tree → Option Tree) : Prop :=
  ∀ t, (change t = none ∧ t.isComment = true) ∨ ∃ u, change t = some u ∧ Alike t u

namespace Alike

variable {t u : Tree}

theorem isSpace (alike : Alike t u) : u.isSpace = t.isSpace := by
  cases alike with
  | leaf kept => exact kept.same (f := fun k => (Tree.leaf ⟨k, [], {}⟩).isSpace) fun _ => rfl
  | block => rfl

theorem isSeparator (alike : Alike t u) : u.isSeparator = t.isSeparator := by
  cases alike with
  | leaf kept => exact kept.same (f := fun k => (Tree.leaf ⟨k, [], {}⟩).isSeparator) fun _ => rfl
  | block => rfl

theorem isBraceBlock (alike : Alike t u) : u.isBraceBlock = t.isBraceBlock := by
  cases alike with
  | leaf => rfl
  | block kept => exact kept.same (f := (· == .opens .brace)) fun _ => rfl

theorem endsRun (alike : Alike t u) : u.endsRun = t.endsRun := by
  have brace := alike.isBraceBlock
  cases alike with
  | leaf kept => exact kept.same (f := fun k => (Tree.leaf ⟨k, [], {}⟩).endsRun) fun _ => rfl
  | block => exact brace

theorem endsValue (alike : Alike t u) : u.endsValue = t.endsValue := by
  have brace := alike.isBraceBlock
  cases alike with
  | leaf kept => exact kept.same (f := fun k => (Tree.leaf ⟨k, [], {}⟩).endsValue) fun _ => rfl
  | block => exact brace

end Alike

def Piece.map (change : Tree → Option Tree) : Piece → Piece
  | atRule name run stop => .atRule name (run.filterMap change) (stop.bind change)
  | declaration name value => .declaration name (value.filterMap change)
  | other run stop => .other (run.filterMap change) (stop.bind change)

section Changes

variable {change : Tree → Option Tree} {t u : Tree} {ts rest : List Tree}

theorem KeepsKinds.of_not_comment (keeps : KeepsKinds change) (no_comment : t.isComment = false) :
    ∃ u, change t = some u ∧ Alike t u := by
  rcases keeps t with ⟨_, comment⟩ | found
  · rw [comment] at no_comment
    cases no_comment
  · exact found

theorem dropWhile_change (keeps : KeepsKinds change) {p : Tree → Bool}
    (comments : ∀ t, t.isComment = true → p t = true) (same : ∀ t u, Alike t u → p u = p t)
    (ts : List Tree) : (ts.filterMap change).dropWhile p = (ts.dropWhile p).filterMap change := by
  induction ts with
  | nil => rfl
  | cons t ts ih =>
    rw [List.dropWhile_cons]
    rcases keeps t with ⟨gone, comment⟩ | ⟨u, kept, alike⟩
    · rw [List.filterMap_cons_none gone, ih, if_pos (comments t comment)]
    · rw [List.filterMap_cons_some kept, List.dropWhile_cons, same t u alike, ih]
      split
      · rfl
      · rw [List.filterMap_cons_some kept]

theorem of_dropWhile_cons {p : Tree → Bool} (dropped : ts.dropWhile p = t :: rest) :
    p t = false := by
  have first := List.head?_dropWhile_not p ts
  rw [dropped] at first
  exact first

theorem dropWhile_change_cons (keeps : KeepsKinds change) {p : Tree → Bool}
    (comments : ∀ t, t.isComment = true → p t = true) (same : ∀ t u, Alike t u → p u = p t)
    (dropped : ts.dropWhile p = t :: rest) :
    ∃ u, change t = some u ∧ Alike t u ∧
      (ts.filterMap change).dropWhile p = u :: rest.filterMap change := by
  have no_comment : t.isComment = false := by
    refine Bool.eq_false_iff.mpr fun comment => ?_
    have passes := comments t comment
    rw [of_dropWhile_cons dropped] at passes
    cases passes
  obtain ⟨u, kept, alike⟩ := keeps.of_not_comment no_comment
  refine ⟨u, kept, alike, ?_⟩
  rw [dropWhile_change keeps comments same, dropped, List.filterMap_cons_some kept]

theorem halt_change (keeps : KeepsKinds change) {ends : Tree → Bool}
    (comments : ∀ t, t.isComment = true → ends t = false)
    (same : ∀ t u, Alike t u → ends u = ends t)
    (ts : List Tree) :
    halt ends (ts.filterMap change) =
      ((halt ends ts).1.filterMap change, (halt ends ts).2.1.bind change,
        (halt ends ts).2.2.filterMap change) := by
  induction ts with
  | nil => rfl
  | cons t ts ih =>
    rw [halt]
    rcases keeps t with ⟨gone, comment⟩ | ⟨u, kept, alike⟩
    · rw [List.filterMap_cons_none gone, ih, comments t comment, if_neg Bool.false_ne_true,
        List.filterMap_cons_none gone]
    · rw [List.filterMap_cons_some kept, halt, same t u alike, ih]
      split
      · rw [Option.bind_some, kept]
        rfl
      · rw [List.filterMap_cons_some kept]

theorem isSpace_of_comment (comment : t.isComment = true) : t.isSpace = true := by
  cases t with
  | leaf => exact Bool.or_eq_true_iff.mpr (.inr comment)
  | block => cases comment

theorem isSeparator_of_comment (comment : t.isComment = true) : t.isSeparator = true := by
  cases t with
  | leaf => rw [isSeparator, eq_of_beq comment]
  | block => cases comment

theorem endsRun_of_comment (comment : t.isComment = true) : t.endsRun = false := by
  cases t with
  | leaf => rw [endsRun, isSemicolon, eq_of_beq comment]; rfl
  | block => cases comment

theorem endsValue_of_comment (comment : t.isComment = true) : t.endsValue = false := by
  cases t with
  | leaf => rw [endsValue, isSemicolon, isStrayBrace, eq_of_beq comment]; rfl
  | block => cases comment

theorem value?_change (keeps : KeepsKinds change) (ts : List Tree) :
    value? (ts.filterMap change) =
      (value? ts).map fun r => (r.1.filterMap change, r.2.filterMap change) := by
  have block (ts : List Tree) : ((halt endsValue ts).2.1.bind change).any isBraceBlock =
      (halt endsValue ts).2.1.any isBraceBlock := by
    cases found : (halt endsValue ts).2.1 with
    | none => rfl
    | some stop =>
      have no_comment : stop.isComment = false := by
        refine Bool.eq_false_iff.mpr fun comment => ?_
        exact absurd (halt_ends found) (Bool.eq_false_iff.mp (endsValue_of_comment comment))
      obtain ⟨u, kept, alike⟩ := keeps.of_not_comment no_comment
      rw [Option.bind_some, kept]
      exact alike.isBraceBlock
  unfold value?
  cases dropped : ts.dropWhile isSpace with
  | nil =>
    rw [dropWhile_change keeps (fun _ => isSpace_of_comment) fun _ _ => Alike.isSpace, dropped]
    rfl
  | cons t after =>
    obtain ⟨u, kept, alike, dropped⟩ := dropWhile_change_cons keeps (fun _ => isSpace_of_comment)
      (fun _ _ => Alike.isSpace) dropped
    rw [dropped]
    cases alike with
    | block => rfl
    | @leaf colon _ kept' =>
      have colon_kept := kept'.same (f := fun k => decide (k = .colon)) fun _ => rfl
      dsimp only
      rw [halt_change keeps (fun _ => endsValue_of_comment) fun _ _ => Alike.endsValue, block,
        colon_kept]
      split <;> rfl

theorem cutOther_change (keeps : KeepsKinds change) (ts : List Tree) :
    cutOther (ts.filterMap change) =
      ((cutOther ts).1.map change, (cutOther ts).2.filterMap change) := by
  unfold cutOther
  rw [halt_change keeps (fun _ => endsRun_of_comment) fun _ _ => Alike.endsRun]
  rfl

/-- A change goes through cutting, if no name of a declaration is read as none. -/
theorem cut_change (keeps : KeepsKinds change) (kept : change t = some u) (alike : Alike t u)
    (ts : List Tree) (named : u.name? = t.name? ∨ value? ts = none) :
    cut u (ts.filterMap change) = ((cut t ts).1.map change, (cut t ts).2.filterMap change) := by
  have other : cutOther (u :: ts.filterMap change) =
      ((cutOther (t :: ts)).1.map change, (cutOther (t :: ts)).2.filterMap change) := by
    rw [← cutOther_change keeps, List.filterMap_cons_some kept]
  cases alike with
  | block => exact other
  | @leaf token token' kept_kind =>
    rcases kept_kind with same | ⟨⟨name, ident⟩, unnamed⟩
    · unfold cut
      dsimp only
      rw [same]
      split
      · rw [halt_change keeps (fun _ => endsRun_of_comment) fun _ _ => Alike.endsRun]
        rfl
      · rw [value?_change keeps]
        cases value? ts with
        | none => exact other
        | some r => rfl
      · exact other
    · -- Only a declaration needs the name, and there is none.
      have no_value : value? ts = none := by
        refine named.resolve_left fun same => ?_
        rw [Tree.name?, unnamed, Tree.name?, ident] at same
        cases same
      have cut_named : cut (leaf token) ts = cutOther (leaf token :: ts) := by
        rw [cut, ident]
        dsimp only
        rw [no_value]
        rfl
      have cut_unnamed : cut (leaf token') (ts.filterMap change) =
          cutOther (leaf token' :: ts.filterMap change) := by
        rw [cut, unnamed]
      rw [cut_named, cut_unnamed, other]

end Changes

end PageLint.Stylesheet
