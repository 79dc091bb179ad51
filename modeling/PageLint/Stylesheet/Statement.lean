import PageLint.Stylesheet.Tree
import PageLint.Text.Blank

/-!
# Statements

`statements` splits the contents of a stylesheet or a block into statements. Separators between
them are skipped. A statement is

- an at-rule: an at-keyword, up to the first `;`, the first block in braces, or the end;
- a declaration: a name and a colon, up to the first `;`, a stray closing brace, or the end, unless
  a block in braces comes first;
- any other run up to its first block in braces: a rule. If `;` comes first the run is dropped, and
  if the end comes first it is no statement at all.
-/

namespace PageLint.Stylesheet

open Text

/-- What reading left behind when it did not enter a block: the position just after the opening
bracket and the source text from there to the end of the block. Reading goes on from there, so a
statement that follows at once starts at that position. -/
structure Unread where
  position : Position
  text : List Char
  deriving Repr

/-- A statement. Texts are those of the source, without the blanks at their ends. -/
inductive Statement where
  | atRule (name : List Char) (prelude : List Char) (position : Position)
      (body : Option (List Tree))
  | rule (selector : List Char) (position : Position) (body : List Tree)
  | declaration (property : List Char) (position : Position) (value : List Tree)
  | dropped (text : List Char) (position : Position)
  deriving Repr

namespace Tree

/-- Whether a tree separates statements: a blank, a comment, `;`, a page comment mark or a stray
closing bracket. -/
def isSeparator : Tree → Bool
  | leaf t =>
    match t.kind with
    | .blank | .comment | .semicolon | .pageComment | .closes _ => true
    | _ => false
  | block .. => false

def isSpace : Tree → Bool
  | leaf t => t.kind == .blank || t.kind == .comment
  | block .. => false

def isSemicolon : Tree → Bool
  | leaf t => t.kind == .semicolon
  | block .. => false

def isStrayBrace : Tree → Bool
  | leaf t => t.kind == .closes .brace
  | block .. => false

/-- Whether a tree ends a run of a rule or an at-rule: `;` or a block in braces. -/
def endsRun (t : Tree) : Bool :=
  isSemicolon t || isBraceBlock t

/-- Whether a tree ends a declaration, or shows that it is none. -/
def endsValue (t : Tree) : Bool :=
  isSemicolon t || isStrayBrace t || isBraceBlock t

def braceBody? (t : Tree) : Option (List Tree) :=
  match t with
  | block _ inside _ => if t.isBraceBlock then some inside else none
  | leaf _ => none

/-- The source text from the start of several trees to the reading position after the last, which
for a block is just after its opening bracket. `unread` comes before it, if there is any tree. -/
def readText (unread : List Char) (ts : List Tree) : List Char :=
  match ts.getLast? with
  | none => []
  | some last => unread ++ textAll ts.dropLast ++ last.first.text

/-- What stays unread of a block in braces when it is not entered. -/
def unreadOf (enters : Bool) (t : Tree) : Option Unread :=
  if enters then none else some ⟨t.first.stop, t.innerText⟩

end Tree

open Stylesheet.Tree in
def readAtRule (enters : Bool) (name : List Char) (position : Position) (ts : List Tree) :
    Statement × Option Unread × List Tree :=
  let taken := ts.takeWhile (!endsRun ·)
  match ts.dropWhile (!endsRun ·) with
  -- An at-rule may end with the text, a rule may not.
  | [] => (.atRule name (trim (textAll taken)) position none, none, [])
  | t :: rest =>
    let unread := if isBraceBlock t then unreadOf enters t else none
    (.atRule name (trim (readText [] taken)) position (braceBody? t), unread, rest)

open Stylesheet.Tree in
/-- Reads the rest of a declaration after its property name, if it is one. -/
def readDeclaration? (property : List Char) (position : Position) (ts : List Tree) :
    Option (Statement × List Tree) :=
  match ts.dropWhile isSpace with
  | leaf colon :: ts =>
    if colon.kind == .colon then
      let rest := ts.dropWhile (!endsValue ·)
      -- With a block in braces it is a rule inside another, whose selector has a colon.
      if rest.head?.any isBraceBlock then none
      else some (.declaration property position (ts.takeWhile (!endsValue ·)), rest.drop 1)
    else none
  | _ => none

open Stylesheet.Tree in
def readRule (enters : Bool) (unread : Option Unread) (position : Position) (ts : List Tree) :
    Option Statement × Option Unread × List Tree :=
  let text := trim (readText (unread.elim [] Unread.text) (ts.takeWhile (!endsRun ·)))
  match ts.dropWhile (!endsRun ·) with
  | [] => (none, none, [])
  | t :: rest =>
    match braceBody? t with
    | some body => (some (.rule text position body), unreadOf enters t, rest)
    | none => (some (.dropped text position), none, rest)

open Stylesheet.Tree in
def readStatement (enters : Bool) (unread : Option Unread) (t : Tree) (ts : List Tree) :
    Option Statement × Option Unread × List Tree :=
  let position := unread.elim t.first.start Unread.position
  match t with
  | leaf ⟨.atKeyword name, _, _⟩ =>
    let (statement, unread, rest) := readAtRule enters name position ts
    (some statement, unread, rest)
  | leaf ⟨.ident name, _, _⟩ =>
    match readDeclaration? name position ts with
    | some (statement, rest) => (some statement, none, rest)
    | none => readRule enters unread position (t :: ts)
  | _ => readRule enters unread position (t :: ts)

theorem length_dropWhile_le (p : Tree → Bool) (ts : List Tree) :
    (ts.dropWhile p).length ≤ ts.length :=
  (List.dropWhile_suffix p).length_le

theorem length_readAtRule_le (enters : Bool) (name : List Char) (position : Position)
    (ts : List Tree) : (readAtRule enters name position ts).2.2.length ≤ ts.length := by
  have := length_dropWhile_le (!Tree.endsRun ·) ts
  unfold readAtRule
  split
  · simp
  · rename_i eq; rw [eq, List.length_cons] at this; exact Nat.le_of_succ_le this

theorem length_readDeclaration?_lt {property : List Char} {position : Position} {ts : List Tree}
    {r : Statement × List Tree} (h : readDeclaration? property position ts = some r) :
    r.2.length < ts.length := by
  have dropped := length_dropWhile_le Tree.isSpace ts
  unfold readDeclaration? at h
  split at h
  · rename_i colon ts' eq
    rw [eq, List.length_cons] at dropped
    dsimp only at h
    split at h
    · split at h
      · cases h
      · cases h
        have := length_dropWhile_le (!Tree.endsValue ·) ts'
        simp only [List.length_drop]
        omega
    · cases h
  · cases h

theorem length_readRule_lt (enters : Bool) (unread : Option Unread) (position : Position)
    (t : Tree) (ts : List Tree) :
    (readRule enters unread position (t :: ts)).2.2.length < (t :: ts).length := by
  have := length_dropWhile_le (!Tree.endsRun ·) (t :: ts)
  unfold readRule
  split
  · simp
  · rename_i eq
    rw [eq] at this
    split <;> exact this

/-- Reading a statement takes at least the tree it starts with. -/
theorem length_readStatement_le (enters : Bool) (unread : Option Unread) (t : Tree)
    (ts : List Tree) : (readStatement enters unread t ts).2.2.length ≤ ts.length := by
  have rule position := length_readRule_lt enters unread position t ts
  simp only [List.length_cons, Nat.lt_succ_iff] at rule
  unfold readStatement
  dsimp only
  split
  · exact length_readAtRule_le ..
  · split
    · rename_i h; exact Nat.le_of_lt (length_readDeclaration?_lt h)
    · exact rule _
  · exact rule _

/-- The statements of the contents of a stylesheet or a block. `enters` says whether the blocks of
these statements will be entered. -/
def statements (enters : Bool) (unread : Option Unread) (ts : List Tree) : List Statement :=
  match _h : ts.dropWhile Tree.isSeparator with
  | [] => []
  | t :: rest =>
    -- A separator takes what was left unread, so only a statement that follows at once has it.
    let next := readStatement enters (if ts.head?.any Tree.isSeparator then none else unread) t rest
    next.1.toList ++ statements enters next.2.1 next.2.2
termination_by ts.length
decreasing_by
  have shorter := length_dropWhile_le Tree.isSeparator ts
  rw [_h, List.length_cons] at shorter
  exact Nat.lt_of_le_of_lt (length_readStatement_le ..) shorter

end PageLint.Stylesheet
