import PageLint.Proofs.Stylesheet.Components
import PageLint.Proofs.Stylesheet.SourceText

/-!
# Reading in loops

A `Reader` stands somewhere in the contents of a stylesheet or a block and takes one token after the
other, a block for one token. All reading is done by loops that know nothing of what is ahead: the
one over statements reads a declaration however far it goes, and returns to its start if it is none.
A loop has no result if it takes more than one turn for each token that is left and one at the end.
`reading_progresses` says that there always is a result, and that it is what `parse` gives.
-/

namespace PageLint.Stylesheet

open Text Stylesheet.Tree

/-! ### Loops -/

inductive Turn (σ α : Type) where
  | again (state : σ)
  | leave (result : α)

/-- Takes turns until one leaves the loop, but no more than `turns`. -/
def loop (turn : σ → Option (Turn σ α)) : (turns : Nat) → σ → Option α
  | 0, _ => none
  | turns + 1, state => do
    match ← turn state with
    | .again state => loop turn turns state
    | .leave result => return result

variable {σ α : Type} {turn : σ → Option (Turn σ α)} {s s' : σ} {a : α}

theorem loop_again (taken : turn s = some (.again s')) (turns : Nat) :
    loop turn (turns + 1) s = loop turn turns s' := by
  rw [loop, taken]
  rfl

theorem loop_leave (taken : turn s = some (.leave a)) (turns : Nat) :
    loop turn (turns + 1) s = some a := by
  rw [loop, taken]
  rfl

/-! ### Readers -/

/-- The tree itself, if its inside may be entered. -/
def Tree.opened? : Tree → Option Tree
  | leaf _ => none
  | block opener inside closer => some (block opener inside closer)

/-- A place in the contents of a stylesheet or a block. Behind a block that has been read, a reader
stands just after the opening bracket: the block is `opened` until it is entered or the next token
is read. `rest` is what comes after it. -/
structure Reader where
  opened : Option Tree
  rest : List Tree

/-- How to read what a block holds, if it is entered. -/
abbrev Entry (α : Type) := Option (Reader → Option (List α × Reader))

namespace Reader

def start (ts : List Tree) : Reader := ⟨none, ts⟩

def finished : Reader := ⟨none, []⟩

def next? (r : Reader) : Option (Tree × Reader) :=
  match r.rest with
  | [] => none
  | t :: rest => some (t, ⟨t.opened?, rest⟩)

/-- As many turns as there are tokens left, and one for the end. -/
def turns (r : Reader) : Nat :=
  r.rest.length + 1

def text (r : Reader) : List Char :=
  r.opened.elim [] innerText ++ textAll r.rest

def textUntil (start stop : Reader) : List Char :=
  start.text.take (start.text.length - stop.text.length)

def position (r : Reader) (t : Tree) : Position :=
  r.opened.elim t.first.start (·.first.stop)

/-- Reads the block just opened, and gives the place behind it. What has been read of it counts only
if nothing but blanks and comments is left. -/
def enter (read : Reader → Option (α × Reader)) (r : Reader) : Option (Option α × Reader) :=
  match r.opened with
  | some (block _ inside _) => do
    let (found, left) ← read (.start inside)
    return (if left.rest.all isSpace then some found else none, ⟨none, r.rest⟩)
  | _ => none

def body (read : Entry α) (r : Reader) : Option (List α × Reader) :=
  match read with
  | none => some ([], r)
  | some read => do
    let (found, behind) ← r.enter read
    return (found.getD [], behind)

/-! ### Turns -/

def skipTurn (skips : Tree → Bool) (r : Reader) : Option (Turn Reader Reader) :=
  match r.next? with
  | none => some (.leave finished)
  | some (t, after) => some (if skips t then .again after else .leave r)

def skip (skips : Tree → Bool) (r : Reader) : Option Reader :=
  loop (skipTurn skips) r.turns r

/-- Reads a token of a rule or an at-rule, whose text starts at `start`. It ends at a `;`, at the
end, or at a block in braces, whose nodes are read with `inside`. -/
def runTurn (inside : Entry Node) (start r : Reader) :
    Option (Turn Reader (List Char × Option (List Node) × Reader)) :=
  match r.next? with
  | none => some (.leave (trim (start.textUntil finished), none, finished))
  | some (t, after) =>
    if t.isSemicolon then some (.leave (trim (start.textUntil r), none, after))
    else if t.isBraceBlock then do
      let (children, behind) ← after.body inside
      return .leave (trim (start.textUntil r), some children, behind)
    else some (.again after)

def run (inside : Entry Node) (start : Reader) :
    Option (List Char × Option (List Node) × Reader) :=
  loop (runTurn inside start) start.turns start

/-- The value of a declaration is the `outermost` and ends at a `;`, a stray brace or a block in
braces, what functions and blocks of it hold only at their end. -/
def ends (outermost : Bool) (t : Tree) : Bool :=
  outermost && t.endsValue

/-- Reads a token of a value, where what functions and blocks hold is read with `inside`. There is
no value if it comes to a block in braces that would end it. -/
def valueTurn (outermost : Bool) (inside : Entry Component) :
    Reader × List Component →
      Option (Turn (Reader × List Component) (Option (List Component) × Reader))
  | (r, found) =>
    match r.next? with
    | none => some (.leave (some found, finished))
    | some (t, after) =>
      if ends outermost t then
        some (.leave (if t.isBraceBlock then none else some found, after))
      else
        match t with
        | leaf token =>
          match token.kind with
          | .blank => some (.again (after, found ++ [.blank]))
          | .comment => some (.again (after, found))
          | _ => some (.again (after, found ++ [.token (String.ofList (r.textUntil after))]))
        | block opener _ _ => do
          let (contents, behind) ← after.body inside
          return .again (behind, found ++ [.ofBlock opener.kind contents])

def value (outermost : Bool) (inside : Entry Component) (r : Reader) :
    Option (Option (List Component) × Reader) :=
  loop (valueTurn outermost inside) r.turns (r, [])

def components (inside : Entry Component) (r : Reader) : Option (List Component × Reader) := do
  let (found, left) ← r.value false inside
  return (found.getD [], left)

/-- How to read what a function or a block of a value holds, if `levels` of them may be entered. -/
def valuesInside : (levels : Nat) → Entry Component
  | 0 => none
  | levels + 1 => some (components (valuesInside levels))

def declaration? (name : List Char) (position : Position) (r : Reader) :
    Option (Option (Declaration × Reader)) := do
  let r ← r.skip isSpace
  match r.next? with
  | some (leaf ⟨.colon, _, _⟩, after) =>
    let (found, behind) ← after.value true (valuesInside maxNesting)
    return found.map fun components =>
      let (components, important) := Component.splitImportant components
      (⟨String.ofList name, components, important, position⟩, behind)
  | _ => return none

def rule? (inside : Entry Node) (position : Position) (r : Reader) :
    Option (Option Node × Reader) := do
  let (selector, children, behind) ← r.run inside
  return (children.map (.rule (String.ofList selector) position), behind)

def atRule (inside : Entry Node) (name : List Char) (position : Position) (r : Reader) :
    Option (Node × Reader) := do
  let (prelude, children, behind) ← r.run inside
  return (.atRule (String.ofList name) (String.ofList prelude) position children, behind)

/-- Passes over what separates statements and reads one. If a name turns out to start no
declaration, reading goes back to it and takes it for the start of a rule. -/
def statementTurn (inside : Entry Node) :
    Reader × List Node → Option (Turn (Reader × List Node) (List Node × Reader))
  | (r, found) => do
    let first ← r.skip isSeparator
    match first.next? with
    | none => return .leave (found, finished)
    | some (t, after) =>
      let position := first.position t
      match t with
      | leaf ⟨.atKeyword name, _, _⟩ =>
        let (node, behind) ← after.atRule inside name position
        return .again (behind, found ++ [node])
      | leaf ⟨.ident name, _, _⟩ =>
        match ← after.declaration? name position with
        | some (declaration, behind) => return .again (behind, found ++ [.declaration declaration])
        | none =>
          let (node, behind) ← first.rule? inside position
          return .again (behind, found ++ node.toList)
      | _ =>
        let (node, behind) ← first.rule? inside position
        return .again (behind, found ++ node.toList)

def contents (inside : Entry Node) (r : Reader) : Option (List Node × Reader) :=
  loop (statementTurn inside) r.turns (r, [])

/-- How to read the nodes in a block, if `levels` of them may be entered. -/
def rulesInside : (levels : Nat) → Entry Node
  | 0 => none
  | levels + 1 => some (contents (rulesInside levels))

def parse? (text : List Char) : Option (List Node) :=
  (contents (rulesInside maxNesting) (.start (ofText text))).map Prod.fst

end Reader

end PageLint.Stylesheet
