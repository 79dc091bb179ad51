import PageLint.Log
import PageLint.Stylesheet.Statement
import PageLint.Stylesheet.Value

/-!
# Stylesheet trees

`parse` reads a text into rules, at-rules and declarations. It takes every text: what forms no
statement is left out. Blocks nested deeper than `maxNesting` are not entered.
-/

namespace PageLint.Stylesheet

structure Declaration where
  property : String
  /-- the value without blanks at its ends and without `!important` -/
  value : List Component
  important : Bool
  position : Position
  deriving Repr, Inhabited

inductive Node where
  | rule (selector : String) (position : Position) (children : List Node)
  /-- `children` is missing where the at-rule has no block -/
  | atRule (name prelude : String) (position : Position) (children : Option (List Node))
  | declaration (d : Declaration)
  deriving Repr, Inhabited

namespace Node

def children : Node → List Node
  | rule _ _ children => children
  | atRule _ _ _ children => children.getD []
  | declaration _ => []

def kind : Node → String
  | rule .. => "rule"
  | atRule .. => "atrule"
  | declaration _ => "declaration"

def position : Node → Position
  | rule _ p _ => p
  | atRule _ _ p _ => p
  | declaration d => d.position

def declaration? : Node → Option Declaration
  | declaration d => some d
  | _ => none

mutual
def count : Node → Nat
  | rule _ _ children => 1 + countAll children
  | atRule _ _ _ none => 1
  | atRule _ _ _ (some children) => 1 + countAll children
  | declaration _ => 1

def countAll : List Node → Nat
  | [] => 0
  | n :: ns => count n + countAll ns
end

theorem countAll_append (a b : List Node) : countAll (a ++ b) = countAll a + countAll b := by
  induction a with
  | nil => simp [countAll]
  | cons n ns ih => simp [countAll, ih, Nat.add_assoc]

theorem count_eq (n : Node) : n.count = 1 + countAll n.children := by
  cases n with
  | rule => simp [count, children]
  | atRule _ _ _ c => cases c <;> simp [count, children, countAll]
  | declaration => simp [count, children, countAll]

/-- All nodes of several trees in document order. The list holds the trees still to visit; each
gives way to its children. -/
def walk (pending : List Node) : List Node :=
  match pending with
  | [] => []
  | n :: rest => n :: walk (n.children ++ rest)
termination_by countAll pending
decreasing_by
  simp only [countAll_append, countAll, count_eq]
  omega

end Node

/-- The number of blocks inside one another that are entered, of rules and of values alike. -/
def maxNesting : Nat := 128

/-- The node of a statement, where `inside` reads the contents of a block. -/
def Statement.node? (inside : List Tree → List Node) : Statement → Option Node
  | atRule name prelude position body =>
    some (.atRule (String.ofList name) (String.ofList prelude) position (body.map inside))
  | rule selector position body => some (.rule (String.ofList selector) position (inside body))
  | declaration property position value =>
    let (value, important) := Component.splitImportant (Component.ofTrees maxNesting [] value)
    some (.declaration ⟨String.ofList property, value, important, position⟩)
  | dropped _ _ => none

/-- The nodes of the contents of a stylesheet or a block, where `levels` more blocks may be
entered. A block beyond that has no nodes. -/
def nodes : (levels : Nat) → List Tree → List Node
  | 0, ts => (statements false none ts).filterMap (Statement.node? fun _ => [])
  | levels + 1, ts => (statements true none ts).filterMap (Statement.node? (nodes levels))

def parse (text : List Char) : List Node :=
  nodes maxNesting (Tree.ofText text)

/-- The declarations of several trees in document order. -/
def declarations (ns : List Node) : List Declaration :=
  (Node.walk ns).filterMap Node.declaration?

/-- What reading a stylesheet tells about itself. -/
inductive Note where
  | dropped (line : Nat) (text : String)
  | tooDeep
  deriving DecidableEq, Repr

def Note.entry : Note → LogEntry
  | dropped line text =>
    ⟨.trace, "dropping invalid statement at line " ++ toString line ++ ": " ++ text⟩
  | tooDeep =>
    ⟨.debug, "stylesheet nested deeper than " ++ toString maxNesting ++ " levels, skipping block"⟩

/-- The notes of a statement, where `inside` takes those of a block's contents. -/
def Statement.notes (inside : List Tree → List Note) : Statement → List Note
  | atRule _ _ _ body => body.elim [] inside
  | rule _ _ body => inside body
  | declaration .. => []
  | dropped text position => [.dropped position.line (String.ofList text)]

def notes : (levels : Nat) → List Tree → List Note
  | 0, ts => (statements false none ts).flatMap (Statement.notes fun _ => [.tooDeep])
  | levels + 1, ts => (statements true none ts).flatMap (Statement.notes (notes levels))

def parseNotes (text : List Char) : List Note :=
  notes maxNesting (Tree.ofText text)

end PageLint.Stylesheet
