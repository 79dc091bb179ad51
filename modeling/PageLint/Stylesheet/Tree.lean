import PageLint.Stylesheet.Token

/-!
# Token trees

A token tree is a token that opens no bracket, or a block: an opening token, the trees inside and
the closing token, which is missing where the text ends first. A closing bracket that does not fit
the innermost open block is a token like any other. `textAll_ofText` says that grouping keeps the
source text.
-/

namespace PageLint.Stylesheet

inductive Tree where
  | leaf (token : Token)
  | block (opener : Token) (inside : List Tree) (closer : Option Token)
  deriving Repr

/-- A block whose end is still to come: its opening token and, last first, the trees before it. -/
structure OpenBlock where
  opener : Token
  before : List Tree

namespace Tree

/-- Ends every block not closed so far, the innermost first. -/
def closeAll : List OpenBlock → List Tree → List Tree
  | [], done => done.reverse
  | b :: outer, done => closeAll outer (block b.opener done.reverse none :: b.before)

/-- Reads a token that opens no bracket: it closes the innermost block, or stands for itself. -/
def settle (unclosed : List OpenBlock) (done : List Tree) (t : Token) :
    List OpenBlock × List Tree :=
  match unclosed, t.kind with
  | b :: outer, .closes bracket =>
    if b.opener.kind.opened? = some bracket then
      (outer, block b.opener done.reverse (some t) :: b.before)
    else (b :: outer, leaf t :: done)
  | unclosed, _ => (unclosed, leaf t :: done)

/-- Groups tokens into trees. `unclosed` holds the blocks not closed so far, innermost first, and
`done` the trees of the innermost one, last first. -/
def group (unclosed : List OpenBlock) (done : List Tree) : List Token → List Tree
  | [] => closeAll unclosed done
  | t :: rest =>
    if t.kind.opened?.isSome then group (⟨t, done⟩ :: unclosed) [] rest
    else
      let (unclosed, done) := settle unclosed done t
      group unclosed done rest

def ofTokens (ts : List Token) : List Tree :=
  group [] [] ts

def ofText (text : List Char) : List Tree :=
  ofTokens (tokens {} text)

mutual
def toTokens : Tree → List Token
  | leaf t => [t]
  | block opener inside closer => opener :: (toTokensAll inside ++ closer.toList)

def toTokensAll : List Tree → List Token
  | [] => []
  | t :: ts => toTokens t ++ toTokensAll ts
end

@[simp] theorem toTokensAll_append (a b : List Tree) :
    toTokensAll (a ++ b) = toTokensAll a ++ toTokensAll b := by
  induction a with
  | nil => rfl
  | cons t ts ih => simp [toTokensAll, ih]

/-- The tokens of the blocks not closed so far and of what stands before each. -/
def openTokens : List OpenBlock → List Token
  | [] => []
  | b :: outer => openTokens outer ++ toTokensAll b.before.reverse ++ [b.opener]

theorem toTokensAll_closeAll (unclosed : List OpenBlock) (done : List Tree) :
    toTokensAll (closeAll unclosed done) = openTokens unclosed ++ toTokensAll done.reverse := by
  induction unclosed generalizing done with
  | nil => simp [closeAll, openTokens]
  | cons b outer ih => simp [closeAll, openTokens, ih, toTokensAll, toTokens]

theorem toTokensAll_settle (unclosed : List OpenBlock) (done : List Tree) (t : Token) :
    openTokens (settle unclosed done t).1 ++ toTokensAll (settle unclosed done t).2.reverse =
      openTokens unclosed ++ toTokensAll done.reverse ++ [t] := by
  unfold settle
  split
  · split <;> simp [openTokens, toTokensAll, toTokens]
  · simp [toTokensAll, toTokens]

theorem toTokensAll_group (unclosed : List OpenBlock) (done : List Tree) (rest : List Token) :
    toTokensAll (group unclosed done rest) =
      openTokens unclosed ++ toTokensAll done.reverse ++ rest := by
  induction rest generalizing unclosed done with
  | nil => simp [group, toTokensAll_closeAll]
  | cons t rest ih =>
    unfold group
    split
    · simp [ih, openTokens, toTokensAll]
    · simp only [ih, toTokensAll_settle]
      simp

/-- Grouping keeps every token in its place. -/
theorem toTokensAll_ofTokens (ts : List Token) : toTokensAll (ofTokens ts) = ts := by
  simp [ofTokens, toTokensAll_group, openTokens, toTokensAll]

def first : Tree → Token
  | leaf t => t
  | block opener _ _ => opener

def text (t : Tree) : List Char :=
  t.toTokens.flatMap Token.text

/-- The source text of what follows a block's opening bracket. -/
def innerText : Tree → List Char
  | leaf _ => []
  | block _ inside closer => (toTokensAll inside ++ closer.toList).flatMap Token.text

def textAll (ts : List Tree) : List Char :=
  (toTokensAll ts).flatMap Token.text

theorem textAll_ofText (text : List Char) : textAll (ofText text) = text := by
  simp [textAll, ofText, toTokensAll_ofTokens, tokens_text]

def isBraceBlock : Tree → Bool
  | block opener _ _ => opener.kind == .opens .brace
  | leaf _ => false

end Tree

end PageLint.Stylesheet
