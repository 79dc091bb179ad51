import PageLint.Stylesheet.Tree

/-!
# Declaration values

A value is a list of components: single tokens as written, blanks, functions and blocks. Comments
are left out. `splitImportant` takes the blanks off both ends and one `!important` off the end.
-/

namespace PageLint.Stylesheet

open Text

inductive Component where
  | token (text : String)
  | blank
  | function (name : String) (arguments : List Component)
  | block (bracket : Bracket) (contents : List Component)
  deriving Repr, Inhabited

namespace Component

/-- Whether a component is this token, the case of ASCII letters aside. -/
def isToken (literal : String) : Component → Bool
  | token text => agree text.toList literal.toList
  | _ => false

def isBlank : Component → Bool
  | blank => true
  | _ => false

mutual
/-- A component in writing: a blank is one space, and functions and blocks are closed. -/
def render : Component → String
  | token text => text
  | blank => " "
  | function name arguments => name ++ "(" ++ renderAll arguments ++ ")"
  | block bracket contents =>
    bracket.opening.toString ++ renderAll contents ++ bracket.closing.toString

def renderAll : List Component → String
  | [] => ""
  | c :: cs => render c ++ renderAll cs
end

mutual
def holds (literal : String) : Component → Bool
  | token text => agree text.toList literal.toList
  | blank => false
  | function _ arguments => anyHolds literal arguments
  | block _ contents => anyHolds literal contents

def anyHolds (literal : String) : List Component → Bool
  | [] => false
  | c :: cs => holds literal c || anyHolds literal cs
end

/-- The components of a value. `levels` is how many functions and blocks may still be entered; the
contents of a block beyond that are left out. `unread` is put before the text of a token that comes
first. -/
def ofTrees (levels : Nat) (unread : List Char) (ts : List Tree) : List Component :=
  match ts with
  | [] => []
  | .leaf t :: rest =>
    match t.kind with
    | .blank => blank :: ofTrees levels [] rest
    | .comment => ofTrees levels [] rest
    | _ => token (String.ofList (unread ++ t.text)) :: ofTrees levels [] rest
  | .block opener inside closer :: rest =>
    let contents := match levels with
      | 0 => []
      | levels + 1 => ofTrees levels [] inside
    -- Behind a block that is not entered reading goes on just after its opening bracket.
    let unread := match levels with
      | 0 => (Tree.block opener inside closer).innerText
      | _ + 1 => []
    let component := match opener.kind with
      | .function name => function (String.ofList name) contents
      | kind => block (kind.opened?.getD .paren) contents
    component :: ofTrees levels unread rest
termination_by (levels, ts.length)

def trim (cs : List Component) : List Component :=
  ((cs.dropWhile isBlank).reverse.dropWhile isBlank).reverse

/-- Splits off a trailing `!important`. The first part has no blank at either end, and the second
says whether the suffix was there. -/
def splitImportant (cs : List Component) : List Component × Bool :=
  match (trim cs).reverse with
  | last :: before =>
    if last.isToken "important" then
      match before.dropWhile isBlank with
      | bang :: before =>
        if bang.isToken "!" then ((before.dropWhile isBlank).reverse, true) else (trim cs, false)
      | [] => (trim cs, false)
    else (trim cs, false)
  | [] => ([], false)

end Component

end PageLint.Stylesheet
