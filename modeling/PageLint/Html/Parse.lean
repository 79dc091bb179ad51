import PageLint.Html.Builder.Step
import PageLint.Html.Tree

/-!
# Reading a page

`parse` reads every text as a page: whatever is wrong with its markup has a meaning too. A page has
always a head and a body, or a frameset, also where their tags are left out.
-/

namespace PageLint.Html

def unifyLineEnds : List Char → List Char
  | [] => []
  | '\r' :: '\n' :: text => '\n' :: unifyLineEnds text
  | c :: text => (if c = '\r' then '\n' else c) :: unifyLineEnds text

/-- A text without the mark of its encoding at its start. -/
def withoutMark : List Char → List Char
  | '\ufeff' :: text => text
  | text => text

def Builder.readAll (b : Builder) (text : List Char) : Builder :=
  match text with
  | [] => b.read .finish
  | c :: rest =>
    let reading := readNext b.content b.holdsCharacterData c rest
    readAll (reading.tokens.foldl Builder.read { b with content := reading.content }) reading.rest
termination_by text.length
decreasing_by exact Nat.lt_succ_of_le (length_readNext_le ..)

/-- The tree below a node. No node is deeper than there are nodes, so `levels` of that number are
enough. -/
def Dom.tree? (dom : Dom) (levels : Nat) (n : NodeId) : Option Tree :=
  match levels with
  | 0 => none
  | levels + 1 =>
    let children (e : NodeEntry) := e.children.toList.filterMap (tree? dom levels)
    match dom.get? n with
    | none => none
    | some e =>
      match e.data with
      | .document | .fragment => some (.fragment (children e))
      | .element name attributes => some (.element name.name attributes (children e))
      | .text reversed => some (.text (String.ofList reversed.reverse))
      | .comment text => some (.comment text)
      | .doctype name => some (.doctype name)

def parse (text : List Char) : List Tree :=
  let dom := (Builder.readAll {} (unifyLineEnds (withoutMark text))).dom
  ((dom.tree? dom.entries.size Dom.document).map Tree.children).getD []

end PageLint.Html
