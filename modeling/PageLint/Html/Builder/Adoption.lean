import PageLint.Html.Builder.State

/-!
# Overlapping formatting

An end tag may close a formatting element around a block that is still open. Then the block moves
out of the element, and a copy of the element goes on inside the block.
-/

namespace PageLint.Html.Builder

/-- Closes the element that an end tag of no special kind names, unless a special element is open
inside it. -/
def closeOrdinary (b : Builder) (name : String) : Builder :=
  let stops (o : Open) := o.name.isHtml name || o.name.isAnyOf Names.special
  match b.stack.dropWhile (!stops ·) with
  | o :: outer => if o.name.isHtml name then { b with stack := outer } else b
  | [] => b

/-- What is known while the elements between a formatting element and a block are copied. -/
structure Copying where
  builder : Builder
  /-- the open elements between the two, innermost last -/
  kept : List Open := []
  /-- the node that the next copy takes in -/
  last : NodeId
  /-- the innermost copy -/
  innermost : Option NodeId := none

/-- Takes the element between a formatting element and a block that is the `count`-th from within.
One that formats is replaced by a copy that takes in what was done last; any other is closed. -/
def copyBetween (s : Copying) (count : Nat) (o : Open) : Copying :=
  let b := s.builder
  match b.formatting.find? (isEntry o.id) with
  | some (.element _ tag) =>
    -- From the fourth on formatting elements are closed too, so no more than three are copied.
    if 3 < count then { s with builder := b.removeFormatting o.id }
    else
      let n := b.dom.nextId
      let name : ElementName := ⟨.html, tag.name⟩
      let replace (f : Formatting) := if isEntry o.id f then .element n tag else f
      { builder := { b with
          dom := ((create b.dom name tag.attributes).detach s.last).append n s.last
          formatting := b.formatting.map replace }
        kept := ⟨n, name⟩ :: s.kept
        last := n
        innermost := s.innermost.or (some n) }
  | _ => s

/-- Copies the elements between a formatting element and a block, innermost first. -/
def copyAllBetween (s : Copying) (count : Nat) : List Open → Copying
  | [] => s
  | o :: outer => copyAllBetween (copyBetween s count o) (count + 1) outer

/-- Puts an entry of formatting where the bookmark is: after `innermost`, or, if there is none, in
the place of the element itself, whose own entry ends. -/
def replaceFormatting (entry : Formatting) (element : NodeId) (innermost : Option NodeId) :
    List Formatting → List Formatting
  | [] => []
  | f :: rest =>
    let rest := replaceFormatting entry element innermost rest
    if isEntry element f then (if innermost.isNone then entry :: rest else rest)
    else if innermost.any (isEntry · f) then entry :: f :: rest
    else f :: rest

/-- Moves a block out of a formatting element. `above` are the open elements inside the block,
`between` those around it up to the formatting element, and `below` those around that. -/
def adopt (b : Builder) (element : Open) (tag : Tag) (above : List Open) (block : Open)
    (between : List Open) (ancestor : Open) (below : List Open) : Builder :=
  let s := copyAllBetween { builder := b, last := block.id } 1 between
  let b := s.builder
  let kept := s.kept.reverse
  let b := { b with stack := above ++ block :: kept ++ element :: ancestor :: below }
  -- With content that moves in front of a table the place depends on the whole stack.
  let place := b.placeIn ancestor
  let dom := put (b.dom.detach s.last) s.last place
  let n := dom.nextId
  let name : ElementName := ⟨.html, tag.name⟩
  let dom := ((create dom name tag.attributes).moveChildren block.id n).append block.id n
  { b with
    dom
    formatting := replaceFormatting (.element n tag) element.id s.innermost b.formatting
    stack := above ++ ⟨n, name⟩ :: block :: kept ++ ancestor :: below }

/-- Closes a formatting element, moving at most `turns` blocks out of it. -/
def adoptAll (b : Builder) (subject : String) : (turns : Nat) → Builder
  | 0 => b
  | turns + 1 =>
    let named : Formatting → Bool
      | .element _ tag => tag.name == subject
      | .mark => false
    match b.recentFormatting.find? named with
    | some (.element n tag) =>
      match b.stack.dropWhile (·.id ≠ n) with
      -- The element has been closed: only its entry is left.
      | [] => b.removeFormatting n
      | element :: below =>
        if !finds stopsScope (·.id == n) b.stack then b
        else
          let inner := (b.stack.takeWhile (·.id ≠ n)).reverse
          let between := inner.takeWhile (!·.name.isAnyOf Names.special)
          match inner.drop between.length, below with
          | block :: above, ancestor :: below =>
            adoptAll (b.adopt element tag above.reverse block between.reverse ancestor below)
              subject turns
          -- No block is open inside the element, so it closes like any other.
          | _, _ => ({ b with stack := below }).removeFormatting n
    | _ => b.closeOrdinary subject

def closeFormatting (b : Builder) (subject : String) : Builder :=
  let settled := match b.stack with
    | o :: _ => o.name.isHtml subject && !b.formatting.any (isEntry o.id)
    | [] => false
  if settled then b.pop else b.adoptAll subject 8

end PageLint.Html.Builder
