import PageLint.Markup.Segment

/-!
# Hidden spans

Quoted values, comments and raw text hide what looks like a tag. `hiddenSpans` lists where they
stand, and `isHidden` looks a byte up in that list.
-/

namespace PageLint.Markup

open Text

/-- A range of bytes: from `start` up to, but not with, `stop`. -/
structure Span where
  start : Nat
  stop : Nat
  deriving DecidableEq, Repr

/-- The quoted values among parts of a start tag, the first of which starts at `start`. -/
def TagPart.spans (start : Nat) : List TagPart → List Span
  | [] => []
  | .plain c :: rest => TagPart.spans (start + c.utf8Size) rest
  | .quoted s :: rest =>
    ⟨start, start + byteLength s⟩ :: TagPart.spans (start + byteLength s) rest

def Segment.spans (start : Nat) : Segment → List Span
  | text _ => []
  | comment s => [⟨start, start + byteLength s⟩]
  | startTag parts => TagPart.spans start parts
  | rawText s => [⟨start, start + byteLength s⟩]

def spansFrom (start : Nat) : List Segment → List Span
  | [] => []
  | s :: rest => s.spans start ++ spansFrom (start + byteLength s.source) rest

/-- The spans of a source in which nothing is a tag. -/
def hiddenSpans (text : List Char) : List Span :=
  spansFrom 0 (segments text)

/-- The number of spans that start at or before byte `n`, if it lies between `low` and `high`. -/
def startedSpans (spans : Array Span) (n low high : Nat) : Nat :=
  if _h : low < high then
    let middle := (low + high) / 2
    if spans[middle]?.any (·.start ≤ n) then startedSpans spans n (middle + 1) high
    else startedSpans spans n low middle
  else low
termination_by high - low

/-- Whether a byte lies in one of several spans. -/
def isHidden (spans : Array Span) (n : Nat) : Bool :=
  match startedSpans spans n 0 spans.size with
  | 0 => false
  -- The spans stand in order, so only the last of those that have started can hold the byte.
  | count + 1 => spans[count]?.any (n < ·.stop)

end PageLint.Markup
