import PageLint.Yaml.Node
import PageLint.Yaml.Token.Stream

/-!
# Documents

The grammar of YAML over tokens. A text holds one document or none.
-/

namespace PageLint.Yaml

structure NodeState where
  tokens : List Token
  /-- the numbers of the names of anchors, the latest first -/
  anchors : List (String × Nat) := []

abbrev NodeReader := StateT NodeState Option

namespace NodeReader

def peek : NodeReader (Option Token) := do
  return (← get).tokens.head?

def skip : NodeReader Unit :=
  modify fun s => { s with tokens := s.tokens.tail }

def peeksOneOf (tokens : List Token) : NodeReader Bool := do
  return (← peek).any tokens.contains

/-- Leaves out this token if it comes next, and refuses any other. -/
def expect (token : Token) : NodeReader Unit := do
  if (← peek) = some token then skip else failure

def findAnchor (name : String) : NodeReader Nat := do
  match (← get).anchors.lookup name with
  | some anchor => return anchor
  | none => failure

/-- Numbers an anchor: by the number of names before it, whether its own is among them or not. -/
def addAnchor (name : String) : NodeReader Nat := do
  let s ← get
  let anchor := (s.anchors.map (·.1)).eraseDups.length
  set { s with anchors := (name, anchor) :: s.anchors }
  return anchor

def takeAnchor : NodeReader (Option String) := do
  match ← peek with
  | some (.anchor name) => skip; return some name
  | _ => return none

def expandTag (handles : List (String × String)) (handle suffix : String) : Option String :=
  if handle.isEmpty then some suffix else (handles.lookup handle).map (· ++ suffix)

def takeTag (handles : List (String × String)) : NodeReader (Option String) := do
  match ← peek with
  | some (.tag handle suffix) =>
    match expandTag handles handle suffix with
    | some tag => skip; return some tag
    | none => failure
  | _ => return none

/-- The anchor and the tag of a node, in either order. -/
def takeProperties (handles : List (String × String)) :
    NodeReader (Option String × Option String) := do
  match ← takeAnchor with
  | some name => return (some name, ← takeTag handles)
  | none =>
    match ← takeTag handles with
    | some tag => return (← takeAnchor, some tag)
    | none => return (none, none)

def withAnchor (anchor : Option Nat) (node : Node) : Node :=
  match anchor with
  | some anchor => .anchored anchor node
  | none => node

mutual

/-- Reads a node. Block collections are refused outside blocks, and a sequence that is not
indented is read only as the key or value of a block mapping. `fuel` bounds the number of steps. -/
def node (handles : List (String × String)) (fuel : Nat) (inBlock unindented : Bool) :
    NodeReader Node :=
  match fuel with
  | 0 => failure
  | fuel + 1 => do
    match ← peek with
    | some (.alias name) =>
      skip
      return .alias (← findAnchor name)
    | _ =>
      let (name, tag) ← takeProperties handles
      let anchor ← name.mapM addAnchor
      return withAnchor anchor (← content handles fuel inBlock unindented
        (name.isSome || tag.isSome) (tag.filter (· ≠ "!")))

def content (handles : List (String × String)) (fuel : Nat) (inBlock unindented mayMiss : Bool)
    (tag : Option String) : NodeReader Node :=
  match fuel with
  | 0 => failure
  | fuel + 1 => do
    match ← peek, inBlock, unindented with
    | some .item, _, true => return .sequence (← unindentedItems handles fuel)
    | some (.scalar value style), _, _ => skip; return .scalar value style tag
    | some .flowSequence, _, _ => skip; return .sequence (← flowItems handles fuel true)
    | some .flowMapping, _, _ => skip; return .mapping (← flowEntries handles fuel true)
    | some .blockSequence, true, _ => skip; return .sequence (← blockItems handles fuel)
    | some .blockMapping, true, _ => skip; return .mapping (← blockEntries handles fuel)
    | _, _, _ => if mayMiss then return .scalar "" .plain tag else failure

/-- Reads a node, or none at all if one of the tokens `ends` comes next. -/
def nodeOrMissing (handles : List (String × String)) (fuel : Nat) (inBlock unindented : Bool)
    (ends : List Token) : NodeReader Node :=
  match fuel with
  | 0 => failure
  | fuel + 1 => do
    if ← peeksOneOf ends then return .missing else node handles fuel inBlock unindented

def blockItems (handles : List (String × String)) (fuel : Nat) : NodeReader (List Node) :=
  match fuel with
  | 0 => failure
  | fuel + 1 => do
    if (← peek) = some .blockEnd then
      skip
      return []
    expect .item
    let first ← nodeOrMissing handles fuel true false [.item, .blockEnd]
    return first :: (← blockItems handles fuel)

def unindentedItems (handles : List (String × String)) (fuel : Nat) : NodeReader (List Node) :=
  match fuel with
  | 0 => failure
  | fuel + 1 => do
    if (← peek) ≠ some .item then return []
    skip
    let first ← nodeOrMissing handles fuel true false [.item, .key, .value, .blockEnd]
    return first :: (← unindentedItems handles fuel)

def blockEntries (handles : List (String × String)) (fuel : Nat) :
    NodeReader (List (Node × Node)) :=
  match fuel with
  | 0 => failure
  | fuel + 1 => do
    if (← peek) = some .blockEnd then
      skip
      return []
    expect .key
    let key ← nodeOrMissing handles fuel true true [.key, .value, .blockEnd]
    let value ← if (← peek) = some .value then
      skip
      nodeOrMissing handles fuel true true [.key, .value, .blockEnd]
    else pure .missing
    return (key, value) :: (← blockEntries handles fuel)

def flowItems (handles : List (String × String)) (fuel : Nat) (isFirst : Bool) :
    NodeReader (List Node) :=
  match fuel with
  | 0 => failure
  | fuel + 1 => do
    if !isFirst && (← peek) ≠ some .flowSequenceEnd then expect .comma
    if (← peek) = some .flowSequenceEnd then
      skip
      return []
    let first ← if (← peek) = some .key then
      skip
      flowPair handles fuel
    else node handles fuel false false
    return first :: (← flowItems handles fuel false)

/-- Reads a single entry in a flow sequence, which makes a mapping. Where its key is missing, the
token after it is left out. -/
def flowPair (handles : List (String × String)) (fuel : Nat) : NodeReader Node :=
  match fuel with
  | 0 => failure
  | fuel + 1 => do
    let key ← if ← peeksOneOf [.value, .comma, .flowSequenceEnd] then
      skip
      pure .missing
    else node handles fuel false false
    let value ← if (← peek) = some .value then
      skip
      nodeOrMissing handles fuel false false [.comma, .flowSequenceEnd]
    else pure .missing
    return .mapping [(key, value)]

/-- Reads the entries of a flow mapping. An entry without a question mark or colon has no value. -/
def flowEntries (handles : List (String × String)) (fuel : Nat) (isFirst : Bool) :
    NodeReader (List (Node × Node)) :=
  match fuel with
  | 0 => failure
  | fuel + 1 => do
    if !isFirst && (← peek) ≠ some .flowMappingEnd then expect .comma
    if (← peek) = some .flowMappingEnd then
      skip
      return []
    let entry ← if (← peek) = some .key then
      skip
      let key ← nodeOrMissing handles fuel false false [.value, .comma, .flowMappingEnd]
      let value ← if (← peek) = some .value then
        skip
        nodeOrMissing handles fuel false false [.comma, .flowMappingEnd]
      else pure .missing
      pure (key, value)
    else
      let key ← node handles fuel false false
      pure (key, .missing)
    return entry :: (← flowEntries handles fuel false)

end

end NodeReader

/-! ### Documents -/

/-- The handles that need no directive. -/
def standardHandles : List (String × String) :=
  [("!", "!"), ("!!", "tag:yaml.org,2002:")]

/-- Reads the directives before a document: the handles of tags and the tokens after. There is at
most one version, which is 1.1 or 1.2, and at most one meaning of a handle. -/
def readDirectives? (versioned : Bool) (handles : List (String × String)) :
    List Token → Option (List (String × String) × List Token)
  | .version major minor :: rest =>
    if versioned || major ≠ 1 || (minor ≠ 1 && minor ≠ 2) then none
    else readDirectives? true handles rest
  | .tagHandle handle stem :: rest =>
    if (handles.lookup handle).isSome then none
    else readDirectives? versioned ((handle, stem) :: handles) rest
  | tokens => some (handles, tokens)

/-- Whether a document without content ends before these tokens. -/
def endsEmpty : List Token → Bool
  | [] => true
  | t :: _ =>
    match t with
    | .version .. | .tagHandle .. | .documentStart | .documentEnd => true
    | _ => false

def readRoot? (handles : List (String × String)) (tokens : List Token) :
    Option (Node × List Token) :=
  (NodeReader.node (handles ++ standardHandles) (4 * tokens.length + 4) true false
    { tokens }).map fun (node, s) => (node, s.tokens)

/-- Reads the first document. Without directives its mark may be missing, but then it has
content. -/
def readDocument? (tokens : List Token) : Option (Node × List Token) :=
  match readDirectives? false [] tokens with
  | some (handles, .documentStart :: rest) =>
    if endsEmpty rest then some (.missing, rest) else readRoot? handles rest
  -- A version calls for the mark of the document as well.
  | some ([], rest) => if rest.length = tokens.length then readRoot? [] rest else none
  | _ => none

/-- The document of a text, or no node where there is no document. -/
def parse? (text : List Char) : Option Node :=
  match tokens? text with
  | none => none
  | some [] => some .missing
  | some tokens =>
    match readDocument? tokens with
    | some (root, rest) => if rest.all (· = .documentEnd) then some root else none
    | none => none

end PageLint.Yaml
