import PageLint.Yaml.Token

/-!
# The tokens of a text

That a text is a key is seen only from the colon after it. So the place of each text that may turn
out to be a key is kept, and the token for the key is put there when the colon comes.
-/

namespace PageLint.Yaml

/-- A place where a key may have started. -/
structure KeyStart where
  /-- the number of tokens before it -/
  place : Nat
  cursor : Cursor
  /-- whether nothing but a key can stand there -/
  required : Bool
  deriving Repr

/-- Whether a colon at a place comes too late: a key has at most 1024 characters on one line. -/
def KeyStart.isStale (k : KeyStart) (now : Cursor) : Bool :=
  k.cursor.line < now.line || k.cursor.index + 1024 < now.index

structure TokenStream where
  cursor : Cursor
  tokens : Array Token := #[]
  /-- the columns of the open block collections, the innermost first -/
  columns : List Nat := []
  /-- where a key may have started in the innermost flow collection -/
  key : Option KeyStart := none
  /-- the same for what is around each open flow collection, the innermost first -/
  outerKeys : List (Option KeyStart) := []
  /-- whether a key may start here -/
  allowsKey : Bool := true
  deriving Repr

namespace TokenStream

def inFlow (s : TokenStream) : Bool :=
  !s.outerKeys.isEmpty

def push (s : TokenStream) (t : Token) : TokenStream :=
  { s with tokens := s.tokens.push t }

def take (s : TokenStream) (t : Token) (after : Cursor) : TokenStream :=
  { s with tokens := s.tokens.push t, cursor := after }

/-! ### Blocks -/

/-- Opens a block collection at a column, unless there is one. Its token is put in at `place`. -/
def openBlock (s : TokenStream) (column place : Nat) (t : Token) : TokenStream :=
  if !s.inFlow && s.columns.head?.all (· < column) then
    { s with columns := column :: s.columns, tokens := s.tokens.insertIdxIfInBounds place t }
  else s

def closeBlocks (s : TokenStream) (n : Nat) : TokenStream :=
  { s with columns := s.columns.drop n, tokens := s.tokens ++ List.replicate n Token.blockEnd }

/-- Closes the block collections to the right of a column. In a flow collection none ends. -/
def closeRightOf (s : TokenStream) (column : Nat) : TokenStream :=
  if s.inFlow then s else s.closeBlocks (s.columns.takeWhile (column < ·)).length

def closeAll (s : TokenStream) : TokenStream :=
  if s.inFlow then s else s.closeBlocks s.columns.length

/-! ### Keys -/

/-- Forgets the places of keys whose colon comes too late. None of them may be required. -/
def expireKeys? (s : TokenStream) : Option TokenStream :=
  if (s.key :: s.outerKeys).any fun k => k.any fun k => k.required && k.isStale s.cursor then none
  else
    let keep (k : Option KeyStart) := k.filter (!·.isStale s.cursor)
    some { s with key := keep s.key, outerKeys := s.outerKeys.map keep }

/-- Forgets the innermost place of a key, which may not be required. -/
def dropKey? (s : TokenStream) : Option TokenStream :=
  if s.key.any (·.required) then none else some { s with key := none }

/-- Keeps this place as one where a key may have started, if it may. -/
def keepKey? (s : TokenStream) : Option TokenStream :=
  if !s.allowsKey then some s
  else
    s.dropKey?.map fun s =>
      -- In the column of a block collection only its next entry can stand.
      let required := !s.inFlow && s.columns.head? == some s.cursor.column
      { s with key := some ⟨s.tokens.size, s.cursor, required⟩ }

/-! ### Tokens -/

/-- Skips blanks, comments and line ends. After a line end outside flow collections a key may
start. Tabs are skipped only where no key may start or in a flow collection. -/
def skipGap (s : TokenStream) : TokenStream :=
  let isGap (ch : Char) := ch == ' ' || (ch == '\t' && (s.inFlow || !s.allowsKey))
  let c := (s.cursor.skipMark.skipWhile isGap).skipComment
  match _h : c.text with
  | [] => { s with cursor := c }
  | ch :: _ =>
    if isBreak ch then
      skipGap { s with cursor := c.skipBreak, allowsKey := s.allowsKey || !s.inFlow }
    else { s with cursor := c }
termination_by s.cursor.text.length
decreasing_by
  exact Nat.lt_of_lt_of_le (Cursor.length_skipBreak_lt _h) <|
    Nat.le_trans (Cursor.length_skipComment_le _) <|
      Nat.le_trans (Cursor.length_skipWhile_le _ _) (Cursor.length_skipMark_le _)

/-- Reads a directive or the mark of a document, which closes all blocks. -/
def readOuter? (s : TokenStream) (read? : Cursor → Option (Token × Cursor)) : Option TokenStream :=
  match s.closeAll.dropKey? with
  | none => none
  | some s => (read? s.cursor).map fun (t, after) => { s with allowsKey := false }.take t after

def readFlowStart? (s : TokenStream) (t : Token) : Option TokenStream :=
  s.keepKey?.map fun s =>
    let inside := { s with key := none, outerKeys := s.key :: s.outerKeys, allowsKey := true }
    inside.take t s.cursor.skip

def readFlowEnd? (s : TokenStream) (t : Token) : Option TokenStream :=
  s.dropKey?.map fun s =>
    let s := match s.outerKeys with
      -- A bracket that closes nothing is refused later, by the grammar.
      | [] => s
      | k :: rest => { s with key := k, outerKeys := rest }
    { s with allowsKey := false }.take t s.cursor.skip

def readComma? (s : TokenStream) : Option TokenStream :=
  s.dropKey?.map fun s => { s with allowsKey := true }.take .comma s.cursor.skip

/-- Opens a block collection for an indicator that stands here, if there is none. -/
def openHere? (s : TokenStream) (t : Token) : Option TokenStream :=
  if s.inFlow then some s
  else if s.allowsKey then some (s.openBlock s.cursor.column s.tokens.size t)
  else none

def readItem? (s : TokenStream) : Option TokenStream :=
  match s.openHere? .blockSequence with
  | none => none
  | some s => s.dropKey?.map fun s => { s with allowsKey := true }.take .item s.cursor.skip

def readKey? (s : TokenStream) : Option TokenStream :=
  match s.openHere? .blockMapping with
  | none => none
  | some s => s.dropKey?.map fun s => { s with allowsKey := !s.inFlow }.take .key s.cursor.skip

/-- Reads the colon of a value. It makes what stands at the place kept for a key a key. -/
def readValue? (s : TokenStream) : Option TokenStream :=
  match s.key with
  | some k =>
    let tokens := s.tokens.insertIdxIfInBounds k.place .key
    let s := { s with tokens, key := none, allowsKey := false }
    let s := s.openBlock k.cursor.column k.place .blockMapping
    some (s.take .value s.cursor.skip)
  | none =>
    (s.openHere? .blockMapping).map fun s =>
      { s with allowsKey := !s.inFlow }.take .value s.cursor.skip

def readContent? (s : TokenStream) (read? : Cursor → Option (Token × Cursor)) :
    Option TokenStream :=
  match s.keepKey? with
  | none => none
  | some s => (read? s.cursor).map fun (t, after) => { s with allowsKey := false }.take t after

def readBlock? (s : TokenStream) (folds : Bool) : Option TokenStream :=
  match s.dropKey? with
  | none => none
  | some s =>
    (Yaml.readBlock? folds s.columns.head? s.cursor.skip).map fun (value, after) =>
      { s with allowsKey := true }.take
        (.scalar (String.ofList value) (if folds then .folded else .literal)) after

def readQuoted? (s : TokenStream) (quote : Char) : Option TokenStream :=
  s.readContent? fun c =>
    (Yaml.readQuoted? quote (c.text.length + 1) c.skip).map fun (value, after) =>
      (.scalar (String.ofList value) .quoted, after)

/-- Reads a plain scalar. If it ends on another line, a key may start after it. -/
def readPlain? (s : TokenStream) : Option TokenStream :=
  match s.keepKey? with
  | none => none
  | some s =>
    let column := (s.columns.head?.map (· + 1)).getD 0
    -- A gap takes a step besides those for characters, and two gaps never stand side by side.
    (Yaml.readPlain? s.inFlow column (2 * s.cursor.text.length + 2) {} s.cursor).map
      fun (value, after, broken) =>
        { s with allowsKey := broken }.take (.scalar (String.ofList value) .plain) after

def startsPlain (inFlow : Bool) : List Char → Bool
  | [] => false
  | c :: rest =>
    if c == '-' then !rest.head?.any isBlank
    else if c == '?' || c == ':' then !inFlow && !atGap rest
    else !(isBlank c || isBreak c || [',', '[', ']', '\x7b', '\x7d', '#', '&', '*', '!', '|', '>',
      '\'', '"', '%', '@', '\x60'].contains c)

def read? (s : TokenStream) : Option TokenStream :=
  let c := s.cursor
  let gapNext := atGap c.text.tail
  match c.text with
  | [] => none
  | ch :: _ =>
    if c.column == 0 && ch == '%' then s.readOuter? fun c => readDirective? c.skip
    else if c.atDocumentMark then
      let mark := if ch == '-' then Token.documentStart else .documentEnd
      s.readOuter? fun c => some (mark, c.skipMany 3)
    else if ch == '[' then s.readFlowStart? .flowSequence
    else if ch == '\x7b' then s.readFlowStart? .flowMapping
    else if ch == ']' then s.readFlowEnd? .flowSequenceEnd
    else if ch == '\x7d' then s.readFlowEnd? .flowMappingEnd
    else if ch == ',' then s.readComma?
    else if ch == '-' && gapNext then s.readItem?
    else if ch == '?' && (s.inFlow || gapNext) then s.readKey?
    else if ch == ':' && (s.inFlow || gapNext) then s.readValue?
    else if ch == '*' then s.readContent? fun c =>
      (readAnchor? c.skip).map fun (name, after) => (.alias name, after)
    else if ch == '&' then s.readContent? fun c =>
      (readAnchor? c.skip).map fun (name, after) => (.anchor name, after)
    else if ch == '!' then s.readContent? (readTag? s.inFlow)
    else if ch == '|' && !s.inFlow then s.readBlock? false
    else if ch == '>' && !s.inFlow then s.readBlock? true
    else if ch == '\'' || ch == '"' then s.readQuoted? ch
    else if startsPlain s.inFlow c.text then s.readPlain?
    else none

def readAll? : Nat → TokenStream → Option (List Token)
  | 0, _ => none
  | fuel + 1, s =>
    match s.skipGap.expireKeys? with
    | none => none
    | some s =>
      let s := s.closeRightOf s.cursor.column
      if s.cursor.text.isEmpty then s.closeAll.dropKey?.map (·.tokens.toList)
      else
        match s.read? with
        | none => none
        | some s => readAll? fuel s

end TokenStream

/-- The tokens of a text, if there is nothing in it that no token can start with. -/
def tokens? (text : List Char) : Option (List Token) :=
  if text.all isAllowed then TokenStream.readAll? (text.length + 1) { cursor := { text } } else none

end PageLint.Yaml
