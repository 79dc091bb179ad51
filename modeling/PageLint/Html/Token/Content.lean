import PageLint.Html.Token.Declaration

/-!
# Reading tokens

How a text is read depends on the element it stands in: as markup, or as text of which only a
closing tag of that element is markup. `readNext` reads the next tokens and says how to read on;
it takes at least one character (`length_readNext_le`).
-/

namespace PageLint.Html

open Text

/-- How far a script hides its end: not at all, inside `<!--`, or inside a script tag in there. -/
inductive ScriptDepth where
  | outside
  | commented
  | nested
  deriving DecidableEq, Repr

inductive Content where
  /-- tags, comments and character references -/
  | markup
  /-- text with character references, up to the closing tag of an element -/
  | references (element : String)
  /-- text up to the closing tag of an element -/
  | raw (element : String)
  /-- a script, after so many hyphens, of which two count -/
  | script (depth : ScriptDepth) (hyphens : Nat)
  /-- text up to the end of the page -/
  | plain
  deriving DecidableEq, Repr

/-- What was read, what follows it and how to read on. -/
structure Reading where
  tokens : List Token
  rest : List Char
  content : Content
  deriving Repr

/-- A character of a text outside markup, where NUL is no character. -/
def visible (c : Char) : Token :=
  .char (if c = '\x00' then Reference.replacement else c)

/-- Reads a tag whose name starts the text. A tag that the text ends within is dropped. -/
def readTag (text : List Char) (token : Tag → Token) : Reading :=
  let name := String.ofList ((text.takeWhile (!endsTagName ·)).map nameChar)
  match readAttributes? (text.dropWhile (!endsTagName ·)) with
  | some t => ⟨[token ⟨name, dropRepeated t.attributes, t.selfClosing⟩], t.rest, .markup⟩
  | none => ⟨[], [], .markup⟩

def readClosing (text : List Char) : Reading :=
  match text with
  | [] => ⟨[.char '<', .char '/'], [], .markup⟩
  | c :: rest =>
    if isLetter c then readTag text fun tag => .endTag tag.name
    else if c = '>' then ⟨[.fault], rest, .markup⟩
    else
      let (comment, rest) := readMarkedText text
      ⟨[.comment comment], rest, .markup⟩

/-- Reads what follows `<!`. Character data stands only in MathML and SVG. -/
def readDeclaration (foreign : Bool) (text : List Char) : Reading :=
  if agree (text.take 7) ['d', 'o', 'c', 't', 'y', 'p', 'e'] then
    let (d, rest) := readDoctype (text.drop 7)
    ⟨[.doctype d], rest, .markup⟩
  else
    match afterPrefix? ['-', '-'] text,
        if foreign then afterPrefix? ['[', 'C', 'D', 'A', 'T', 'A', '['] text else none with
    | some inside, _ =>
      let (comment, rest) := readComment inside
      ⟨[.comment comment], rest, .markup⟩
    | none, some inside =>
      let (data, rest) := readCharacterData inside
      ⟨data.map .char, rest, .markup⟩
    | none, none =>
      let (comment, rest) := readMarkedText text
      ⟨[.comment comment], rest, .markup⟩

def readAngle (foreign : Bool) (text : List Char) : Reading :=
  match text with
  | '!' :: rest => readDeclaration foreign rest
  | '/' :: rest => readClosing rest
  | '?' :: _ =>
    let (comment, rest) := readMarkedText text
    ⟨[.comment comment], rest, .markup⟩
  | c :: _ => if isLetter c then readTag text .startTag else ⟨[.char '<'], text, .markup⟩
  | [] => ⟨[.char '<'], [], .markup⟩

def readAmpersand (content : Content) (text : List Char) : Reading :=
  match Reference.read? false text with
  | some r =>
    let faults := if r.unfinished then [.fault] else []
    ⟨faults ++ r.characters.map .char, text.drop r.length, content⟩
  | none => ⟨[.char '&'], text, content⟩

/-- What follows the word `name` in a text that starts with it, in any case, if that is the end of
a tag's name. -/
def afterTagName? (name : String) (text : List Char) : Option (List Char) :=
  let word := name.toList
  let rest := text.drop word.length
  if agree (text.take word.length) word && rest.head?.any endsTagName then some rest else none

/-- Reads what follows `<` in text that goes on to the closing tag of an element. -/
def readUntil (element : String) (content : Content) (text : List Char) : Reading :=
  match text with
  | '/' :: rest =>
    if (afterTagName? element rest).isSome then readTag rest fun tag => .endTag tag.name
    else ⟨[.char '<'], text, content⟩
  | _ => ⟨[.char '<'], text, content⟩

/-- Reads what follows `<` in a script. Inside `<!--` a script tag hides the closing tag that
belongs to it. -/
def readScriptAngle (depth : ScriptDepth) (text : List Char) : Reading :=
  match depth, text with
  | .outside, '!' :: '-' :: '-' :: rest =>
    ⟨['<', '!', '-', '-'].map .char, rest, .script .commented 2⟩
  | .commented, text =>
    if (afterTagName? "script" text).isSome then ⟨[.char '<'], text, .script .nested 0⟩
    else readUntil "script" (.script .commented 0) text
  | .nested, '/' :: rest =>
    let depth := if (afterTagName? "script" rest).isSome then .commented else .nested
    ⟨[.char '<', .char '/'], rest, .script depth 0⟩
  | depth, text =>
    if depth = .nested then ⟨[.char '<'], text, .script .nested 0⟩
    else readUntil "script" (.script depth 0) text

def readNext (content : Content) (foreign : Bool) (c : Char) (rest : List Char) : Reading :=
  match content with
  | .markup =>
    if c = '<' then readAngle foreign rest
    else if c = '&' then readAmpersand .markup rest
    else ⟨[.char c], rest, .markup⟩
  | .references element =>
    if c = '<' then readUntil element content rest
    else if c = '&' then readAmpersand content rest
    else ⟨[visible c], rest, content⟩
  | .raw element =>
    if c = '<' then readUntil element content rest else ⟨[visible c], rest, content⟩
  | .script depth hyphens =>
    if c = '<' then readScriptAngle depth rest
    else if depth = .outside then ⟨[visible c], rest, .script .outside 0⟩
    else if c = '-' then ⟨[visible c], rest, .script depth (min 2 (hyphens + 1))⟩
    -- Two hyphens and `>` end what `<!--` began, however deep.
    else if c = '>' && hyphens = 2 then ⟨[visible c], rest, .script .outside 0⟩
    else ⟨[visible c], rest, .script depth 0⟩
  | .plain => ⟨[visible c], rest, .plain⟩

theorem length_readTag_le (text : List Char) (token : Tag → Token) :
    (readTag text token).rest.length ≤ text.length := by
  have named := length_dropWhile_le (!endsTagName ·) text
  unfold readTag
  dsimp only
  split
  · rename_i h
    exact Nat.le_trans (Nat.le_of_lt (length_readAttributes?_lt h)) named
  · exact Nat.zero_le _

theorem length_readClosing_le (text : List Char) :
    (readClosing text).rest.length ≤ text.length := by
  unfold readClosing
  split
  · exact Nat.le_refl _
  · split
    · exact length_readTag_le ..
    · split
      · exact Nat.le_succ _
      · exact length_readMarkedText_le _

theorem length_readDeclaration_le (foreign : Bool) (text : List Char) :
    (readDeclaration foreign text).rest.length ≤ text.length := by
  unfold readDeclaration
  split
  · refine Nat.le_trans (length_readDoctype_le _) ?_
    simp only [List.length_drop]; omega
  · split
    · rename_i h
      rw [afterPrefix?_eq_some_iff.1 h]
      refine Nat.le_trans (length_readComment_le _) ?_
      simp only [List.length_append]; omega
    · rename_i h
      split at h
      · rw [afterPrefix?_eq_some_iff.1 h]
        refine Nat.le_trans (length_readCharacterData_le _) ?_
        simp only [List.length_append]; omega
      · cases h
    · exact length_readMarkedText_le _

theorem length_readAngle_le (foreign : Bool) (text : List Char) :
    (readAngle foreign text).rest.length ≤ text.length := by
  unfold readAngle
  split
  · exact Nat.le_succ_of_le (length_readDeclaration_le ..)
  · exact Nat.le_succ_of_le (length_readClosing_le _)
  · exact length_readMarkedText_le _
  · split
    · exact length_readTag_le ..
    · exact Nat.le_refl _
  · exact Nat.le_refl _

theorem length_readAmpersand_le (content : Content) (text : List Char) :
    (readAmpersand content text).rest.length ≤ text.length := by
  unfold readAmpersand
  split
  · simp
  · exact Nat.le_refl _

theorem length_readUntil_le (element : String) (content : Content) (text : List Char) :
    (readUntil element content text).rest.length ≤ text.length := by
  unfold readUntil
  split
  · split
    · exact Nat.le_succ_of_le (length_readTag_le ..)
    · exact Nat.le_refl _
  · exact Nat.le_refl _

theorem length_readScriptAngle_le (depth : ScriptDepth) (text : List Char) :
    (readScriptAngle depth text).rest.length ≤ text.length := by
  unfold readScriptAngle
  split
  · simp only [List.length_cons]; omega
  · split
    · exact Nat.le_refl _
    · exact length_readUntil_le ..
  · exact Nat.le_succ _
  · split
    · exact Nat.le_refl _
    · exact length_readUntil_le ..

/-- Reading on takes at least the next character. -/
theorem length_readNext_le (content : Content) (foreign : Bool) (c : Char) (rest : List Char) :
    (readNext content foreign c rest).rest.length ≤ rest.length := by
  unfold readNext
  split
  · split
    · exact length_readAngle_le ..
    · split
      · exact length_readAmpersand_le ..
      · exact Nat.le_refl _
  · split
    · exact length_readUntil_le ..
    · split
      · exact length_readAmpersand_le ..
      · exact Nat.le_refl _
  · split
    · exact length_readUntil_le ..
    · exact Nat.le_refl _
  · split
    · exact length_readScriptAngle_le ..
    · repeat' split
      all_goals exact Nat.le_refl _
  · exact Nat.le_refl _

end PageLint.Html
