import PageLint.Proofs.Html.Graft.Tree
import PageLint.Proofs.Html.Reference
import PageLint.Proofs.Html.Written

/-!
# Reading raw text

The text of a script, a style or another element of this kind is read character by character up to
its closing tag. As long as it holds neither `</` nor `<!--`, all that it leaves behind is a text in
that element.
-/

namespace PageLint.Html

open Text

/-- Whether a text may stand in an element without ending it or hiding its end. -/
structure Plain (text : List Char) : Prop where
  closing : ¬ ['<', '/'] <:+: text
  comment : ¬ ['<', '!', '-', '-'] <:+: text

theorem Plain.suffix {text rest : List Char} (plain : Plain text) (suffix : rest <:+ text) :
    Plain rest :=
  ⟨fun inside => plain.closing (inside.trans suffix.isInfix),
    fun inside => plain.comment (inside.trans suffix.isInfix)⟩

inductive Content.Holds : String → Content → Prop
  | raw {element} : Holds element (.raw element)
  | references {element} : Holds element (.references element)
  | script : Holds "script" (.script .outside 0)

def Token.IsText : Token → Prop
  | .char _ => True
  | .fault => True
  | _ => False

/-! ### Tokens -/

section Tokens

variable {element : String} {content : Content} {foreign : Bool} {c : Char}
  {text rest after : List Char}

theorem readUntil_of_ne (other : ∀ rest, text ≠ '/' :: rest) :
    readUntil element content text = ⟨[.char '<'], text, content⟩ := by
  unfold readUntil
  split
  · exact absurd rfl (other _)
  · rfl

theorem readScriptAngle_outside (other : ¬ ['!', '-', '-'] <+: text) :
    readScriptAngle .outside text = readUntil "script" (.script .outside 0) text := by
  unfold readScriptAngle
  split
  · exact absurd ⟨_, rfl⟩ other
  · rename_i deeper
    cases deeper
  · rename_i deeper
    cases deeper
  · rfl

/-- What reading on in plain text gives: characters, and the rest of that text before what follows
it. -/
structure ReadsText (content : Content) (rest after : List Char) (reading : Reading) : Prop where
  tokens : ∀ t ∈ reading.tokens, t.IsText
  rest : ∃ left, reading.rest = left ++ after ∧ left <:+ rest
  content : reading.content = content

theorem ReadsText.one {t : Token} (isText : t.IsText) :
    ReadsText content rest after ⟨[t], rest ++ after, content⟩ :=
  ⟨fun _ member => List.mem_singleton.mp member ▸ isText, ⟨rest, rfl, List.suffix_rfl⟩, rfl⟩

theorem readsText_ampersand :
    ReadsText content rest ('<' :: after) (readAmpersand content (rest ++ '<' :: after)) := by
  rw [readAmpersand]
  cases read : Reference.read? false (rest ++ '<' :: after) with
  | none => exact .one trivial
  | some r =>
    obtain ⟨taken, back, split, length, clean⟩ := Reference.read?_takes read
    have inside : r.length ≤ rest.length := by
      rcases List.append_eq_append_iff.mp split with ⟨more, same, angle⟩ | ⟨more, same, _⟩
      · cases more with
        | nil => rw [← length, same, List.append_nil]
        | cons d more =>
          obtain ⟨rfl, _⟩ := List.cons.inj angle
          exact absurd (same ▸ by simp) clean
      · rw [← length, same, List.length_append]
        exact Nat.le_add_right _ _
    refine ⟨?_, ⟨rest.drop r.length, List.drop_append_of_le_length inside, List.drop_suffix _ _⟩,
      rfl⟩
    intro t member
    rcases List.mem_append.mp member with fault | char
    · split at fault
      · exact List.mem_singleton.mp fault ▸ trivial
      · cases fault
    · obtain ⟨c, _, rfl⟩ := List.mem_map.mp char
      trivial

/-- A closing tag cannot begin in plain text, nor a comment, not even with what follows. -/
theorem Plain.apart (plain : Plain ('<' :: rest)) (after : List Char) :
    (∀ later, rest ++ '<' :: after ≠ '/' :: later) ∧
      ¬ ['!', '-', '-'] <+: rest ++ '<' :: after := by
  constructor
  · intro later same
    cases rest with
    | nil => cases same
    | cons d rest =>
      obtain ⟨rfl, _⟩ := List.cons.inj same
      exact plain.closing ⟨[], rest, rfl⟩
  · rintro ⟨later, same⟩
    rcases rest with _ | ⟨d, _ | ⟨e, _ | ⟨f, rest⟩⟩⟩
    · cases same
    · cases same
    · cases same
    · cases same
      exact plain.comment ⟨[], rest, rfl⟩

theorem readsText (plain : Plain (c :: rest)) (holds : content.Holds element) (foreign : Bool)
    (after : List Char) :
    ReadsText content rest ('<' :: after) (readNext content foreign c (rest ++ '<' :: after)) := by
  by_cases angle : c = '<'
  · subst angle
    obtain ⟨closing, comment⟩ := plain.apart after
    cases holds with
    | raw =>
      rw [readNext, if_pos rfl, readUntil_of_ne closing]
      exact .one trivial
    | references =>
      rw [readNext, if_pos rfl, readUntil_of_ne closing]
      exact .one trivial
    | script =>
      rw [readNext, if_pos rfl, readScriptAngle_outside comment, readUntil_of_ne closing]
      exact .one trivial
  · cases holds with
    | raw =>
      rw [readNext, if_neg angle]
      exact .one trivial
    | references =>
      rw [readNext, if_neg angle]
      split
      · exact readsText_ampersand
      · exact .one trivial
    | script =>
      rw [readNext, if_neg angle, if_pos rfl]
      exact .one trivial

structure PlainName (name : List Char) : Prop where
  letter : name.head?.any isLetter = true
  inside : name.all (!endsTagName ·) = true
  kept : name.map nameChar = name

theorem readTag_plain {name : List Char} (plain : PlainName name) (rest : List Char)
    (token : Tag → Token) :
    readTag (name ++ '>' :: rest) token =
      ⟨[token { name := String.ofList name }], rest, .markup⟩ := by
  have front := List.all_eq_true.mp plain.inside
  have ends : ¬ (!endsTagName '>') = true := by decide
  have written : (name ++ '>' :: rest).takeWhile (!endsTagName ·) = name := by
    rw [List.takeWhile_append_of_pos front, List.takeWhile_cons_of_neg (p := (!endsTagName ·)) ends,
      List.append_nil]
  have behind : (name ++ '>' :: rest).dropWhile (!endsTagName ·) = '>' :: rest := by
    rw [List.dropWhile_append_of_pos front, List.dropWhile_cons_of_neg (p := (!endsTagName ·)) ends]
  have closed : readAttributes? ('>' :: rest) = some ⟨[], false, rest⟩ := by
    rw [readAttributes?]
    rfl
  rw [readTag, written, behind, plain.kept, closed]
  rfl

theorem readNext_startTag {name : List Char} (plain : PlainName name) :
    readNext .markup foreign '<' (name ++ '>' :: rest) =
      ⟨[.startTag { name := String.ofList name }], rest, .markup⟩ := by
  have read := readTag_plain plain rest .startTag
  have letter := plain.letter
  rw [readNext, if_pos rfl]
  cases name with
  | nil => cases letter
  | cons c name =>
    have isLetter_c : isLetter c = true := letter
    rw [List.cons_append] at read ⊢
    unfold readAngle
    split
    · rename_i same
      obtain ⟨rfl, _⟩ := List.cons.inj same
      cases isLetter_c
    · rename_i same
      obtain ⟨rfl, _⟩ := List.cons.inj same
      cases isLetter_c
    · rename_i same
      obtain ⟨rfl, _⟩ := List.cons.inj same
      cases isLetter_c
    · rename_i d later _ _ _ same
      obtain ⟨rfl, rfl⟩ := List.cons.inj same
      rw [if_pos isLetter_c]
      exact read
    · rename_i same
      cases same

/-- The closing tag of its element ends a text. -/
theorem readNext_closing (plain : PlainName element.toList) (holds : content.Holds element) :
    readNext content foreign '<' ('/' :: (element.toList ++ '>' :: rest)) =
      ⟨[.endTag element], rest, .markup⟩ := by
  have found : (afterTagName? element (element.toList ++ '>' :: rest)).isSome = true := by
    have ends : endsTagName '>' = true := by decide
    rw [afterTagName?, List.take_left, List.drop_left, agree_iff.mpr rfl, List.head?_cons,
      Option.any_some, ends]
    rfl
  have read (content : Content) :
      readUntil element content ('/' :: (element.toList ++ '>' :: rest)) =
        ⟨[.endTag element], rest, .markup⟩ := by
    rw [readUntil, if_pos found, readTag_plain plain _, String.ofList_toList]
  cases holds with
  | raw => exact read _
  | references => exact read _
  | script =>
    rw [readNext, if_pos rfl, readScriptAngle_outside fun ⟨_, same⟩ => by cases same]
    exact read _

end Tokens

/-! ### The text of an element -/

namespace Builder

variable {r : NodeId} {element : String} {b c d : Builder}

structure AtText (r : NodeId) (element : String) (b : Builder) : Prop where
  mode : b.mode = .text
  stack : ∃ outer, b.stack = ⟨r, ⟨.html, element⟩⟩ :: outer
  ordinary : ElementName.isHtml ⟨.html, element⟩ "template" = false
  fostering : b.fostering = false
  content : b.content.Holds element
  known : r < b.dom.nextId
  bounded : b.dom.Bounded
  childless : b.dom.children r = #[]

/-- Whether reading from `b` on has come to `c` through text of the element `r` only. -/
structure Filled (r : NodeId) (b c : Builder) : Prop where
  same : c = { b with dom := c.dom, dropsNewline := c.dropsNewline }
  dom : c.dom = b.dom ∨ b.dom.Grafted r b.dom.nextId c.dom

theorem Filled.dropped (filled : Filled r b c) (dropsNewline : Bool) :
    Filled r b { c with dropsNewline } := by
  refine ⟨?_, filled.dom⟩
  rw [filled.same]

theorem Filled.insertChar (at_ : b.AtText r element) (filled : Filled r b c) (x : Char) :
    Filled r b (c.insertChar x) := by
  obtain ⟨outer, stack⟩ := at_.stack
  have place : c.place = .lastIn r := by
    rw [filled.same, place, stack]
    dsimp only
    rw [placeIn, at_.fostering, container, at_.ordinary]
    rfl
  refine ⟨?_, .inr ?_⟩
  · rw [Builder.insertChar, filled.same]
  · rw [Builder.insertChar, place]
    rcases filled.dom with same | grafted
    · dsimp only
      rw [same]
      exact at_.bounded.grafted at_.known at_.childless x
    · exact grafted.appendText at_.childless x

theorem readAgain_done {t : Token} (html : c.isForeign t = false) (done : c.inMode t = .done d)
    (fuel : Nat) : c.readAgain (fuel + 1) t = d := by
  rw [readAgain, html, if_neg Bool.false_ne_true, done]

theorem readAgain_again {t : Token} (html : c.isForeign t = false) (again : c.inMode t = .again d t)
    (fuel : Nat) : c.readAgain (fuel + 1) t = d.readAgain fuel t := by
  rw [readAgain, html, if_neg Bool.false_ne_true, again]

/-- In the text of an HTML element a token is read once. -/
theorem readAgain_inText {outer : List Open} {t : Token} (mode : c.mode = .text)
    (stack : c.stack = ⟨r, ⟨.html, element⟩⟩ :: outer) (done : c.inText t = .done d) (fuel : Nat) :
    c.readAgain (fuel + 1) t = d := by
  have html : c.isForeign t = false := by
    rw [isForeign, stack]
    rfl
  have inMode : c.inMode t = .done d := by
    rw [Builder.inMode, mode]
    exact done
  exact readAgain_done html inMode fuel

theorem Filled.read (at_ : b.AtText r element) (filled : Filled r b c) {t : Token}
    (isText : t.IsText) : Filled r b (c.read t) := by
  have ready := filled.dropped false
  cases t with
  | char x =>
    obtain ⟨outer, stack⟩ := at_.stack
    have mode : c.mode = .text := by rw [filled.same, at_.mode]
    have stack' : c.stack = ⟨r, ⟨.html, element⟩⟩ :: outer := by rw [filled.same, stack]
    have inserted := readAgain_inText (c := { c with dropsNewline := false }) (t := .char x) mode
      stack' rfl (3 * c.stack.length + 19)
    unfold Builder.read
    dsimp only
    split
    · exact ready
    · rw [inserted]
      exact ready.insertChar at_ x
  | fault => exact ready
  | _ => cases isText

theorem Filled.readEach (at_ : b.AtText r element) (filled : Filled r b c) {tokens : List Token}
    (isText : ∀ t ∈ tokens, t.IsText) : Filled r b (tokens.foldl Builder.read c) := by
  induction tokens generalizing c with
  | nil => exact filled
  | cons t tokens ih =>
    obtain ⟨first, later⟩ := List.forall_mem_cons.mp isText
    exact ih (filled.read at_ first) later

/-- Reading comes to the end of a plain text with nothing but a text in its element. -/
theorem Filled.readAll (at_ : b.AtText r element) (filled : Filled r b c) {text : List Char}
    (plain : Plain text) (after : List Char) :
    ∃ d, Filled r b d ∧ c.readAll (text ++ '<' :: after) = d.readAll ('<' :: after) := by
  induction length : text.length using Nat.strongRecOn generalizing text c with
  | _ n ih =>
    cases text with
    | nil => exact ⟨c, filled, rfl⟩
    | cons x rest =>
      have content : c.content = b.content := by rw [filled.same]
      have reads := readsText plain at_.content c.holdsCharacterData after
      rw [← content] at reads
      obtain ⟨left, split, suffix⟩ := reads.rest
      have shorter : left.length < n := by
        rw [← length]
        exact Nat.lt_succ_of_le suffix.length_le
      have next := filled.readEach at_ reads.tokens
      obtain ⟨d, reached, same⟩ := ih left.length shorter next
        (plain.suffix (suffix.trans (List.suffix_cons x rest))) rfl
      refine ⟨d, reached, ?_⟩
      rw [List.cons_append, Builder.readAll, reads.content, split]
      exact same

def closeText (b : Builder) : Builder :=
  { b with content := .markup, dropsNewline := false }.pop.enter b.resume

theorem readAll_closing (mode : c.mode = .text) (stack : c.stack = ⟨r, ⟨.html, element⟩⟩ :: outer)
    (plain : PlainName element.toList) (holds : c.content.Holds element) (rest : List Char) :
    c.readAll ('<' :: '/' :: (element.toList ++ '>' :: rest)) = c.closeText.readAll rest := by
  have closed := readAgain_inText (c := { c with content := .markup, dropsNewline := false })
    (t := .endTag element) mode stack rfl (3 * c.stack.length + 19)
  have read : Builder.read { c with content := .markup } (.endTag element) = c.closeText := by
    have other : (Token.endTag element == .char '\n') = false := rfl
    unfold Builder.read
    dsimp only
    rw [other, Bool.and_false, if_neg Bool.false_ne_true]
    exact closed
  rw [Builder.readAll, readNext_closing plain holds]
  exact congrArg (Builder.readAll · rest) read

theorem readAll_startTag (markup : c.content = .markup) {name : List Char}
    (plain : PlainName name) (rest : List Char) :
    c.readAll ('<' :: (name ++ '>' :: rest)) =
      (c.read (.startTag { name := String.ofList name })).readAll rest := by
  have same : { c with content := .markup } = c := by
    rw [← markup]
  rw [Builder.readAll, markup, readNext_startTag plain]
  dsimp only
  rw [same]
  rfl

end Builder

/-! ### Pages with a raw text -/

theorem unifyLineEnds_cons {c : Char} (mark : c ≠ '\r') (text : List Char) :
    unifyLineEnds (c :: text) = c :: unifyLineEnds text := by
  rw [unifyLineEnds, if_neg mark]
  rintro _ rfl
  exact absurd rfl mark

theorem unifyLineEnds_plain {front : List Char} (plain : '\r' ∉ front) (text : List Char) :
    unifyLineEnds (front ++ text) = front ++ unifyLineEnds text := by
  induction front with
  | nil => rfl
  | cons c front ih =>
    obtain ⟨first, later⟩ := List.ne_and_not_mem_of_not_mem_cons plain
    rw [List.cons_append, unifyLineEnds_cons first.symm, ih later]
    rfl

theorem unifyLineEnds_append {c : Char} (mark : c ≠ '\n') (front text : List Char) :
    unifyLineEnds (front ++ c :: text) = unifyLineEnds front ++ unifyLineEnds (c :: text) := by
  fun_induction unifyLineEnds front with
  | case1 => rfl
  | case2 front ih => rw [List.cons_append, List.cons_append, unifyLineEnds, ih]; rfl
  | case3 d front other ih =>
    have apart : ∀ later, d = '\r' → front ++ c :: text ≠ '\n' :: later := by
      intro later return_ same
      cases front with
      | nil => exact mark (List.cons.inj same).1
      | cons e front => exact other front return_ (congrArg (· :: front) (List.cons.inj same).1)
    rw [List.cons_append, List.cons_append, unifyLineEnds, ih]
    exact apart

theorem prefix_of_unifyLineEnds {word text : List Char} (plain : '\n' ∉ word)
    (start : word <+: unifyLineEnds text) : word <+: text := by
  induction word generalizing text with
  | nil => exact List.nil_prefix
  | cons c word ih =>
    obtain ⟨mark, later⟩ := List.ne_and_not_mem_of_not_mem_cons plain
    unfold unifyLineEnds at start
    split at start
    · simp at start
    · exact absurd (List.cons_prefix_cons.mp start).1.symm mark
    · rename_i d text _
      obtain ⟨first, rest⟩ := List.cons_prefix_cons.mp start
      split at first
      · exact absurd first.symm mark
      · rw [first]
        exact List.cons_prefix_cons.mpr ⟨rfl, ih later rest⟩

theorem infix_of_unifyLineEnds {c : Char} {word text : List Char} (plain : '\n' ∉ c :: word)
    (inside : c :: word <:+: unifyLineEnds text) : c :: word <:+: text := by
  obtain ⟨front, back, split⟩ := inside
  rw [List.append_assoc, List.cons_append] at split
  obtain ⟨mark, later⟩ := List.ne_and_not_mem_of_not_mem_cons plain
  obtain ⟨before, after, rfl, same⟩ := unifyLineEnds_split (Ne.symm mark) split.symm
  obtain ⟨rest, rfl⟩ := prefix_of_unifyLineEnds later ⟨back, same.symm⟩
  exact ⟨before, rest, by simp⟩

theorem Plain.unifyLineEnds {text : List Char} (plain : Plain text) :
    Plain (unifyLineEnds text) :=
  ⟨fun inside => plain.closing (infix_of_unifyLineEnds (by decide) inside),
    fun inside => plain.comment (infix_of_unifyLineEnds (by decide) inside)⟩

def textElements : List (List Char) :=
  "noscript".toList :: Markup.rawTextElements

def rawStart (name : List Char) : List Char :=
  "<body><".toList ++ name ++ ['>']

theorem rawStart_eq (name : List Char) :
    rawStart name = '<' :: ("body".toList ++ '>' :: '<' :: (name ++ ['>'])) := by
  have start : "<body><".toList = '<' :: ("body".toList ++ ['>', '<']) := by decide +kernel
  unfold rawStart
  rw [start]
  simp only [List.cons_append, List.append_assoc, List.nil_append]

def rawEnd (name rest : List Char) : List Char :=
  '<' :: '/' :: (name ++ '>' :: rest)

def rawPage (name text rest : List Char) : List Char :=
  rawStart name ++ text ++ rawEnd name rest

def textOpened (name : List Char) : Builder :=
  (Builder.read {} (.startTag { name := "body" })).read (.startTag { name := String.ofList name })

structure StartsText (name : List Char) (b : Builder) : Prop where
  stack : b.stack = [⟨4, ⟨.html, String.ofList name⟩⟩, ⟨3, ⟨.html, "body"⟩⟩, ⟨1, ⟨.html, "html"⟩⟩]
  mode : b.mode = .text
  content : b.content = .raw (String.ofList name) ∨ b.content = .references (String.ofList name) ∨
    (String.ofList name = "script" ∧ b.content = .script .outside 0)
  ordinary : ElementName.isHtml ⟨.html, String.ofList name⟩ "template" = false
  fostering : b.fostering = false
  head : b.head = some 2
  form : b.form = none
  formatting : b.formatting = []
  nextId : b.dom.nextId = 5
  bounded : ∀ e ∈ b.dom.entries.toList, (∀ p ∈ e.parent, p < b.dom.nextId) ∧
    ∀ c ∈ e.children.toList, c < b.dom.nextId
  top : b.dom.parent? Dom.document = none
  childless : b.dom.children 4 = #[]
  parentless : ∀ c < 5, b.dom.parent? c ≠ some 4
  up : ∀ q < 5, ∀ c ∈ (b.dom.children q).toList, b.dom.parent? c = some q

variable {name : List Char} (raw : name ∈ textElements)
include raw

theorem plainName_raw : PlainName name := by
  have table : ∀ name ∈ textElements, name.head?.any isLetter = true ∧
      name.all (!endsTagName ·) = true ∧ name.map nameChar = name := by decide +kernel
  obtain ⟨letter, inside, kept⟩ := table name raw
  exact ⟨letter, inside, kept⟩

theorem startsText_textOpened : StartsText name (textOpened name) := by
  have table : ∀ name ∈ textElements, let b := textOpened name
      b.stack = [⟨4, ⟨.html, String.ofList name⟩⟩, ⟨3, ⟨.html, "body"⟩⟩, ⟨1, ⟨.html, "html"⟩⟩] ∧
      b.mode = .text ∧
      (b.content = .raw (String.ofList name) ∨ b.content = .references (String.ofList name) ∨
        (String.ofList name = "script" ∧ b.content = .script .outside 0)) ∧
      ElementName.isHtml ⟨.html, String.ofList name⟩ "template" = false ∧
      b.fostering = false ∧ b.head = some 2 ∧ b.form = none ∧ b.formatting = [] ∧
      b.dom.nextId = 5 ∧
      (∀ e ∈ b.dom.entries.toList, (∀ p ∈ e.parent, p < b.dom.nextId) ∧
        ∀ c ∈ e.children.toList, c < b.dom.nextId) ∧
      b.dom.parent? Dom.document = none ∧ b.dom.children 4 = #[] ∧
      (∀ c < 5, b.dom.parent? c ≠ some 4) ∧
      ∀ q < 5, ∀ c ∈ (b.dom.children q).toList, b.dom.parent? c = some q := by
    decide +kernel
  obtain ⟨stack, mode, content, ordinary, fostering, head, form, formatting, nextId, bounded, top,
    childless, parentless, up⟩ := table name raw
  exact { stack, mode, content, ordinary, fostering, head, form, formatting, nextId, bounded, top,
          childless, parentless, up }

theorem atText_textOpened : (textOpened name).AtText 4 (String.ofList name) := by
  have start := startsText_textOpened raw
  have content : (textOpened name).content.Holds (String.ofList name) := by
    rcases start.content with content | content | ⟨script, content⟩
    · exact content ▸ .raw
    · exact content ▸ .references
    · exact content ▸ script ▸ .script
  refine ⟨start.mode, ⟨_, start.stack⟩, start.ordinary, start.fostering, content, ?_,
    start.bounded, start.childless⟩
  rw [start.nextId]
  decide

theorem stack_closeText : (textOpened name).closeText.stack =
    [⟨3, ⟨.html, "body"⟩⟩, ⟨1, ⟨.html, "html"⟩⟩] :=
  congrArg (List.drop 1) (startsText_textOpened raw).stack

/-- After its closing tag nothing more goes into the element. -/
theorem sealed_closeText : (textOpened name).closeText.Sealed 4 := by
  have start := startsText_textOpened raw
  have apart {n : NodeId} {element : String} (movable : n ≠ Dom.document) (other : n ≠ 4)
      (inside : n < 5) (ordinary : ElementName.isHtml ⟨.html, element⟩ "template" = false) :
      (textOpened name).dom.Apart 4 ⟨n, ⟨.html, element⟩⟩ :=
    ⟨movable, other, start.nextId ▸ inside,
      fun template => by rw [ordinary] at template; cases template⟩
  refine ⟨by decide, ?_, ?_, ?_, ?_, ?_⟩
  · exact start.nextId ▸ (by decide : 4 < 5)
  · exact .of_lt (start.nextId ▸ start.up) start.top (start.nextId ▸ start.parentless)
  · rw [stack_closeText raw]
    refine List.forall_mem_cons.mpr ⟨apart (by decide) (by decide) (by decide) (by decide), ?_⟩
    exact List.forall_mem_singleton.mpr (apart (by decide) (by decide) (by decide) (by decide))
  · intro n same
    obtain rfl := Option.some.inj (start.head.symm.trans same)
    exact apart (by decide) (by decide) (by decide) (by decide)
  · intro n tag member
    rw [show (textOpened name).closeText.formatting = [] from start.formatting] at member
    cases member

/-- After its closing tag all that a text has left behind is a text in its element, if anything. -/
theorem closeText_filled {c : Builder} (filled : Builder.Filled 4 (textOpened name) c) :
    c.closeText = (textOpened name).closeText ∨
      Builder.Grafted 4 5 (textOpened name).closeText c.closeText := by
  have closed : c.closeText = { (textOpened name).closeText with dom := c.dom } := by
    rw [filled.same]
    rfl
  rcases filled.dom with same | grafted
  · left
    rw [closed, same]
    rfl
  · right
    have start := startsText_textOpened raw
    rw [start.nextId] at grafted
    rw [closed]
    refine ⟨⟨?_, ?_, ?_, ?_, grafted.nextId_eq, ⟨rfl, rfl, rfl, rfl, rfl, rfl, rfl, rfl, rfl⟩⟩,
      grafted, sealed_closeText raw⟩
    · rw [stack_closeText raw]
      decide
    · rw [show (textOpened name).closeText.formatting = [] from start.formatting]
      rfl
    · rw [show (textOpened name).closeText.head = some 2 from start.head]
      decide
    · rw [show (textOpened name).closeText.form = none from start.form]
      rfl

theorem unifyLineEnds_rawPage (text rest : List Char) :
    unifyLineEnds (withoutMark (rawPage name text rest)) =
      '<' :: ("body".toList ++ '>' :: '<' :: (name ++ '>' :: (unifyLineEnds text ++
        '<' :: '/' :: (name ++ '>' :: unifyLineEnds rest)))) := by
  have noReturn : ∀ name ∈ textElements, '\r' ∉ name := by decide +kernel
  have front : '\r' ∉ rawStart name := by
    rw [rawStart_eq]
    simpa using noReturn name raw
  have back : '\r' ∉ '<' :: '/' :: (name ++ ['>']) := by simpa using noReturn name raw
  have unmarked : withoutMark (rawPage name text rest) = rawPage name text rest := by
    rw [rawPage, rawStart_eq]
    rfl
  have closing : rawEnd name rest = ('<' :: '/' :: (name ++ ['>'])) ++ rest := by simp [rawEnd]
  have ends := unifyLineEnds_plain back rest
  rw [← closing] at ends
  rw [unmarked, rawPage, List.append_assoc, unifyLineEnds_plain front, rawEnd,
    unifyLineEnds_append (by decide), ← rawEnd, ends, rawStart_eq]
  simp

/-- The elements of a page do not depend on the text that its first element holds. -/
theorem seen_rawPage {text : List Char} (plain : Plain text) (rest : List Char) (levels : Nat) :
    Tree.seen levels (parse (rawPage name text rest)) =
      Tree.seen levels ((textOpened name).closeText.readAll (unifyLineEnds rest)).dom.parts := by
  have body : PlainName "body".toList := ⟨by decide +kernel, by decide +kernel, by decide +kernel⟩
  have markup : (Builder.read {} (.startTag { name := "body" })).content = .markup := by
    decide +kernel
  have spelled : (String.ofList name).toList = name := String.toList_ofList
  have at_ := atText_textOpened raw
  have start : Builder.Filled 4 (textOpened name) (textOpened name) := ⟨rfl, .inl rfl⟩
  obtain ⟨d, filled, read⟩ := start.readAll at_ plain.unifyLineEnds
    ('/' :: (name ++ '>' :: unifyLineEnds rest))
  have closed : d.readAll ('<' :: '/' :: (name ++ '>' :: unifyLineEnds rest)) =
      d.closeText.readAll (unifyLineEnds rest) := by
    have mode : d.mode = .text := by rw [filled.same, at_.mode]
    have stack : d.stack = (textOpened name).stack := by rw [filled.same]
    have content : d.content.Holds (String.ofList name) := by
      rw [filled.same]
      exact at_.content
    have closing := Builder.readAll_closing mode (stack.trans (startsText_textOpened raw).stack)
      (spelled.symm ▸ plainName_raw raw) content (unifyLineEnds rest)
    rw [spelled] at closing
    exact closing
  have parsed : parse (rawPage name text rest) =
      (d.closeText.readAll (unifyLineEnds rest)).dom.parts := by
    show (Builder.readAll {} (unifyLineEnds (withoutMark (rawPage name text rest)))).dom.parts = _
    rw [unifyLineEnds_rawPage raw, Builder.readAll_startTag rfl body, String.ofList_toList,
      Builder.readAll_startTag markup (plainName_raw raw), ← closed, ← read]
    rfl
  rw [parsed]
  rcases closeText_filled raw filled with same | grafted
  · rw [same]
  · have simulation := Builder.graftedSimulation 4 5 (by decide)
    have kept : Builder.Grafted 4 5 ((textOpened name).closeText.readAll (unifyLineEnds rest))
        (d.closeText.readAll (unifyLineEnds rest)) :=
      simulation.readAll grafted fun t _ => by cases t <;> trivial
    exact kept.dom.seen_parts kept.isSealed.tidy levels

end PageLint.Html
