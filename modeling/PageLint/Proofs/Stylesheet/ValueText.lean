import PageLint.Proofs.Stylesheet.Grouping
import PageLint.Proofs.Stylesheet.Nesting
import PageLint.Proofs.Stylesheet.Positions

/-!
# The text of a value

`spell` goes through the tokens of a value once, with a stack of open brackets, and writes down what
each of them gives. `values_written` says that a value in writing is that, but for the blanks around
it and an `!important`, and that the tokens in it are those of the source.
-/

namespace PageLint.Stylesheet

open Text Stylesheet.Tree

/-! ### Spelling tokens -/

inductive Spelled where
  | blank
  /-- the start or the end of a function or a block -/
  | bracket (text : List Char)
  | token (text : List Char)
  deriving DecidableEq, Repr

namespace Spelled

def text : Spelled → List Char
  | blank => [' ']
  | bracket s => s
  | token s => s

def isBlank : Spelled → Bool
  | blank => true
  | _ => false

def isToken (literal : String) : Spelled → Bool
  | token s => agree s literal.toList
  | _ => false

theorem eq_token {literal : String} {x : Spelled} (word : x.isToken literal = true) :
    ∃ s, x = .token s ∧ agree s literal.toList = true := by
  cases x with
  | token s => exact ⟨s, rfl, word⟩
  | _ => cases word

theorem isBlank_of_isToken {literal : String} (x : Spelled) (word : x.isToken literal = true) :
    x.isBlank = false := by
  obtain ⟨s, rfl, _⟩ := eq_token word
  rfl

def important : Suffix Spelled where
  blank := isBlank
  first := isToken "!"
  last := isToken "important"
  first_not_blank := isBlank_of_isToken
  last_not_blank := isBlank_of_isToken

end Spelled

/-- What the tokens of a value give in writing. `unclosed` holds the brackets that are open, innermost
first; those that no token closes are closed at the end. -/
def spell : (unclosed : List Bracket) → List Token → List Spelled
  | unclosed, [] => unclosed.map fun b => .bracket [b.closing]
  | unclosed, t :: ts =>
    match t.kind with
    | .blank => .blank :: spell unclosed ts
    | .comment => spell unclosed ts
    | .function name => .bracket (name ++ ['(']) :: spell (.paren :: unclosed) ts
    | .opens b => .bracket [b.opening] :: spell (b :: unclosed) ts
    | .closes b =>
      if unclosed.head? = some b then .bracket [b.closing] :: spell unclosed.tail ts
      else .token t.text :: spell unclosed ts
    | _ => .token t.text :: spell unclosed ts

namespace Component

mutual
def spelled : Component → List Spelled
  | token s => [.token s.toList]
  | blank => [.blank]
  | function name arguments =>
    .bracket (name.toList ++ ['(']) :: (spelledAll arguments ++ [.bracket [')']])
  | block b contents => .bracket [b.opening] :: (spelledAll contents ++ [.bracket [b.closing]])

def spelledAll : List Component → List Spelled
  | [] => []
  | c :: cs => spelled c ++ spelledAll cs
end

variable {c : Component} {cs cs' : List Component}

theorem spelledAll_append : spelledAll (cs ++ cs') = spelledAll cs ++ spelledAll cs' := by
  induction cs with
  | nil => rfl
  | cons c cs ih => rw [List.cons_append, spelledAll, spelledAll, ih, List.append_assoc]

mutual
theorem toList_render (c : Component) : c.render.toList = c.spelled.flatMap Spelled.text := by
  cases c with
  | token s => simp [render, spelled, Spelled.text]
  | blank => rfl
  | function name arguments =>
    simp [render, spelled, Spelled.text, toList_renderAll arguments]
  | block b contents =>
    simp [render, spelled, Spelled.text, toList_renderAll contents]

/-- Components in writing are what they give, put together. -/
theorem toList_renderAll (cs : List Component) :
    (renderAll cs).toList = (spelledAll cs).flatMap Spelled.text := by
  cases cs with
  | nil => rfl
  | cons c cs =>
    rw [renderAll, String.toList_append, toList_render c, toList_renderAll cs, spelledAll,
      List.flatMap_append]
end

mutual
theorem holds_iff (literal : String) (c : Component) :
    c.holds literal = true ↔ ∃ s, .token s ∈ c.spelled ∧ agree s literal.toList = true := by
  cases c with
  | token s => simp [holds, spelled]
  | blank => simp [holds, spelled]
  | function name arguments => simp [holds, spelled, anyHolds_iff literal arguments]
  | block b contents => simp [holds, spelled, anyHolds_iff literal contents]

/-- A token is in components, at any depth, if they give it. -/
theorem anyHolds_iff (literal : String) (cs : List Component) :
    anyHolds literal cs = true ↔
      ∃ s, .token s ∈ spelledAll cs ∧ agree s literal.toList = true := by
  cases cs with
  | nil => simp [anyHolds, spelledAll]
  | cons c cs =>
    rw [anyHolds, Bool.or_eq_true, holds_iff literal c, anyHolds_iff literal cs, spelledAll]
    simp only [List.mem_append, or_and_right, exists_or]
end

/-! ### The suffix in writing -/

theorem spelled_head (c : Component) :
    c = blank ∨ ∃ first rest, c.spelled = first :: rest ∧ first.isBlank = false := by
  cases c with
  | blank => exact .inl rfl
  | token s => exact .inr ⟨_, _, rfl, rfl⟩
  | function name arguments => exact .inr ⟨_, _, rfl, rfl⟩
  | block b contents => exact .inr ⟨_, _, rfl, rfl⟩

/-- A function or a block ends with a bracket, so a token at the end is all that there is. -/
theorem spelled_last (c : Component) :
    c = blank ∨ ∃ init last, c.spelled = init ++ [last] ∧ last.isBlank = false ∧
      ∀ s, last = .token s → init = [] ∧ c = token (String.ofList s) := by
  cases c with
  | blank => exact .inl rfl
  | token s =>
    refine .inr ⟨[], _, rfl, rfl, ?_⟩
    rintro _ ⟨⟩
    exact ⟨rfl, by rw [String.ofList_toList]⟩
  | function name arguments => exact .inr ⟨_ :: _, _, rfl, rfl, fun s => nofun⟩
  | block b contents => exact .inr ⟨_ :: _, _, rfl, rfl, fun s => nofun⟩

theorem blank_spelledAll (blanks : important.Blank cs) :
    Spelled.important.Blank (spelledAll cs) := by
  intro s member
  induction cs with
  | nil => cases member
  | cons c cs ih =>
    rcases List.mem_append.mp member with here | later
    · have blank := blanks c List.mem_cons_self
      cases c with
      | blank =>
        obtain rfl := List.mem_singleton.mp here
        rfl
      | _ => cases blank
    · exact ih (fun c member => blanks c (List.mem_cons_of_mem _ member)) later

theorem spelled_of_isToken {literal : String} (word : c.isToken literal = true) :
    ∃ s, c.spelled = [s] ∧ s.isToken literal = true := by
  cases c with
  | token s => exact ⟨_, rfl, word⟩
  | _ => cases word

theorem written_spelledAll (written : important.Written cs) :
    Spelled.important.Written (spelledAll cs) := by
  obtain ⟨starts, between, ends⟩ := written
  obtain ⟨first, same, starts⟩ := spelled_of_isToken starts
  obtain ⟨last, same', ends⟩ := spelled_of_isToken ends
  rw [spelledAll, same, spelledAll_append, spelledAll, same', spelledAll, List.append_nil]
  exact .words starts (blank_spelledAll between) ends

/-- A token with nothing but blanks behind it comes from a component that stands so. -/
theorem spelledAll_last {front back : List Spelled} {s : List Char}
    (whole : spelledAll cs = front ++ .token s :: back) (blanks : Spelled.important.Blank back) :
    ∃ init trail, cs = init ++ token (String.ofList s) :: trail ∧ spelledAll init = front ∧
      important.Blank trail := by
  induction cs using List.reverseRecOn generalizing back with
  | nil => exact absurd whole.symm (List.append_ne_nil_of_right_ne_nil _ (List.cons_ne_nil _ _))
  | append_singleton cs c ih =>
    rw [spelledAll_append, spelledAll, spelledAll, List.append_nil] at whole
    rcases List.eq_nil_or_concat' back with rfl | ⟨back, final, rfl⟩
    · rcases c.spelled_last with rfl | ⟨init, last, ends, _, alone⟩
      · cases (List.append_inj' whole rfl).2
      · rw [ends, ← List.append_assoc] at whole
        obtain ⟨before, same⟩ := List.append_inj' whole rfl
        obtain ⟨rfl, rfl⟩ := alone s (List.cons.inj same).1
        exact ⟨cs, [], rfl, (List.append_nil _).symm.trans before, by simp [Suffix.Blank]⟩
    · have final_blank := blanks final (by simp)
      rw [← List.cons_append, ← List.append_assoc] at whole
      rcases c.spelled_last with rfl | ⟨init, last, ends, no_blank, _⟩
      · obtain ⟨before, -⟩ := List.append_inj' whole rfl
        obtain ⟨init, trail, rfl, spells, trailing⟩ :=
          ih before fun a member => blanks a (List.mem_append_left _ member)
        refine ⟨init, trail ++ [blank], by simp, spells, ?_⟩
        intro a member
        rcases List.mem_append.mp member with earlier | here
        · exact trailing a earlier
        · obtain rfl := List.mem_singleton.mp here
          rfl
      · rw [ends, ← List.append_assoc] at whole
        obtain ⟨-, same⟩ := List.append_inj' whole rfl
        obtain rfl := (List.cons.inj same).1
        exact absurd final_blank (Bool.eq_false_iff.mp no_blank)

/-- A suffix in writing comes from components that are one. -/
theorem written_of_spelledAll {front suffix trail : List Spelled}
    (whole : spelledAll cs = front ++ (suffix ++ trail))
    (written : Spelled.important.Written suffix) (blanks : Spelled.important.Blank trail) :
    ∃ init suffix trail, cs = init ++ (suffix ++ trail) ∧ important.Written suffix ∧
      important.Blank trail := by
  obtain @⟨first, between, last, starts, inner, ends⟩ := written
  obtain ⟨f, rfl, starts⟩ := Spelled.eq_token starts
  obtain ⟨l, rfl, ends⟩ := Spelled.eq_token ends
  have regroup : spelledAll cs = (front ++ Spelled.token f :: between) ++ .token l :: trail := by
    rw [whole]
    simp
  obtain ⟨init, trail', rfl, spells, trailing⟩ := spelledAll_last regroup blanks
  obtain ⟨init', between', rfl, -, inner'⟩ := spelledAll_last spells inner
  refine ⟨init', token (String.ofList f) :: (between' ++ [token (String.ofList l)]), trail',
    by simp, .words ?_ inner' ?_, trailing⟩
  · show agree _ _ = true
    rwa [String.toList_ofList]
  · show agree _ _ = true
    rwa [String.toList_ofList]

theorem head?_spelledAll {x : Spelled} (start : ∀ c, cs.head? = some c → c.isBlank = false)
    (first : (spelledAll cs).head? = some x) : x.isBlank = false := by
  cases cs with
  | nil => cases first
  | cons c cs =>
    rcases c.spelled_head with rfl | ⟨first', rest, starts, no_blank⟩
    · cases start blank rfl
    · rw [spelledAll, starts] at first
      exact Option.some.inj first ▸ no_blank

theorem getLast?_spelledAll {x : Spelled} (stop : ∀ c, cs.getLast? = some c → c.isBlank = false)
    (final : (spelledAll cs).getLast? = some x) : x.isBlank = false := by
  rcases List.eq_nil_or_concat' cs with rfl | ⟨cs, c, rfl⟩
  · cases final
  · rcases c.spelled_last with rfl | ⟨init, last, ends, no_blank, _⟩
    · cases stop blank List.getLast?_concat
    · rw [spelledAll_append, spelledAll, spelledAll, List.append_nil, ends, ← List.append_assoc,
        List.getLast?_concat] at final
      exact Option.some.inj final ▸ no_blank

/-- Splitting a value and then writing it is writing it and then splitting it. -/
theorem splits_spelledAll {kept : List Component} {found : Bool}
    (split : important.Splits cs kept found) :
    Spelled.important.Splits (spelledAll cs) (spelledAll kept) found where
  head _ := head?_spelledAll split.head
  last _ := getLast?_spelledAll split.last
  found_iff := by
    rw [split.found_iff]
    constructor
    · rintro ⟨front, suffix, trail, rfl, written, blanks⟩
      refine ⟨spelledAll front, spelledAll suffix, spelledAll trail, ?_, written_spelledAll written,
        blank_spelledAll blanks⟩
      rw [spelledAll_append, spelledAll_append]
    · rintro ⟨front, suffix, trail, whole, written, blanks⟩
      exact written_of_spelledAll whole written blanks
  parts := by
    obtain ⟨lead, between, suffix, trail, rfl, leading, inner, blanks, written⟩ := split.parts
    refine ⟨spelledAll lead, spelledAll between, spelledAll suffix, spelledAll trail, ?_,
      blank_spelledAll leading, blank_spelledAll inner, blank_spelledAll blanks, ?_⟩
    · simp only [spelledAll_append]
    · cases found with
      | true => exact written_spelledAll written
      | false =>
        obtain rfl := written
        rfl

end Component

/-! ### Trees in writing -/

theorem Component.spelled_ofBlock {opener : Token} {b : Bracket}
    (opens : opener.kind.opened? = some b) (contents : List Component) :
    ∃ start, (ofBlock opener.kind contents).spelled =
        .bracket start :: (spelledAll contents ++ [.bracket [b.closing]]) ∧
      ∀ unclosed ts, spell unclosed (opener :: ts) = .bracket start :: spell (b :: unclosed) ts := by
  unfold TokenKind.opened? at opens
  split at opens
  · rename_i b' kind
    obtain rfl := Option.some.inj opens
    refine ⟨[b'.opening], ?_, ?_⟩
    · rw [kind]
      rfl
    · intro unclosed ts
      rw [spell, kind]
  · rename_i name kind
    obtain rfl := Option.some.inj opens
    refine ⟨name ++ ['('], ?_, ?_⟩
    · rw [kind, ofBlock, spelled, String.toList_ofList]
      rfl
    · intro unclosed ts
      rw [spell, kind]
  · cases opens

theorem spell_leaf {unclosed : List Bracket} {t : Token} (no_block : t.kind.opened? = none)
    (inside : ∀ b, unclosed.head? = some b → t.kind ≠ .closes b) (ts : List Token) :
    spell unclosed (t :: ts) =
      Component.spelledAll (Component.ofLeaf [] t) ++ spell unclosed ts := by
  rw [spell, Component.ofLeaf]
  cases kind : t.kind with
  | blank => rfl
  | comment => rfl
  | function => rw [kind] at no_block; cases no_block
  | opens => rw [kind] at no_block; cases no_block
  | closes b =>
    have other : unclosed.head? ≠ some b := fun top => inside b top kind
    dsimp only
    rw [if_neg other, Component.spelledAll, Component.spelled, Component.spelledAll,
      String.toList_ofList]
    rfl
  | _ =>
    dsimp only
    rw [Component.spelledAll, Component.spelled, Component.spelledAll, String.toList_ofList]
    rfl

variable {closing : Option Bracket} {ts rest : List Token} {trees front back contents : List Tree}

/-- Spelling tokens one after the other gives what their trees give. -/
theorem Units.spell_eq (units : Units closing ts trees rest) {unclosed : List Bracket}
    (top : unclosed.head? = closing) :
    spell unclosed ts =
      Component.spelledAll (Component.wholeAll trees) ++ spell unclosed rest := by
  -- The stack of open brackets is another one inside a block, but its top is always `closing`.
  induction units generalizing unclosed with
  | done => rfl
  | closed => rfl
  | single no_block inside _ ih =>
    rw [spell_leaf no_block fun b same => inside b (top.symm.trans same), ih top,
      Component.wholeAll, Component.whole, Component.spelledAll_append, List.append_assoc]
  | @block _ opener b _ inside closer after _ _ opens contents _ ih ih' =>
    obtain ⟨start, spelled, spells⟩ :=
      Component.spelled_ofBlock opens (Component.wholeAll inside)
    have closes : spell (b :: unclosed) (closer :: after) =
        .bracket [b.closing] :: spell unclosed after := by
      rw [spell, contents.closed_by]
      exact if_pos rfl
    rw [spells, ih rfl, closes, ih' top, Component.wholeAll, Component.whole,
      Component.spelledAll_append, Component.spelledAll, Component.spelledAll, spelled]
    simp
  | @unclosed _ opener b _ inside opens _ ih =>
    obtain ⟨start, spelled, spells⟩ :=
      Component.spelled_ofBlock opens (Component.wholeAll inside)
    have closes : spell (b :: unclosed) [] = .bracket [b.closing] :: spell unclosed [] := rfl
    rw [spells, ih rfl, closes, Component.wholeAll, Component.whole, Component.wholeAll,
      List.append_nil, Component.spelledAll, Component.spelledAll, spelled]
    simp

/-! ### The place of a value -/

theorem Units.tokens_eq (units : Units closing ts trees rest) : ts = toTokensAll trees ++ rest := by
  induction units with
  | done => rfl
  | closed => rfl
  | single _ _ _ ih => rw [ih]; rfl
  | block _ _ _ ih ih' =>
    rw [ih, ih', toTokensAll, toTokens]
    simp
  | unclosed _ _ ih =>
    rw [ih, toTokensAll, toTokens, toTokensAll]
    simp

/-- What a block holds does not depend on what follows its closing bracket. -/
theorem Units.before_closer {t : Token} (units : Units closing ts trees (t :: rest))
    (more : List Token) : Units closing (toTokensAll trees ++ t :: more) trees (t :: more) := by
  generalize stopped : t :: rest = stop at units
  induction units generalizing t rest more with
  | done => cases stopped
  | closed closes =>
    cases stopped
    exact .closed closes
  | single no_block inside _ ih => exact .single no_block inside (ih more stopped)
  | @block _ _ _ _ _ closer after trees _ opens contents _ ih ih' =>
    have inner := ih (toTokensAll trees ++ t :: more) rfl
    have all := Units.block opens inner (ih' more stopped)
    rw [toTokensAll, toTokens]
    simpa using all
  | unclosed => cases stopped

/-- The first of several trees are grouped by themselves. -/
theorem Units.take_front (units : Units closing ts (front ++ back) rest) :
    Units none (toTokensAll front) front [] := by
  generalize whole : front ++ back = trees at units
  induction units generalizing front with
  | done =>
    obtain rfl := (List.append_eq_nil_iff.mp whole).1
    exact .done
  | closed =>
    obtain rfl := (List.append_eq_nil_iff.mp whole).1
    exact .done
  | single no_block _ _ ih =>
    cases front with
    | nil => exact .done
    | cons t front =>
      obtain ⟨rfl, later⟩ := List.cons.inj whole
      exact .single no_block (fun b none => by cases none) (ih later)
  | block opens contents _ _ ih =>
    cases front with
    | nil => exact .done
    | cons t front =>
      obtain ⟨rfl, later⟩ := List.cons.inj whole
      have all := Units.block opens (contents.before_closer _) (ih later)
      rw [toTokensAll, toTokens]
      simpa using all
  | unclosed opens contents =>
    cases front with
    | nil => exact .done
    | cons t front =>
      obtain ⟨rfl, later⟩ := List.cons.inj whole
      obtain rfl := (List.append_eq_nil_iff.mp later).1
      rw [contents.tokens_eq] at contents
      rw [toTokensAll, toTokens, toTokensAll]
      simpa using Units.unclosed opens contents

theorem Units.drop_front (units : Units closing ts (front ++ back) rest) :
    ∃ ts', Units closing ts' back rest := by
  induction front generalizing ts with
  | nil => exact ⟨ts, units⟩
  | cons t front ih =>
    rw [List.cons_append] at units
    generalize later : front ++ back = trees at units
    cases units with
    | single _ _ others => exact ih (later ▸ others)
    | block _ _ others => exact ih (later ▸ others)
    | unclosed =>
      obtain rfl := (List.append_eq_nil_iff.mp later).2
      exact ⟨[], .done⟩

theorem Units.inside_block {opener : Token} {inside : List Tree} {closer : Option Token}
    (units : Units closing ts trees rest) (member : Tree.block opener inside closer ∈ trees) :
    ∃ b before ts' rest', ts = before ++ opener :: ts' ∧ opener.kind.opened? = some b ∧
      Units (some b) ts' inside rest' := by
  induction units with
  | done => cases member
  | closed => cases member
  | @single _ t _ _ _ _ _ _ ih =>
    obtain ⟨b, before, ts', rest', rfl, opens, contents⟩ :=
      ih ((List.mem_cons.mp member).resolve_left (by simp))
    exact ⟨b, t :: before, ts', rest', rfl, opens, contents⟩
  | @block _ opener' b ts inside' closer' after _ _ opens contents _ _ ih =>
    rcases List.mem_cons.mp member with same | later
    · cases same
      exact ⟨b, [], ts, closer' :: after, rfl, opens, contents⟩
    · obtain ⟨b', before, ts', rest', split, opens', contents'⟩ := ih later
      refine ⟨b', opener' :: (toTokensAll inside' ++ closer' :: before), ts', rest', ?_, opens',
        contents'⟩
      rw [contents.tokens_eq, split]
      simp
  | @unclosed _ opener' b ts inside' opens contents =>
    cases List.mem_singleton.mp member
    exact ⟨b, [], ts, [], rfl, opens, contents⟩

/-- The contents of a block in braces are a part of the tokens, and the brace or the end is behind
them. -/
theorem Units.within {depth : Nat} (units : Units closing ts trees rest)
    (within : Within trees depth contents) :
    ∃ closing' before inner rest', ts = before ++ inner ∧ Units closing' inner contents rest' ∧
      (closing' = closing ∨ closing' = some .brace) := by
  induction within generalizing closing ts rest with
  | here => exact ⟨closing, [], ts, rest, rfl, units, .inl rfl⟩
  | @inside _ opener _ _ _ _ member brace _ ih =>
    obtain ⟨b, before, ts', rest', rfl, opens, inner⟩ := units.inside_block member
    rw [brace] at opens
    cases opens
    obtain ⟨closing', before', inner', rest'', rfl, found, ends⟩ := ih inner
    refine ⟨closing', before ++ opener :: before', inner', rest'', by simp, found, .inr ?_⟩
    rcases ends with same | same <;> exact same

def EndsDeclaration (ts : List Token) : Prop :=
  ts = [] ∨ ∃ stop more, ts = stop :: more ∧ (stop.kind = .semicolon ∨ stop.kind = .closes .brace)

/-- Whether the tokens of a declaration's value stand in a text: behind the declaration's own name and
a colon, where a statement begins in a block at some depth, and up to what ends the declaration. -/
def Declared (text : List Char) (d : Declaration) (value : List Token) : Prop :=
  ∃ depth contents front name word start after trees rest before colon ending,
    Within (ofText text) depth contents ∧
    Begins contents front (leaf ⟨.ident name, word, start⟩) after ∧
    d.property = String.ofList name ∧
    d.position = (skippedBlock depth front).elim start (·.first.stop) ∧
    Declares after trees rest ∧ value = toTokensAll trees ∧
    tokens {} text = before ++ colon :: (value ++ ending) ∧ colon.kind = .colon ∧
    EndsDeclaration ending

theorem Declares.parts {after value rest : List Tree} (declares : Declares after value rest) :
    ∃ spaces colon back, after = spaces ++ leaf colon :: (value ++ back) ∧ colon.kind = .colon ∧
      (back = [] ∨ ∃ stop more, toTokensAll back = stop :: more ∧
        (stop.kind = .semicolon ∨ stop.kind = .closes .brace)) := by
  cases declares with
  | @ended spaces colon _ stop rest _ is_colon _ stops =>
    refine ⟨spaces, colon, stop :: rest, rfl, is_colon, .inr ?_⟩
    cases stop with
    | leaf stop =>
      refine ⟨stop, toTokensAll rest, rfl, ?_⟩
      simpa [isSemicolon, isStrayBrace] using stops
    | block => rcases stops with impossible | impossible <;> cases impossible
  | @last spaces colon _ _ is_colon => exact ⟨spaces, colon, [], by simp, is_colon, .inl rfl⟩

/-- The value of a declaration is what its own tokens form. -/
theorem Declaration.ReadFrom.declared {text : List Char} {d : Declaration} {value : List Tree}
    (source : d.ReadFrom text value) : Declared text d (toTokensAll value) ∧
      Units none (toTokensAll value) value [] := by
  obtain ⟨depth, contents, front, name, word, start, after, rest, within, begins, property,
    position, declares, _⟩ := source
  obtain ⟨closing, before, inner, behind, whole, units, ends⟩ :=
    (units_ofTokens (tokens {} text)).within within
  obtain ⟨spaces, colon, back, rfl, is_colon, stops⟩ := declares.parts
  have split := begins.split
  constructor
  · refine ⟨depth, contents, front, name, word, start, _, value, rest,
      before ++ toTokensAll (front ++ leaf ⟨.ident name, word, start⟩ :: spaces), colon,
      toTokensAll back ++ behind, within, begins, property, position, declares, rfl, ?_, is_colon,
      ?_⟩
    · rw [whole, units.tokens_eq, split]
      simp [toTokensAll, toTokens]
    · rcases stops with rfl | ⟨stop, more, same, stops⟩
      · rcases units.stop with none | ⟨b, t, more, rfl, same, closes⟩
        · exact .inl none
        · rcases ends with outside | brace
          · cases outside
          · cases brace
            exact .inr ⟨t, more, same, .inr closes⟩
      · exact .inr ⟨stop, more ++ behind, by rw [same, List.cons_append], stops⟩
  · have regroup : contents =
        (front ++ leaf ⟨.ident name, word, start⟩ :: (spaces ++ [leaf colon])) ++ (value ++ back) := by
      rw [split]
      simp
    rw [regroup] at units
    obtain ⟨ts, later⟩ := units.drop_front
    exact later.take_front

/-- A value in writing is what its tokens give, without the blanks around it and an `!important` at
its end: a blank is one space, comments are left out, functions and blocks are closed, and all other
tokens stand as in the source. It has a token exactly if one of these is that token, at any depth. -/
theorem values_written (text : List Char) : ∀ d ∈ declarations (parse text),
    Component.depthAll d.value ≤ maxNesting →
    ∃ value kept, Declared text d value ∧
      Spelled.important.Splits (spell [] value) kept d.important ∧
      Component.renderAll d.value = String.ofList (kept.flatMap Spelled.text) ∧
      ∀ literal, Component.anyHolds literal d.value = true ↔
        ∃ s, .token s ∈ kept ∧ agree s literal.toList = true := by
  intro d member shallow
  obtain ⟨value, source⟩ := declaration_source member
  obtain ⟨declared, units⟩ := source.declared
  have split := source.split
  have entered : Component.ofTrees maxNesting [] value = Component.wholeAll value := by
    refine Component.ofTrees_entered ?_
    rw [← Component.depthAll_splitImportant, split]
    exact shallow
  have spelled : spell [] (toTokensAll value) =
      Component.spelledAll (Component.wholeAll value) := by
    rw [units.spell_eq rfl]
    exact List.append_nil _
  refine ⟨toTokensAll value, Component.spelledAll d.value, declared, ?_, ?_,
    fun literal => Component.anyHolds_iff literal d.value⟩
  · have parts := Component.important.split_splits (Component.wholeAll value)
    rw [← Component.splitImportant_eq, ← entered, split] at parts
    rw [spelled, ← entered]
    exact Component.splits_spelledAll parts
  · rw [← Component.toList_renderAll, String.ofList_toList]

def openValues : List Char := "a\x7bb:/**/ f(x)  ] !Important;c:g([RED".toList

theorem values_written_openValues :
    (declarations (parse openValues)).map (fun d =>
      (Component.renderAll d.value, d.important, Component.anyHolds "red" d.value)) =
        [("f(x) ]", true, false), ("g([RED])", false, true)] ∧
      ∀ d ∈ declarations (parse openValues), Component.depthAll d.value ≤ maxNesting ∧
        ∃ value kept, Declared openValues d value ∧
          Spelled.important.Splits (spell [] value) kept d.important ∧
          Component.renderAll d.value = String.ofList (kept.flatMap Spelled.text) := by
  have whole : parse openValues = parseWhole openValues :=
    nodes_whole (by decide +kernel) (by decide +kernel)
  have shallow : Shallow (parseWhole openValues) := by decide +kernel
  refine ⟨by rw [whole]; decide +kernel, ?_⟩
  intro d member
  have depth : Component.depthAll d.value ≤ maxNesting := shallow d (whole ▸ member)
  obtain ⟨value, kept, declared, split, rendered, _⟩ := values_written openValues d member depth
  exact ⟨depth, value, kept, declared, split, rendered⟩

end PageLint.Stylesheet
