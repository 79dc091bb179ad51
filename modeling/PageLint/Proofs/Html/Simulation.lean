import PageLint.Proofs.Html.Alike

/-!
# Relations that reading keeps

Reading a token changes a builder in few ways: it inserts a node, closes elements, moves a block out
of formatting, or changes what is not a node. A `Simulation` is a relation between builders that
each of these keeps. All that reading does to open elements and to formatting is made of such
changes, so it keeps the relation too.
-/

namespace PageLint.Html

def formattingNames : List String := "a" :: "nobr" :: Names.formatting

/-- The names of the elements that are made where no start tag stands for them. -/
def impliedNames : List String := ["html", "head", "body", "p", "br", "colgroup", "tbody", "tr"]

/-- Whether a condition on the name and the attributes of an element holds of all elements that
reading makes, if it holds of those that start tags ask for. -/
structure Admits (ok : String → List Attribute → Prop) : Prop where
  implied : ∀ name ∈ impliedNames, ok name []
  image : ∀ attributes, ok "image" attributes → ok "img" attributes
  svg : ∀ name new attributes, ok name attributes → Builder.svgNames.lookup name = some new →
    ok new attributes
  foreign : ∀ name attributes space, ok name attributes →
    ok name (attributes.map (Builder.foreignAttribute space))

def Token.Admitted (ok : String → List Attribute → Prop) : Token → Prop
  | .startTag tag => ok tag.name tag.attributes
  | _ => True

namespace Builder

/-- Whether an entry of formatting may go into a builder: it is there already, or it stands for an
open element. -/
def MayFormat (ok : String → List Attribute → Prop) (b : Builder) : Formatting → Prop
  | .mark => True
  | .element n tag => .element n tag ∈ b.formatting ∨
      ok tag.name tag.attributes ∧ tag.name ∈ formattingNames ∧ ∃ o ∈ b.stack, o.id = n

theorem mem_replaceFormatting {entry f : Formatting} {element : NodeId}
    {innermost : Option NodeId} {formatting : List Formatting}
    (member : f ∈ replaceFormatting entry element innermost formatting) :
    f = entry ∨ f ∈ formatting := by
  induction formatting with
  | nil => cases member
  | cons g rest ih =>
    have later : f ∈ replaceFormatting entry element innermost rest →
        f = entry ∨ f ∈ g :: rest :=
      fun member => (ih member).imp_right (List.mem_cons_of_mem g)
    rw [replaceFormatting] at member
    split at member
    · split at member
      · exact (List.mem_cons.mp member).elim .inl later
      · exact later member
    · split at member
      · rcases List.mem_cons.mp member with same | member
        · exact .inl same
        · rcases List.mem_cons.mp member with rfl | member
          · exact .inr List.mem_cons_self
          · exact later member
      · rcases List.mem_cons.mp member with rfl | member
        · exact .inr List.mem_cons_self
        · exact later member

/-- One turn of closing a formatting element, where `inner` are the open elements inside it from the
outermost on and `below` those around it: a block is moved out of it and `goOn` has the next turn, or
the element is closed if there is no such block. -/
def adoptTurn (b : Builder) (goOn : Builder → Builder) (tag : Tag) (element : Open)
    (inner below : List Open) : Builder :=
  let between := inner.takeWhile (!·.name.isAnyOf Names.special)
  match inner.drop between.length, below with
  | block :: above, ancestor :: below =>
    goOn (b.adopt element tag above.reverse block between.reverse ancestor below)
  | _, _ => ({ b with stack := below }).removeFormatting element.id

/-- A relation between two builders, the second of which has the nodes of the first under other
numbers, that each change made by reading keeps. The tags of elements meet the condition `ok`. -/
structure Simulation (ρ : NodeId → NodeId) (ok : String → List Attribute → Prop)
    (R : Builder → Builder → Prop) : Prop where
  admits : Admits ok
  injective : Function.Injective ρ
  document : ρ Dom.document = Dom.document
  alike {b b'} : R b b' → Alike ρ b b'
  tagged {b b' n tag} : R b b' → .element n tag ∈ b.formatting →
    ok tag.name tag.attributes ∧ tag.name ∈ formattingNames
  settings {b b' c c'} : R b b' → SameNodes b c → SameNodes b' c' → SameSettings c c' → R c c'
  shrink {b b' stack} : R b b' → stack.Sublist b.stack →
    R { b with stack } { b' with stack := stack.map (Open.rename ρ) }
  format {b b'} (formatting) : R b b' → (∀ f ∈ formatting, MayFormat ok b f) →
    R { b with formatting } { b' with formatting := formatting.map (Formatting.rename ρ) }
  form {b b'} (form : Option NodeId) : R b b' → R { b with form } { b' with form := form.map ρ }
  head {b b' o} : R b b' → o ∈ b.stack →
    R { b with head := some o.id } { b' with head := some (ρ o.id) }
  headAgain {b b' n} : R b b' → b.head = some n →
    R { b with stack := ⟨n, ⟨.html, "head"⟩⟩ :: b.stack }
      { b' with stack := ⟨ρ n, ⟨.html, "head"⟩⟩ :: b'.stack }
  insert {b b'} (space : Space) (tag : Tag) : R b b' → ok tag.name tag.attributes →
    R (b.insert space tag) (b'.insert space tag)
  createRoot {b b' attributes} : R b b' → ok "html" attributes →
    R (b.createRoot attributes) (b'.createRoot attributes)
  insertChar {b b'} (c : Char) : R b b' → R (b.insertChar c) (b'.insertChar c)
  insertComment {b b'} (text : String) : R b b' → R (b.insertComment text) (b'.insertComment text)
  commentIn {b b' n} (text : String) : R b b' → n = Dom.document ∨ (∃ o ∈ b.stack, o.id = n) →
    R (b.commentIn n text) (b'.commentIn (ρ n) text)
  doctype {b b'} (name : String) : R b b' →
    R { b with dom := (b.dom.add (.doctype name)).append Dom.document b.dom.nextId }
      { b' with dom := (b'.dom.add (.doctype name)).append Dom.document b'.dom.nextId }
  merge {b b' o name attributes} : R b b' → o ∈ b.stack → ok name attributes →
    name = "html" ∨ name = "body" →
    R { b with dom := b.dom.addAttributes o.id attributes }
      { b' with dom := b'.dom.addAttributes (ρ o.id) attributes }
  detach {b b' o} : R b b' → o ∈ b.stack →
    R { b with dom := b.dom.detach o.id } { b' with dom := b'.dom.detach (ρ o.id) }
  adopt {b b' tag} (element block ancestor : Open) (above between below : List Open) : R b b' →
    .element element.id tag ∈ b.formatting →
    (∀ o ∈ above ++ block :: (between ++ element :: ancestor :: below), o ∈ b.stack) →
    R (b.adopt element tag above block between ancestor below)
      (b'.adopt (element.rename ρ) tag (above.map (Open.rename ρ)) (block.rename ρ)
        (between.map (Open.rename ρ)) (ancestor.rename ρ) (below.map (Open.rename ρ)))

/-- Whether two builders go on alike: both are done with a token, or both read it again. -/
inductive Together (ok : String → List Attribute → Prop) (R : Builder → Builder → Prop) :
    Outcome → Outcome → Prop
  | done {b b'} : R b b' → Together ok R (.done b) (.done b')
  | again {b b' t} : R b b' → t.Admitted ok → Together ok R (.again b t) (.again b' t)

namespace Simulation

variable {ρ : NodeId → NodeId} {ok : String → List Attribute → Prop} {R : Builder → Builder → Prop}
  (S : Simulation ρ ok R) {b b' : Builder} (h : R b b')
include S h

/-! ### What is not a node -/

theorem enter (mode : Mode) : R (b.enter mode) (b'.enter mode) := by
  obtain ⟨_, s2, s3, s4, s5, s6, s7, s8, s9⟩ := (S.alike h).settings
  exact S.settings h ⟨rfl, rfl, rfl, rfl, rfl⟩ ⟨rfl, rfl, rfl, rfl, rfl⟩
    ⟨rfl, s2, s3, s4, s5, s6, s7, s8, s9⟩

theorem noFrames : R b.noFrames b'.noFrames := by
  obtain ⟨s1, s2, s3, _, s5, s6, s7, s8, s9⟩ := (S.alike h).settings
  exact S.settings h ⟨rfl, rfl, rfl, rfl, rfl⟩ ⟨rfl, rfl, rfl, rfl, rfl⟩
    ⟨s1, s2, s3, rfl, s5, s6, s7, s8, s9⟩

theorem noFramesAfter (c : Char) : R (b.noFramesAfter c) (b'.noFramesAfter c) := by
  unfold Builder.noFramesAfter
  split
  · exact h
  · exact S.noFrames h

theorem changeTemplates (f : List Mode → List Mode) :
    R { b with templates := f b.templates } { b' with templates := f b'.templates } := by
  obtain ⟨s1, s2, s3, s4, s5, s6, s7, s8, s9⟩ := (S.alike h).settings
  exact S.settings h ⟨rfl, rfl, rfl, rfl, rfl⟩ ⟨rfl, rfl, rfl, rfl, rfl⟩
    ⟨s1, s2, congrArg f s3, s4, s5, s6, s7, s8, s9⟩

theorem withResume (resume : Mode) : R { b with resume } { b' with resume } := by
  obtain ⟨s1, _, s3, s4, s5, s6, s7, s8, s9⟩ := (S.alike h).settings
  exact S.settings h ⟨rfl, rfl, rfl, rfl, rfl⟩ ⟨rfl, rfl, rfl, rfl, rfl⟩
    ⟨s1, rfl, s3, s4, s5, s6, s7, s8, s9⟩

theorem withFostering (fostering : Bool) : R { b with fostering } { b' with fostering } := by
  obtain ⟨s1, s2, s3, s4, _, s6, s7, s8, s9⟩ := (S.alike h).settings
  exact S.settings h ⟨rfl, rfl, rfl, rfl, rfl⟩ ⟨rfl, rfl, rfl, rfl, rfl⟩
    ⟨s1, s2, s3, s4, rfl, s6, s7, s8, s9⟩

theorem withDropsNewline (dropsNewline : Bool) :
    R { b with dropsNewline } { b' with dropsNewline } := by
  obtain ⟨s1, s2, s3, s4, s5, _, s7, s8, s9⟩ := (S.alike h).settings
  exact S.settings h ⟨rfl, rfl, rfl, rfl, rfl⟩ ⟨rfl, rfl, rfl, rfl, rfl⟩
    ⟨s1, s2, s3, s4, s5, rfl, s7, s8, s9⟩

theorem withLenient (lenient : Bool) : R { b with lenient } { b' with lenient } := by
  obtain ⟨s1, s2, s3, s4, s5, s6, _, s8, s9⟩ := (S.alike h).settings
  exact S.settings h ⟨rfl, rfl, rfl, rfl, rfl⟩ ⟨rfl, rfl, rfl, rfl, rfl⟩
    ⟨s1, s2, s3, s4, s5, s6, rfl, s8, s9⟩

theorem withTableText (tableText : List Char) : R { b with tableText } { b' with tableText } := by
  obtain ⟨s1, s2, s3, s4, s5, s6, s7, _, s9⟩ := (S.alike h).settings
  exact S.settings h ⟨rfl, rfl, rfl, rfl, rfl⟩ ⟨rfl, rfl, rfl, rfl, rfl⟩
    ⟨s1, s2, s3, s4, s5, s6, s7, rfl, s9⟩

theorem withContent (content : Content) : R { b with content } { b' with content } := by
  obtain ⟨s1, s2, s3, s4, s5, s6, s7, s8, _⟩ := (S.alike h).settings
  exact S.settings h ⟨rfl, rfl, rfl, rfl, rfl⟩ ⟨rfl, rfl, rfl, rfl, rfl⟩
    ⟨s1, s2, s3, s4, s5, s6, s7, s8, rfl⟩

theorem retry {t : Token} (mode : Mode) (good : t.Admitted ok) :
    Together ok R (b.retry mode t) (b'.retry mode t) :=
  .again (S.enter h mode) good

/-! ### Closing elements -/

theorem pop : R b.pop b'.pop := by
  have fewer := S.shrink h (List.drop_sublist 1 b.stack)
  rw [List.map_drop, ← (S.alike h).stack] at fewer
  exact fewer

theorem dropOpen (p : ElementName → Bool) :
    R { b with stack := b.stack.dropWhile fun o => p o.name }
      { b' with stack := b'.stack.dropWhile fun o => p o.name } := by
  have fewer := S.shrink h (List.dropWhile_sublist (fun o => p o.name) (l := b.stack))
  rw [← dropWhile_name ρ p, ← (S.alike h).stack] at fewer
  exact fewer

theorem popThrough (wanted : ElementName → Bool) : R (b.popThrough wanted) (b'.popThrough wanted) :=
  S.pop (S.dropOpen h (!wanted ·))

theorem popThroughHtml (name : String) : R (b.popThroughHtml name) (b'.popThroughHtml name) :=
  S.popThrough h (·.isHtml name)

theorem popTo (names : List String) : R (b.popTo names) (b'.popTo names) :=
  S.dropOpen h (!·.isAnyOf names)

theorem popImplied (kept : List String) : R (b.popImplied kept) (b'.popImplied kept) :=
  S.dropOpen h fun n => n.isAnyOf Names.implied && !kept.contains n.name

theorem close (name : String) : R (b.close name) (b'.close name) :=
  S.popThroughHtml (S.popImplied h [name]) name

theorem closeParagraph : R b.closeParagraph b'.closeParagraph := by
  rw [Builder.closeParagraph, Builder.closeParagraph, (S.alike h).paragraphInScope]
  split
  · exact S.close h "p"
  · exact h

theorem popIf (name : String) : R (b.popIf name) (b'.popIf name) := by
  rw [Builder.popIf, Builder.popIf, (S.alike h).currentIs]
  split
  · exact S.pop h
  · exact h

theorem removeOpen (n : NodeId) : R (b.removeOpen n) (b'.removeOpen (ρ n)) := by
  have fewer := S.shrink h (List.filter_sublist (l := b.stack) (p := fun o => o.id ≠ n))
  have same : ∀ o : Open, decide ((o.rename ρ).id ≠ ρ n) = decide (o.id ≠ n) :=
    fun o => decide_eq_decide.mpr (not_congr S.injective.eq_iff)
  rw [← filter_rename (q := (·.id ≠ ρ n)) same, ← (S.alike h).stack] at fewer
  exact fewer

/-! ### Inserting elements -/

theorem insertHtml {tag : Tag} (good : ok tag.name tag.attributes) :
    R (b.insertHtml tag) (b'.insertHtml tag) :=
  S.insert .html tag h good

theorem insertImplied {name : String} (listed : name ∈ impliedNames) :
    R (b.insertImplied name) (b'.insertImplied name) :=
  S.insertHtml h (S.admits.implied name listed)

theorem insertEmpty {tag : Tag} (good : ok tag.name tag.attributes) :
    R (b.insertEmpty tag) (b'.insertEmpty tag) :=
  S.pop (S.insertHtml h good)

theorem insertText {tag : Tag} (content : Content) (good : ok tag.name tag.attributes) :
    R (b.insertText tag content) (b'.insertText tag content) := by
  have inserted := S.enter (S.withResume (S.withContent (S.insertHtml h good) content) b.mode) .text
  rw [Builder.insertText, Builder.insertText, (S.alike h).settings.mode]
  exact inserted

/-! ### Formatting -/

theorem keepFormatting {formatting : List Formatting} (kept : formatting.Sublist b.formatting) :
    R { b with formatting } { b' with formatting := formatting.map (Formatting.rename ρ) } := by
  refine S.format _ h ?_
  intro f member
  cases f with
  | mark => trivial
  | element n tag => exact .inl (kept.subset member)

theorem filterFormatting {p q : Formatting → Bool} (same : ∀ f, q (f.rename ρ) = p f) :
    R { b with formatting := b.formatting.filter p }
      { b' with formatting := b'.formatting.filter q } := by
  have kept := S.keepFormatting h (List.filter_sublist (l := b.formatting) (p := p))
  rw [← filter_rename same, ← (S.alike h).formatting] at kept
  exact kept

theorem markFormatting : R b.markFormatting b'.markFormatting := by
  have marked := S.format (.mark :: b.formatting) h (by
    intro f member
    cases f with
    | mark => trivial
    | element n tag => exact .inl ((List.mem_cons.mp member).resolve_left (by simp)))
  rw [List.map_cons, ← (S.alike h).formatting] at marked
  exact marked

theorem endFormatting : R b.endFormatting b'.endFormatting := by
  have kept := S.keepFormatting h
    ((List.drop_sublist 1 _).trans (List.dropWhile_sublist (· ≠ .mark)))
  rw [List.map_drop, ← dropWhile_rename (q := (· ≠ .mark)) (isMark_rename ρ),
    ← (S.alike h).formatting] at kept
  exact kept

theorem recentFormatting :
    b'.recentFormatting = b.recentFormatting.map (Formatting.rename ρ) := by
  rw [Builder.recentFormatting, Builder.recentFormatting, (S.alike h).formatting,
    takeWhile_rename (p := (· ≠ .mark)) (isMark_rename ρ)]

theorem removeFormatting (n : NodeId) :
    R (b.removeFormatting n) (b'.removeFormatting (ρ n)) :=
  S.filterFormatting h fun f => congrArg (!·) (isEntry_rename S.injective n f)

theorem reopen {kept entries : List Formatting} (known : ∀ f ∈ kept, MayFormat ok b f)
    (tagged : ∀ n tag, .element n tag ∈ entries →
      ok tag.name tag.attributes ∧ tag.name ∈ formattingNames) :
    R (b.reopen kept entries)
      (b'.reopen (kept.map (Formatting.rename ρ)) (entries.map (Formatting.rename ρ))) := by
  induction entries generalizing b b' kept with
  | nil => exact S.format _ h known
  | cons f entries ih =>
    have later : ∀ n tag, .element n tag ∈ entries →
        ok tag.name tag.attributes ∧ tag.name ∈ formattingNames :=
      fun n tag member => tagged n tag (List.mem_cons_of_mem _ member)
    cases f with
    | mark => exact ih h (List.forall_mem_cons.mpr ⟨trivial, known⟩) later
    | element n tag =>
      obtain ⟨good, listed⟩ := tagged n tag List.mem_cons_self
      have inserted := S.insertHtml h good
      have next := (S.alike h).nextId
      rw [List.map_cons, Formatting.rename, Builder.reopen, Builder.reopen, next]
      refine ih inserted (List.forall_mem_cons.mpr ⟨.inr ⟨good, listed, ?_⟩, ?_⟩) later
      · exact ⟨_, List.mem_cons_self, rfl⟩
      · intro f member
        have before := known f member
        cases f with
        | mark => trivial
        | element m old =>
          rcases before with present | ⟨good, listed, o, isOpen, same⟩
          · exact .inl present
          · exact .inr ⟨good, listed, o, List.mem_cons_of_mem _ isOpen, same⟩

theorem reopenFormatting : R b.reopenFormatting b'.reopenFormatting := by
  have a := S.alike h
  have settled : ∀ f, (!b'.isSettled (f.rename ρ)) = !b.isSettled f :=
    fun f => congrArg (!·) (a.isSettled S.injective f)
  have closed : b'.formatting.takeWhile (!b'.isSettled ·) =
      (b.formatting.takeWhile (!b.isSettled ·)).map (Formatting.rename ρ) := by
    rw [a.formatting]
    exact takeWhile_rename (q := (!b'.isSettled ·)) settled _
  rw [Builder.reopenFormatting, Builder.reopenFormatting, closed, List.length_map, a.formatting,
    ← List.map_drop, ← List.map_reverse]
  refine S.reopen h ?_ ?_
  · intro f member
    cases f with
    | mark => trivial
    | element n tag => exact .inl (List.mem_of_mem_drop member)
  · intro n tag member
    exact S.tagged h ((List.takeWhile_sublist _).subset (List.mem_reverse.mp member))

theorem limitFormatting (tag : Tag) : R (b.limitFormatting tag) (b'.limitFormatting tag) := by
  rw [Builder.limitFormatting, Builder.limitFormatting, S.recentFormatting h, filter_tagged]
  case tagged => exact fun _ _ _ => rfl
  rw [← List.map_reverse]
  rcases (b.recentFormatting.filter _).reverse with _ | ⟨earliest, _ | ⟨_, _ | ⟨_, _⟩⟩⟩
  · exact h
  · exact h
  · exact h
  · exact S.filterFormatting h fun f => decide_eq_decide.mpr
      (not_congr (Formatting.rename_injective S.injective).eq_iff)

theorem insertFormatting {tag : Tag} (good : ok tag.name tag.attributes)
    (listed : tag.name ∈ formattingNames) :
    R (b.insertFormatting tag) (b'.insertFormatting tag) := by
  have limited := S.limitFormatting h tag
  have inserted := S.insertHtml limited good
  have next := (S.alike limited).nextId
  have added := S.format (.element (b.limitFormatting tag).dom.nextId tag ::
      ((b.limitFormatting tag).insertHtml tag).formatting) inserted (by
    refine List.forall_mem_cons.mpr ⟨.inr ⟨good, listed, _, List.mem_cons_self, rfl⟩, ?_⟩
    intro f member
    cases f with
    | mark => trivial
    | element n old => exact .inl member)
  rw [List.map_cons, Formatting.rename, ← next, ← (S.alike inserted).formatting] at added
  exact added

/-! ### Overlapping formatting -/

theorem closeOrdinary (name : String) : R (b.closeOrdinary name) (b'.closeOrdinary name) := by
  have found := dropWhile_name ρ (fun n => !(n.isHtml name || n.isAnyOf Names.special)) b.stack
  rw [Builder.closeOrdinary, Builder.closeOrdinary, (S.alike h).stack, found]
  cases outward : b.stack.dropWhile fun o => _ with
  | nil => exact h
  | cons o outer =>
    have inner : outer.Sublist b.stack :=
      (List.sublist_cons_self o outer).trans (outward ▸ List.dropWhile_sublist _)
    change R (if o.name.isHtml name then { b with stack := outer } else b)
      (if o.name.isHtml name then { b' with stack := outer.map (Open.rename ρ) } else b')
    split
    · exact S.shrink h inner
    · exact h

omit S h in
/-- The elements that one turn of closing a formatting element rearranges are open. -/
theorem isOpen_of_turn {stack inner above below : List Open} {element block ancestor : Open}
    {ordinary : Open → Bool} (within : inner ⊆ stack)
    (outer : (element :: ancestor :: below).Sublist stack)
    (parted : inner.drop (inner.takeWhile ordinary).length = block :: above) :
    ∀ o ∈ above.reverse ++
      block :: ((inner.takeWhile ordinary).reverse ++ element :: ancestor :: below), o ∈ stack := by
  have onward := List.drop_subset (inner.takeWhile ordinary).length inner
  rw [parted] at onward
  intro o member
  simp only [List.mem_append, List.mem_cons, List.mem_reverse] at member
  rcases member with inAbove | rfl | inBetween | inOuter
  · exact within (onward (List.mem_cons_of_mem block inAbove))
  · exact within (onward List.mem_cons_self)
  · exact within ((List.takeWhile_sublist _).subset inBetween)
  · exact outer.subset (by simpa only [List.mem_cons] using inOuter)

theorem adoptTurn {tag : Tag} {element : Open} {inner below : List Open}
    {goOn : Builder → Builder} (again : ∀ {b b' : Builder}, R b b' → R (goOn b) (goOn b'))
    (entry : .element element.id tag ∈ b.formatting) (within : inner ⊆ b.stack)
    (outer : (element :: below).Sublist b.stack) :
    R (b.adoptTurn goOn tag element inner below)
      (b'.adoptTurn goOn tag (element.rename ρ) (inner.map (Open.rename ρ))
        (below.map (Open.rename ρ))) := by
  have closed : R ({ b with stack := below }.removeFormatting element.id)
      ({ b' with stack := below.map (Open.rename ρ) }.removeFormatting (ρ element.id)) :=
    S.removeFormatting (S.shrink h ((List.sublist_cons_self element below).trans outer)) _
  have between := takeWhile_name ρ (!·.isAnyOf Names.special) inner
  unfold Builder.adoptTurn
  dsimp only
  rw [between, List.length_map, ← List.map_drop]
  cases parted : inner.drop (inner.takeWhile (!·.name.isAnyOf Names.special)).length with
  | nil => exact closed
  | cons block above =>
    cases below with
    | nil => exact closed
    | cons ancestor below =>
      have adopted := S.adopt element block ancestor above.reverse _ below h entry
        (isOpen_of_turn within outer parted)
      rw [List.map_reverse, List.map_reverse] at adopted
      exact again adopted

theorem adoptAll (subject : String) (turns : Nat) :
    R (b.adoptAll subject turns) (b'.adoptAll subject turns) := by
  induction turns generalizing b b' with
  | zero => exact h
  | succ turns ih =>
    rw [Builder.adoptAll, Builder.adoptAll, S.recentFormatting h, find?_tagged]
    case tagged => exact fun _ _ _ => rfl
    cases found : b.recentFormatting.find? _ with
    | none => exact S.closeOrdinary h subject
    | some f =>
      cases f with
      | mark => exact S.closeOrdinary h subject
      | element n tag =>
        have apart : ∀ o : Open, decide ((o.rename ρ).id ≠ ρ n) = decide (o.id ≠ n) :=
          fun o => decide_eq_decide.mpr (not_congr S.injective.eq_iff)
        have outside := dropWhile_rename (q := fun o : Open => o.id ≠ ρ n) apart b.stack
        have inside := takeWhile_rename (q := fun o : Open => o.id ≠ ρ n) apart b.stack
        have inScope : finds stopsScope (·.id == ρ n) (b.stack.map (Open.rename ρ)) =
            finds stopsScope (·.id == n) b.stack :=
          finds_rename (fun o => beq_rename S.injective o.id n) b.stack
        have entry : .element n tag ∈ b.formatting :=
          (List.takeWhile_sublist _).subset (List.mem_of_find?_eq_some found)
        dsimp only [Option.map_some, Formatting.rename]
        rw [(S.alike h).stack, outside, inside, inScope, ← List.map_reverse]
        cases outward : b.stack.dropWhile fun o => o.id ≠ n with
        | nil => exact S.removeFormatting h n
        | cons element below =>
          obtain rfl : element.id = n := by
            have := List.head?_dropWhile_not (fun o : Open => o.id ≠ n) b.stack
            rw [outward] at this
            simpa using this
          rw [List.map_cons]
          dsimp only
          split
          · exact h
          · exact S.adoptTurn h ih entry
              (fun o member => (List.takeWhile_sublist _).subset (List.mem_reverse.mp member))
              (outward ▸ List.dropWhile_sublist _)

theorem closeFormatting (subject : String) :
    R (b.closeFormatting subject) (b'.closeFormatting subject) := by
  rw [Builder.closeFormatting, Builder.closeFormatting, (S.alike h).stack, (S.alike h).formatting]
  cases b.stack with
  | nil => exact S.adoptAll h subject 8
  | cons o outer =>
    simp only [List.map_cons, Open.rename_name, Open.rename_id,
      any_rename (isEntry_rename S.injective o.id)]
    split
    · exact S.pop h
    · exact S.adoptAll h subject 8

end Simulation

end Builder

end PageLint.Html
