import PageLint.Proofs.Html.Graft
import PageLint.Proofs.Html.Simulation.Reading

/-!
# Reading past a text

Once an element has been closed nothing more is put into it (`Sealed`). So builders whose nodes
differ in a text of that element only read the rest of a page alike: `graftedSimulation`.
-/

namespace PageLint.Html

namespace Dom

variable {r : NodeId} {dom dom' : Dom} {o : Open}

/-- Whether an element may be open while nothing more goes into `r`: it is another element, and `r`
is not what it holds if it is a template. -/
structure Apart (r : NodeId) (dom : Dom) (o : Open) : Prop where
  movable : o.id ≠ document
  other : o.id ≠ r
  inside : o.id < dom.nextId
  contents : o.name.isHtml "template" = true → r ∉ dom.children o.id

theorem Apart.keeps (apart : dom.Apart r o) (keeps : Keeps r dom dom') : dom'.Apart r o where
  movable := apart.movable
  other := apart.other
  inside := Nat.lt_of_lt_of_le apart.inside keeps.grows
  contents := fun template member => apart.contents template (keeps.place _ apart.inside member)

theorem children_nextId (dom : Dom) : dom.children dom.nextId = #[] := by
  have absent : dom.get? dom.nextId = none := Array.getElem?_eq_none (Nat.le_refl _)
  rw [children, absent]
  rfl

/-- A new element is apart. -/
theorem Apart.create (tidy : dom.Tidy r) (known : r < dom.nextId) (name : ElementName)
    (attributes : List Attribute) :
    (Builder.create dom name attributes).Apart r ⟨dom.nextId, name⟩ := by
  have added : (dom.add (.element name attributes)).Apart r ⟨dom.nextId, name⟩ := by
    refine ⟨?_, Nat.ne_of_gt known, ?_, ?_⟩
    · exact Nat.ne_of_gt (Nat.lt_of_le_of_lt (Nat.zero_le r) known)
    · rw [nextId_add]
      exact Nat.lt_succ_self _
    · intro _
      rw [children_add, children_nextId]
      exact Array.not_mem_empty r
  have grown := tidy.keeps_add (.element name attributes)
  rw [Builder.create]
  split
  · have contents := grown.tidy.keeps_add_put (Nat.lt_of_lt_of_le known grown.grows) .fragment
      (.lastIn dom.nextId) added.other
    rw [nextId_add] at contents
    exact added.keeps contents
  · exact added

end Dom

namespace Builder

variable {r k : NodeId} {b b' : Builder} {o : Open}

structure Sealed (r : NodeId) (b : Builder) : Prop where
  inner : Dom.document ≠ r
  known : r < b.dom.nextId
  tidy : b.dom.Tidy r
  opened : ∀ o ∈ b.stack, b.dom.Apart r o
  headed : ∀ n, b.head = some n → b.dom.Apart r ⟨n, ⟨.html, "head"⟩⟩
  tagged : ∀ n tag, .element n tag ∈ b.formatting → tag.name ∈ formattingNames

structure Grafted (r k : NodeId) (b b' : Builder) : Prop where
  alike : Alike (past k) b b'
  dom : b.dom.Grafted r k b'.dom
  isSealed : b.Sealed r

/-! ### Places -/

theorem container_ne (apart : b.dom.Apart r o) : b.container o ≠ r := by
  rw [Builder.container]
  split
  · rename_i template
    cases first : (b.dom.children o.id)[0]? with
    | none => exact apart.other
    | some n =>
      rintro rfl
      exact apart.contents template (Array.mem_of_getElem? first)
  · exact apart.other

theorem Sealed.outside_fosterPlace (inner : Dom.document ≠ r) {stack : List Open}
    (apart : ∀ o ∈ stack, b.dom.Apart r o) : Dom.Outside r (b.fosterPlace stack) := by
  induction stack with
  | nil => exact inner
  | cons o outer ih =>
    have first := container_ne (apart o List.mem_cons_self)
    cases outer with
    | nil => exact first
    | cons o' rest =>
      rw [fosterPlace]
      split
      · exact first
      · split
        · exact (apart o' (by simp)).other
        · exact ih fun o member => apart o (List.mem_cons_of_mem _ member)

theorem Sealed.outside_placeIn (s : b.Sealed r) (apart : b.dom.Apart r o) :
    Dom.Outside r (b.placeIn o) := by
  rw [placeIn]
  split
  · exact outside_fosterPlace s.inner s.opened
  · exact container_ne apart

theorem Sealed.outside_place (s : b.Sealed r) : Dom.Outside r b.place := by
  rw [place]
  split
  · exact s.inner
  · rename_i o outer found
    exact s.outside_placeIn (s.opened o (by rw [found]; exact List.mem_cons_self))

namespace Grafted

variable (g : Grafted r k b b')
include g

omit g in
theorem container (g : b.dom.Grafted r k b'.dom) (other : o.id ≠ r) :
    b'.container (o.rename (past k)) = past k (b.container o) := by
  rw [Builder.container, Builder.container, Open.rename_name, Open.rename_id,
    g.children_of_ne other, Array.getElem?_map]
  split
  · cases (b.dom.children o.id)[0]? <;> rfl
  · rfl

theorem past_document : past k Dom.document = Dom.document :=
  past_of_lt (Nat.lt_of_le_of_lt (Nat.zero_le r) g.dom.order)

theorem fosterPlace {stack : List Open} (other : ∀ o ∈ stack, o.id ≠ r) :
    b'.fosterPlace (stack.map (Open.rename (past k))) = (b.fosterPlace stack).graft k := by
  induction stack with
  | nil => exact congrArg Place.lastIn g.past_document.symm
  | cons o outer ih =>
    have first := container g.dom (other o List.mem_cons_self)
    cases outer with
    | nil => exact congrArg Place.lastIn first
    | cons o' rest =>
      have later := ih fun o member => other o (List.mem_cons_of_mem _ member)
      rw [List.map_cons] at later
      rw [List.map_cons, List.map_cons, Builder.fosterPlace, Builder.fosterPlace,
        Open.rename_name, first, later]
      split
      · rfl
      · split <;> rfl

theorem placeIn (other : o.id ≠ r) :
    b'.placeIn (o.rename (past k)) = (b.placeIn o).graft k := by
  rw [Builder.placeIn, Builder.placeIn, g.alike.settings.fostering, Open.rename_name,
    g.alike.stack, container g.dom other]
  split
  · exact g.fosterPlace fun o member => (g.isSealed.opened o member).other
  · rfl

theorem place : b'.place = b.place.graft k := by
  have stack := g.alike.stack
  have opened := g.isSealed.opened
  rw [Builder.place, Builder.place, stack]
  cases found : b.stack with
  | nil => exact congrArg Place.lastIn g.past_document.symm
  | cons o outer => exact g.placeIn (opened o (by rw [found]; exact List.mem_cons_self)).other

/-! ### Changes -/

omit g in
/-- Builders with the same settings have them with other nodes too. -/
theorem sameSettings (same : SameSettings b b') (dom dom' : Dom) (stack stack' : List Open)
    (formatting formatting' : List Formatting) (head head' form form' : Option NodeId) :
    SameSettings { b with dom, stack, formatting, head, form }
      { b' with
        dom := dom', stack := stack', formatting := formatting', head := head', form := form' } :=
  ⟨same.mode, same.resume, same.templates, same.framesAllowed, same.fostering, same.dropsNewline,
    same.lenient, same.tableText, same.content⟩

theorem withDom {dom dom' : Dom} (grafted : dom.Grafted r k dom') (keeps : b.dom.Keeps r dom) :
    Grafted r k { b with dom } { b' with dom := dom' } where
  alike := {
    g.alike with
    nextId := grafted.nextId_eq
    settings := sameSettings g.alike.settings .. }
  dom := grafted
  isSealed := {
    inner := g.isSealed.inner
    known := Nat.lt_of_lt_of_le g.isSealed.known keeps.grows
    tidy := keeps.tidy
    opened := fun o member => (g.isSealed.opened o member).keeps keeps
    headed := fun n head => (g.isSealed.headed n head).keeps keeps
    tagged := g.isSealed.tagged }

theorem withStack (stack : List Open) (apart : ∀ o ∈ stack, b.dom.Apart r o) :
    Grafted r k { b with stack } { b' with stack := stack.map (Open.rename (past k)) } where
  alike := { g.alike with stack := rfl, settings := sameSettings g.alike.settings .. }
  dom := g.dom
  isSealed := { g.isSealed with opened := apart }

theorem withFormatting (formatting : List Formatting)
    (tagged : ∀ n tag, .element n tag ∈ formatting → tag.name ∈ formattingNames) :
    Grafted r k { b with formatting }
      { b' with formatting := formatting.map (Formatting.rename (past k)) } where
  alike := { g.alike with formatting := rfl, settings := sameSettings g.alike.settings .. }
  dom := g.dom
  isSealed := { g.isSealed with tagged }

theorem settings {c c' : Builder} (nodes : SameNodes b c) (nodes' : SameNodes b' c')
    (settings : SameSettings c c') : Grafted r k c c' where
  alike := {
    stack := by rw [nodes'.stack, nodes.stack, g.alike.stack]
    formatting := by rw [nodes'.formatting, nodes.formatting, g.alike.formatting]
    head := by rw [nodes'.head, nodes.head, g.alike.head]
    form := by rw [nodes'.form, nodes.form, g.alike.form]
    nextId := by rw [nodes'.dom, nodes.dom, g.alike.nextId]
    settings }
  dom := by
    rw [nodes'.dom, nodes.dom]
    exact g.dom
  isSealed := by
    obtain ⟨inner, known, tidy, opened, headed, tagged⟩ := g.isSealed
    refine ⟨inner, ?_, ?_, ?_, ?_, ?_⟩
    · rw [nodes.dom]
      exact known
    · rw [nodes.dom]
      exact tidy
    · rw [nodes.dom, nodes.stack]
      exact opened
    · rw [nodes.dom, nodes.head]
      exact headed
    · rw [nodes.formatting]
      exact tagged

theorem insert (space : Space) (tag : Tag) :
    Grafted r k (b.insert space tag) (b'.insert space tag) := by
  have created := g.isSealed.tidy.keeps_create g.isSealed.known ⟨space, tag.name⟩ tag.attributes
  have new := Dom.Apart.create g.isSealed.tidy g.isSealed.known ⟨space, tag.name⟩ tag.attributes
  have placed := created.tidy.keeps_put new.movable new.other new.inside g.isSealed.outside_place
  have inserted := g.withDom ((g.dom.create ⟨space, tag.name⟩ tag.attributes).put b.dom.nextId
    b.place) (created.trans placed)
  have opened := inserted.withStack _ (List.forall_mem_cons.mpr
    ⟨new.keeps placed, inserted.isSealed.opened⟩)
  rw [List.map_cons, Open.rename, ← g.alike.nextId, ← g.place, ← g.alike.stack] at opened
  exact opened

/-! ### Overlapping formatting -/

theorem withoutFormatting (n : NodeId) :
    Grafted r k (b.removeFormatting n) (b'.removeFormatting (past k n)) := by
  have same : ∀ f, (!isEntry (past k n) (f.rename (past k))) = !isEntry n f :=
    fun f => congrArg (!·) (isEntry_rename (past_injective k) n f)
  have fewer := g.withFormatting (b.formatting.filter (!isEntry n ·))
    fun m tag member => g.isSealed.tagged m tag (List.mem_filter.mp member).1
  rw [← filter_rename (q := (!isEntry (past k n) ·)) same, ← g.alike.formatting] at fewer
  exact fewer

/-- A copy of a formatting element that is put around a node and takes the place of another element
in formatting. -/
theorem copyAround {tag : Tag} (listed : tag.name ∈ formattingNames) {last : NodeId}
    {name : ElementName} (lastApart : b.dom.Apart r ⟨last, name⟩) (n : NodeId) :
    let dom := ((create b.dom ⟨.html, tag.name⟩ tag.attributes).detach last).append b.dom.nextId
      last
    let dom' := ((create b'.dom ⟨.html, tag.name⟩ tag.attributes).detach (past k last)).append
      b'.dom.nextId (past k last)
    Grafted r k
        { b with
          dom
          formatting := b.formatting.map fun f =>
            if isEntry n f then .element b.dom.nextId tag else f }
        { b' with
          dom := dom'
          formatting := b'.formatting.map fun f =>
            if isEntry (past k n) f then .element b'.dom.nextId tag else f } ∧
      b.dom.Keeps r dom ∧ dom.Apart r ⟨b.dom.nextId, ⟨.html, tag.name⟩⟩ := by
  intro dom dom'
  have created := g.isSealed.tidy.keeps_create g.isSealed.known ⟨.html, tag.name⟩ tag.attributes
  have new := Dom.Apart.create g.isSealed.tidy g.isSealed.known ⟨.html, tag.name⟩ tag.attributes
  have away := created.tidy.keeps_detach lastApart.movable lastApart.other
  have inside := ((lastApart.keeps created).keeps away).inside
  have within := away.tidy.keeps_append lastApart.movable lastApart.other inside new.other
  have moves := away.trans within
  refine ⟨?_, created.trans moves, new.keeps moves⟩
  have moved := ((g.dom.create ⟨.html, tag.name⟩ tag.attributes).detach last).append
    b.dom.nextId last
  have renamed : (b.formatting.map fun f =>
        if isEntry n f then .element b.dom.nextId tag else f).map (Formatting.rename (past k)) =
      (b.formatting.map (Formatting.rename (past k))).map fun f =>
        if isEntry (past k n) f then .element b'.dom.nextId tag else f := by
    rw [List.map_map, List.map_map]
    refine List.map_congr_left fun f _ => ?_
    rw [Function.comp_apply, Function.comp_apply, isEntry_rename (past_injective k),
      g.alike.nextId]
    split <;> rfl
  have replaced := (g.withDom moved (created.trans moves)).withFormatting
    (b.formatting.map fun f => if isEntry n f then .element b.dom.nextId tag else f) (by
    intro m old member
    obtain ⟨f, present, same⟩ := List.mem_map.mp member
    split at same
    · cases same
      exact listed
    · exact g.isSealed.tagged m old (same ▸ present))
  rw [renamed, ← g.alike.formatting, ← g.alike.nextId] at replaced
  exact replaced

end Grafted

theorem not_template_of_formatting {name : String} (listed : name ∈ formattingNames) :
    ElementName.isHtml ⟨.html, name⟩ "template" = false := by
  have table : ∀ name ∈ formattingNames, ElementName.isHtml ⟨.html, name⟩ "template" = false := by
    decide +kernel
  exact table name listed

/-- Whether copying has come as far in two builders that differ in a text only, where the open
elements are those of `b`. -/
structure GraftedCopies (r k : NodeId) (b : Builder) (s s' : Copying) : Prop where
  builder : Grafted r k s.builder s'.builder
  keeps : b.dom.Keeps r s.builder.dom
  kept : s'.kept = s.kept.map (Open.rename (past k))
  last : s'.last = past k s.last
  innermost : s'.innermost = s.innermost.map (past k)
  keptApart : ∀ o ∈ s.kept, s.builder.dom.Apart r o
  lastApart : ∃ name, s.builder.dom.Apart r ⟨s.last, name⟩

namespace GraftedCopies

variable {s s' : Copying}

theorem copyBetween (c : GraftedCopies r k b s s') (count : Nat) (o : Open) :
    GraftedCopies r k b (copyBetween s count o) (copyBetween s' count (o.rename (past k))) := by
  have g := c.builder
  have isEntry_past := isEntry_rename (past_injective k) o.id
  rw [Builder.copyBetween, Builder.copyBetween, Open.rename_id, g.alike.formatting,
    find?_rename isEntry_past]
  cases found : s.builder.formatting.find? (isEntry o.id) with
  | none => exact c
  | some f =>
    cases f with
    | mark => exact c
    | element m tag =>
      dsimp only [Option.map_some, Formatting.rename]
      split
      · exact ⟨g.withoutFormatting o.id, c.keeps, c.kept, c.last, c.innermost, c.keptApart,
          c.lastApart⟩
      · have listed := g.isSealed.tagged m tag (List.mem_of_find?_eq_some found)
        obtain ⟨name, lastApart⟩ := c.lastApart
        obtain ⟨copied, keeps, new⟩ := g.copyAround listed lastApart o.id
        rw [← c.last, g.alike.formatting] at copied
        refine ⟨copied, c.keeps.trans keeps, ?_, g.alike.nextId, ?_, ?_, _, new⟩
        · rw [c.kept, g.alike.nextId]
          rfl
        · rw [c.innermost, g.alike.nextId]
          cases s.innermost <;> rfl
        · exact List.forall_mem_cons.mpr ⟨new, fun o member => (c.keptApart o member).keeps keeps⟩

theorem copyAllBetween (c : GraftedCopies r k b s s') (count : Nat) (between : List Open) :
    GraftedCopies r k b (copyAllBetween s count between)
      (copyAllBetween s' count (between.map (Open.rename (past k)))) := by
  induction between generalizing s s' count with
  | nil => exact c
  | cons o outer ih => exact ih (c.copyBetween count o) (count + 1)

/-- The elements that are open after copying: some that were, and the copies. -/
theorem opened (c : GraftedCopies r k b s s') {element block ancestor : Open}
    {above between below : List Open}
    (apart : ∀ o ∈ above ++ block :: (between ++ element :: ancestor :: below),
      b.dom.Apart r o) :
    ∀ o ∈ above ++ block :: s.kept.reverse ++ element :: ancestor :: below,
      s.builder.dom.Apart r o := by
  intro o member
  simp only [List.mem_append, List.mem_cons, List.mem_reverse] at member
  have old := fun present => (apart o present).keeps c.keeps
  rcases member with (inAbove | rfl | copied) | rfl | rfl | inBelow
  · exact old (by simp [inAbove])
  · exact old (by simp)
  · exact c.keptApart o copied
  · exact old (by simp)
  · exact old (by simp)
  · exact old (by simp [inBelow])

end GraftedCopies

theorem replaceFormatting_rename (f : Formatting) (n : NodeId) (innermost : Option NodeId)
    (formatting : List Formatting) :
    replaceFormatting (f.rename (past k)) (past k n) (innermost.map (past k))
        (formatting.map (Formatting.rename (past k))) =
      (replaceFormatting f n innermost formatting).map (Formatting.rename (past k)) := by
  induction formatting with
  | nil => rfl
  | cons g rest ih =>
    have marks : (innermost.map (past k)).any (isEntry · (g.rename (past k))) =
        innermost.any (isEntry · g) := by
      cases innermost with
      | none => rfl
      | some m => exact isEntry_rename (past_injective k) m g
    rw [List.map_cons, replaceFormatting, replaceFormatting, isEntry_rename (past_injective k),
      Option.isNone_map, marks, ih]
    split
    · split <;> rfl
    · split <;> rfl

namespace Grafted

variable (g : Grafted r k b b')
include g

/-- A node that is moved to where an open element would take it. -/
theorem moveOut {n : NodeId} {name : ElementName} (moved : b.dom.Apart r ⟨n, name⟩)
    (target : b.dom.Apart r o) :
    (put (b.dom.detach n) n (b.placeIn o)).Grafted r k
        (put (b'.dom.detach (past k n)) (past k n) (b'.placeIn (o.rename (past k)))) ∧
      b.dom.Keeps r (put (b.dom.detach n) n (b.placeIn o)) := by
  have away := g.isSealed.tidy.keeps_detach moved.movable moved.other
  have placed := away.tidy.keeps_put moved.movable moved.other (moved.keeps away).inside
    (g.isSealed.outside_placeIn target)
  rw [g.placeIn target.other]
  exact ⟨(g.dom.detach n).put n (b.placeIn o), away.trans placed⟩

omit g in
/-- A new element that takes all children of another and becomes its child. -/
theorem takeIn {dom dom' : Dom} (g : dom.Grafted r k dom') (tidy : dom.Tidy r)
    (block : dom.Apart r o) {name : String} (listed : name ∈ formattingNames)
    (attributes : List Attribute) :
    (((create dom ⟨.html, name⟩ attributes).moveChildren o.id dom.nextId).append o.id
          dom.nextId).Grafted r k
        (((create dom' ⟨.html, name⟩ attributes).moveChildren (past k o.id) dom'.nextId).append
          (past k o.id) dom'.nextId) ∧
      dom.Keeps r (((create dom ⟨.html, name⟩ attributes).moveChildren o.id dom.nextId).append o.id
        dom.nextId) ∧
      (((create dom ⟨.html, name⟩ attributes).moveChildren o.id dom.nextId).append o.id
        dom.nextId).Apart r ⟨dom.nextId, ⟨.html, name⟩⟩ := by
  have new := Dom.Apart.create tidy g.known ⟨.html, name⟩ attributes
  have taken := (tidy.keeps_create g.known ⟨.html, name⟩ attributes).moveChildren o.id
    (Nat.le_refl _) new.other
  have inside : dom.nextId <
      ((create dom ⟨.html, name⟩ attributes).moveChildren o.id dom.nextId).nextId := by
    rw [Dom.nextId_moveChildren]
    exact new.inside
  have appended := taken.tidy.keeps_append new.movable new.other inside block.other
  have keeps := taken.trans appended
  refine ⟨?_, keeps, new.movable, new.other, Nat.lt_of_lt_of_le inside appended.grows, ?_⟩
  · rw [g.nextId_eq]
    exact ((g.create ⟨.html, name⟩ attributes).moveChildren o.id dom.nextId block.other).append
      o.id dom.nextId
  · intro template
    rw [not_template_of_formatting listed] at template
    cases template

theorem adopt {tag : Tag} (element block ancestor : Open) (above between below : List Open)
    (entry : .element element.id tag ∈ b.formatting)
    (isOpen : ∀ o ∈ above ++ block :: (between ++ element :: ancestor :: below), o ∈ b.stack) :
    Grafted r k (b.adopt element tag above block between ancestor below)
      (b'.adopt (element.rename (past k)) tag (above.map (Open.rename (past k)))
        (block.rename (past k)) (between.map (Open.rename (past k))) (ancestor.rename (past k))
        (below.map (Open.rename (past k)))) := by
  have apart := fun o member => g.isSealed.opened o (isOpen o member)
  have start : GraftedCopies r k b { builder := b, last := block.id }
      { builder := b', last := past k block.id } :=
    ⟨g, g.isSealed.tidy.keeps_self, rfl, rfl, rfl, fun _ member => (by cases member), block.name,
      apart block (by simp)⟩
  have listed := g.isSealed.tagged _ _ entry
  have c := start.copyAllBetween 1 between
  unfold Builder.adopt
  rw [Open.rename_id]
  generalize Builder.copyAllBetween { builder := b, last := block.id } 1 between = s at c ⊢
  generalize Builder.copyAllBetween { builder := b', last := past k block.id } 1
    (between.map (Open.rename (past k))) = s' at c ⊢
  have opened := c.opened apart
  have reached := c.builder.withStack _ opened
  obtain ⟨name, lastApart⟩ := c.lastApart
  -- The block is moved out to where the ancestor takes it.
  obtain ⟨out, outKeeps⟩ := reached.moveOut lastApart (opened ancestor (by simp))
  have stack' : above.map (Open.rename (past k)) ++
      block.rename (past k) :: s'.kept.reverse ++ element.rename (past k) ::
        ancestor.rename (past k) :: below.map (Open.rename (past k)) =
      (above ++ block :: s.kept.reverse ++ element :: ancestor :: below).map
        (Open.rename (past k)) := by
    rw [c.kept]
    simp only [List.map_append, List.map_cons, List.map_reverse]
  dsimp only
  rw [stack', c.last]
  generalize put (Dom.detach _ s.last) s.last _ = dom at out outKeeps ⊢
  generalize put (Dom.detach _ (past k s.last)) (past k s.last) _ = dom' at out ⊢
  -- A new element takes its children in.
  obtain ⟨in_, inKeeps, new⟩ := takeIn out outKeeps.tidy ((opened block (by simp)).keeps outKeeps)
    listed tag.attributes
  have moved := reached.withDom in_ (outKeeps.trans inKeeps)
  have formatted := moved.withFormatting (replaceFormatting (.element dom.nextId tag)
      element.id s.innermost s.builder.formatting) (by
    intro n old member
    rcases mem_replaceFormatting member with same | present
    · cases same
      exact listed
    · exact c.builder.isSealed.tagged n old present)
  have adopted := formatted.withStack
    (above ++ ⟨_, ⟨.html, tag.name⟩⟩ :: block :: s.kept.reverse ++ ancestor :: below) (by
    intro o member
    have old := fun present => ((opened o present).keeps outKeeps).keeps inKeeps
    simp only [List.mem_append, List.mem_cons] at member old
    rcases member with (inAbove | rfl | inKept) | inOuter
    · exact old (.inl (.inl inAbove))
    · exact new
    · exact old (.inl (.inr inKept))
    · exact old (.inr (.inr inOuter)))
  rw [← replaceFormatting_rename] at adopted
  simp only [List.map_append, List.map_cons, List.map_reverse, ← c.kept, ← c.innermost,
    ← c.builder.alike.formatting, Formatting.rename, Open.rename, ← out.nextId_eq] at adopted ⊢
  exact adopted

theorem createRoot (attributes : List Attribute) :
    Grafted r k (b.createRoot attributes) (b'.createRoot attributes) := by
  have created := g.isSealed.tidy.keeps_create g.isSealed.known ⟨.html, "html"⟩ attributes
  have new := Dom.Apart.create g.isSealed.tidy g.isSealed.known ⟨.html, "html"⟩ attributes
  have placed := created.tidy.keeps_append new.movable new.other new.inside g.isSealed.inner
  have inserted := g.withDom ((g.dom.create ⟨.html, "html"⟩ attributes).append Dom.document
    b.dom.nextId) (created.trans placed)
  have opened := inserted.withStack _ (List.forall_mem_singleton.mpr (new.keeps placed))
  rw [List.map_cons, Open.rename, ← g.alike.nextId, g.past_document] at opened
  exact opened

/-- A new node that is put last into another. -/
theorem added (data : NodeData) {n : NodeId} (other : n ≠ r) :
    Grafted r k { b with dom := (b.dom.add data).append n b.dom.nextId }
      { b' with dom := (b'.dom.add data).append (past k n) b'.dom.nextId } := by
  have appended := (g.dom.add data).append n b.dom.nextId
  rw [← g.alike.nextId] at appended
  exact g.withDom appended
    (g.isSealed.tidy.keeps_add_put g.isSealed.known data (.lastIn n) other)

theorem withHead {n : NodeId} (apart : b.dom.Apart r ⟨n, ⟨.html, "head"⟩⟩) :
    Grafted r k { b with head := some n } { b' with head := some (past k n) } where
  alike := { g.alike with head := rfl, settings := sameSettings g.alike.settings .. }
  dom := g.dom
  isSealed := {
    g.isSealed with
    headed := fun _ same => Option.some.inj same ▸ apart }

end Grafted

/-- Reading keeps a difference in a text of an element into which nothing more goes. -/
theorem graftedSimulation (r k : NodeId) (inner : 0 < k) :
    Simulation (past k) (fun _ _ => True) (Grafted r k) where
  admits := ⟨fun _ _ => trivial, fun _ _ => trivial, fun _ _ _ _ _ => trivial,
    fun _ _ _ _ => trivial⟩
  injective := past_injective k
  document := past_of_lt inner
  alike := (·.alike)
  tagged := fun g member => ⟨trivial, g.isSealed.tagged _ _ member⟩
  settings := fun g => g.settings
  shrink := fun g fewer => g.withStack _ fun o member => g.isSealed.opened o (fewer.subset member)
  format := by
    intro b b' formatting g known
    refine g.withFormatting _ fun n tag member => ?_
    rcases known _ member with present | ⟨_, listed, _⟩
    · exact g.isSealed.tagged n tag present
    · exact listed
  form := fun form g => ⟨{ g.alike with
    form := rfl, settings := Grafted.sameSettings g.alike.settings .. }, g.dom, { g.isSealed with }⟩
  head := by
    intro b b' o g member
    have apart := g.isSealed.opened o member
    exact g.withHead ⟨apart.movable, apart.other, apart.inside, fun template => by cases template⟩
  headAgain := by
    intro b b' n g head
    have opened := g.withStack _ (List.forall_mem_cons.mpr
      ⟨g.isSealed.headed n head, g.isSealed.opened⟩)
    rw [List.map_cons, Open.rename, ← g.alike.stack] at opened
    exact opened
  insert := fun space tag g _ => g.insert space tag
  createRoot := fun g _ => g.createRoot _
  insertChar := by
    intro b b' c g
    have placed := g.dom.putChar c g.isSealed.tidy g.isSealed.outside_place
    rw [← g.place] at placed
    exact g.withDom placed
      (g.isSealed.tidy.keeps_putChar g.isSealed.known c g.isSealed.outside_place)
  insertComment := by
    intro b b' text g
    have placed := (g.dom.add (.comment text)).put b.dom.nextId b.place
    rw [← g.place, ← g.alike.nextId] at placed
    exact g.withDom placed
      (g.isSealed.tidy.keeps_add_put g.isSealed.known _ _ g.isSealed.outside_place)
  commentIn := by
    intro b b' n text g place
    refine g.added (.comment text) ?_
    rcases place with rfl | ⟨o, member, rfl⟩
    · exact g.isSealed.inner
    · exact (g.isSealed.opened o member).other
  doctype := by
    intro b b' name g
    have added := g.added (.doctype name) g.isSealed.inner
    rw [g.past_document] at added
    exact added
  merge := fun g _ _ _ => g.withDom (g.dom.addAttributes _ _)
    (g.isSealed.tidy.keeps_addAttributes _)
  detach := by
    intro b b' o g member
    have apart := g.isSealed.opened o member
    exact g.withDom (g.dom.detach o.id)
      (g.isSealed.tidy.keeps_detach apart.movable apart.other)
  adopt := fun element block ancestor above between below g entry isOpen =>
    g.adopt element block ancestor above between below entry isOpen

end Builder

end PageLint.Html
