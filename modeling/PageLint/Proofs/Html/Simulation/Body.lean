import PageLint.Proofs.Html.Simulation

/-!
# Relations that the head and the body of a page keep

The reading of a token up to the end of the body keeps every simulation: for each rule, the two
builders take the same branch, since they are alike, and the branch is made of changes that keep it.
-/

namespace PageLint.Html.Builder

/-- Two choices with one condition are related if their branches are. -/
theorem rel_ite {α : Type} {R : α → α → Prop} {c : Prop} [Decidable c] {x y x' y' : α}
    (pos : c → R x x') (neg : ¬ c → R y y') :
    R (if c then x else y) (if c then x' else y') := by
  split
  · exact pos ‹_›
  · exact neg ‹_›

theorem rel_ite_iff {α : Type} {R : α → α → Prop} {c c' : Prop} [Decidable c] [Decidable c']
    {x y x' y' : α} (same : c' ↔ c) (pos : R x x') (neg : R y y') :
    R (if c then x else y) (if c' then x' else y') := by
  by_cases holds : c
  · rw [if_pos holds, if_pos (same.mpr holds)]
    exact pos
  · rw [if_neg holds, if_neg fun holds' => holds (same.mp holds')]
    exact neg

theorem insertIntoHead_of_none {b : Builder} {tag : Tag} (head : b.head = none) :
    b.insertIntoHead tag = b := by
  rw [insertIntoHead, head]

theorem insertIntoHead_of_some {b : Builder} {tag : Tag} {n : NodeId} (head : b.head = some n) :
    b.insertIntoHead tag = (insertMetadata { b with stack := ⟨n, ⟨.html, "head"⟩⟩ :: b.stack }
      tag).removeOpen n := by
  rw [insertIntoHead, head]

namespace Simulation

variable {ρ : NodeId → NodeId} {ok : String → List Attribute → Prop} {R : Builder → Builder → Prop}
  (S : Simulation ρ ok R) {b b' : Builder} (h : R b b')
include S h

/-! ### Elements of the head -/

theorem insertTextElement {tag : Tag} (good : ok tag.name tag.attributes) :
    R (b.insertTextElement tag) (b'.insertTextElement tag) := by
  unfold Builder.insertTextElement
  cases textContent? tag.name with
  | some content => exact S.insertText h content good
  | none => exact S.insertHtml h good

theorem mergeRoot {tag : Tag} (good : ok tag.name tag.attributes) (root : tag.name = "html") :
    R (b.mergeRoot tag) (b'.mergeRoot tag) := by
  unfold Builder.mergeRoot
  rw [(S.alike h).getLast?_stack, (S.alike h).hasOpen]
  cases last : b.stack.getLast? with
  | none => exact h
  | some o =>
    exact rel_ite (fun _ => h) fun _ =>
      S.merge h (List.mem_of_getLast? last) good (.inl root)

theorem openTemplate {tag : Tag} (good : ok tag.name tag.attributes) :
    R (b.openTemplate tag) (b'.openTemplate tag) :=
  S.enter (S.changeTemplates (S.noFrames (S.markFormatting (S.insertHtml h good)))
    (.inTemplate :: ·)) .inTemplate

theorem leaveTemplate : R b.leaveTemplate b'.leaveTemplate := by
  have left := S.changeTemplates (S.endFormatting h) (·.drop 1)
  unfold Builder.leaveTemplate
  dsimp only
  rw [(S.alike left).properMode]
  exact S.enter left _

theorem closeTemplate : R b.closeTemplate b'.closeTemplate := by
  unfold Builder.closeTemplate
  rw [(S.alike h).hasOpen]
  exact rel_ite (fun _ => S.leaveTemplate
    (S.popThroughHtml (S.dropOpen h (·.isAnyOf Names.impliedInTemplate)) "template")) fun _ => h

theorem insertMetadata {tag : Tag} (good : ok tag.name tag.attributes) :
    R (b.insertMetadata tag) (b'.insertMetadata tag) :=
  rel_ite (fun _ => S.insertEmpty h good) fun _ =>
    rel_ite (fun _ => S.openTemplate h good) fun _ => S.insertTextElement h good

theorem readDoctype (d : Doctype) : R (b.readDoctype d) (b'.readDoctype d) := by
  unfold Builder.readDoctype
  rw [(S.alike h).settings.mode]
  exact rel_ite (fun _ => S.enter (S.withLenient (S.doctype (d.name.getD "") h) (isLenient d))
    .beforeHtml) fun _ => h

theorem commentOutside (text : String) :
    R (b.commentIn Dom.document text) (b'.commentIn Dom.document text) := by
  have added := S.commentIn text h (.inl rfl)
  rw [S.document] at added
  exact added

theorem openHead {tag : Tag} (good : ok tag.name tag.attributes) :
    R (b.openHead tag) (b'.openHead tag) := by
  have opened := S.enter (S.head (S.insertHtml h good) List.mem_cons_self) .inHead
  unfold Builder.openHead
  rw [(S.alike h).nextId]
  exact opened

theorem insertIntoHead {tag : Tag} (good : ok tag.name tag.attributes) :
    R (b.insertIntoHead tag) (b'.insertIntoHead tag) := by
  have heads := (S.alike h).head
  cases head : b.head with
  | none =>
    rw [head] at heads
    rw [insertIntoHead_of_none head, insertIntoHead_of_none heads]
    exact h
  | some n =>
    rw [head] at heads
    rw [insertIntoHead_of_some head, insertIntoHead_of_some heads]
    exact S.removeOpen (S.insertMetadata (S.headAgain h head) good) n

/-! ### Elements of the body -/

theorem mergeBody {tag : Tag} (good : ok tag.name tag.attributes) (body : tag.name = "body") :
    R (b.mergeBody tag) (b'.mergeBody tag) := by
  unfold Builder.mergeBody
  rw [(S.alike h).hasOpen, (S.alike h).stack, ← List.map_reverse]
  rcases outermost : b.stack.reverse with _ | ⟨root, _ | ⟨o, inner⟩⟩
  · exact h
  · exact h
  · have isOpen : o ∈ b.stack := List.mem_reverse.mp (by rw [outermost]; simp)
    exact rel_ite (fun _ => S.merge (S.noFrames h) isOpen good (.inr body)) fun _ => h

theorem replaceBody {tag : Tag} (good : ok tag.name tag.attributes) :
    R (b.replaceBody tag) (b'.replaceBody tag) := by
  unfold Builder.replaceBody
  rw [(S.alike h).stack, ← List.map_reverse]
  rcases outermost : b.stack.reverse with _ | ⟨root, _ | ⟨o, inner⟩⟩
  · exact h
  · exact h
  · have isOpen : o ∈ b.stack := List.mem_reverse.mp (by rw [outermost]; simp)
    have alone : [root].Sublist b.stack :=
      List.singleton_sublist.mpr (List.mem_reverse.mp (by rw [outermost]; simp))
    refine rel_ite_iff ?_ (S.enter (S.insertHtml (S.shrink (S.detach h isOpen) alone) good)
      .inFrameset) h
    rw [(S.alike h).settings.framesAllowed]
    rfl

theorem closeItem (names : List String) : R (b.closeItem names) (b'.closeItem names) := by
  have found := dropWhile_name ρ (fun n => !(n.isAnyOf names ||
    (n.isAnyOf Names.special && n.name ∉ ["address", "div", "p"]))) b.stack
  unfold Builder.closeItem
  rw [(S.alike h).stack]
  dsimp only
  rw [found]
  rcases b.stack.dropWhile _ with _ | ⟨o, outer⟩
  · exact h
  · exact rel_ite (fun _ => S.close h o.name.name) fun _ => h

theorem openForm {tag : Tag} (good : ok tag.name tag.attributes) :
    R (b.openForm tag) (b'.openForm tag) := by
  have closed := S.closeParagraph h
  have inserted := S.insertHtml closed good
  have forms : b'.form.isSome = b.form.isSome := by rw [(S.alike h).form, Option.isSome_map]
  have opened := S.form (some b.closeParagraph.dom.nextId) inserted
  rw [Option.map_some, ← (S.alike closed).nextId] at opened
  unfold Builder.openForm
  rw [(S.alike h).hasOpen, forms]
  exact rel_ite (fun _ => h) fun _ => rel_ite (fun _ => inserted) fun _ => opened

theorem closeForm : R b.closeForm b'.closeForm := by
  unfold Builder.closeForm
  rw [(S.alike h).hasOpen, (S.alike h).inScope, (S.alike h).form]
  refine rel_ite (fun _ => rel_ite (fun _ => ?_) fun _ => h) fun _ => ?_
  · exact S.popThroughHtml (S.popImplied h []) "form"
  · cases b.form with
    | none => exact h
    | some n =>
      have ended := S.form none h
      refine rel_ite_iff ?_ (S.removeOpen (S.popImplied ended []) n) ended
      dsimp only
      rw [(S.alike h).stack, finds_rename fun o => beq_rename S.injective o.id n]

theorem openLink {tag : Tag} (good : ok tag.name tag.attributes) (link : tag.name = "a") :
    R (b.openLink tag) (b'.openLink tag) := by
  have listed : tag.name ∈ formattingNames := by
    rw [link]
    exact List.mem_cons_self
  unfold Builder.openLink
  dsimp only
  rw [S.recentFormatting h, find?_tagged]
  case tagged => exact fun _ _ _ => rfl
  cases b.recentFormatting.find? _ with
  | none => exact S.insertFormatting (S.reopenFormatting h) good listed
  | some f =>
    cases f with
    | mark => exact S.insertFormatting (S.reopenFormatting h) good listed
    | element n old =>
      have closed := S.removeOpen (S.removeFormatting (S.closeFormatting h "a") n) n
      exact S.insertFormatting (S.reopenFormatting closed) good listed

theorem insertEmptyInline {tag : Tag} (good : ok tag.name tag.attributes) :
    R (b.insertEmptyInline tag) (b'.insertEmptyInline tag) :=
  S.noFrames (S.insertEmpty (S.reopenFormatting h) good)

theorem openTable {tag : Tag} (good : ok tag.name tag.attributes) :
    R (b.openTable tag) (b'.openTable tag) := by
  have closed : R (if b.lenient then b else b.closeParagraph)
      (if b'.lenient then b' else b'.closeParagraph) := by
    rw [(S.alike h).settings.lenient]
    exact rel_ite (fun _ => h) fun _ => S.closeParagraph h
  exact S.enter (S.noFrames (S.insertHtml closed good)) .inTable

theorem openSelect {tag : Tag} (good : ok tag.name tag.attributes) :
    R (b.openSelect tag) (b'.openSelect tag) := by
  unfold Builder.openSelect
  rw [(S.alike h).settings.mode]
  exact S.enter (S.noFrames (S.insertHtml (S.reopenFormatting h) good)) _

theorem insertForeign {space : Space} {tag : Tag} (good : ok tag.name tag.attributes) :
    R (b.insertForeign space tag) (b'.insertForeign space tag) := by
  have inserted := S.insert space
    { tag with attributes := tag.attributes.map (foreignAttribute space) } h
    (S.admits.foreign _ _ space good)
  exact rel_ite (fun _ => S.pop inserted) fun _ => inserted

theorem bodyStart {tag : Tag} (good : ok tag.name tag.attributes) :
    R (b.bodyStart tag) (b'.bodyStart tag) := by
  have closed := S.closeParagraph h
  have reopened := S.reopenFormatting h
  unfold Builder.bodyStart
  dsimp only
  refine rel_ite (fun root => S.mergeRoot h good (eq_of_beq root)) fun _ => ?_
  refine rel_ite (fun _ => S.insertMetadata h good) fun _ => ?_
  refine rel_ite (fun body => S.mergeBody h good (eq_of_beq body)) fun _ => ?_
  refine rel_ite (fun _ => S.replaceBody h good) fun _ => ?_
  refine rel_ite (fun _ => S.insertHtml closed good) fun _ => ?_
  refine rel_ite (fun _ => S.insertHtml ?heading good) fun _ => ?_
  case heading =>
    exact rel_ite_iff (by rw [(S.alike closed).head?_name (·.isAnyOf Names.headings)])
      (S.pop closed) closed
  refine rel_ite (fun _ => S.withDropsNewline (S.noFrames (S.insertHtml closed good)) true)
    fun _ => ?_
  refine rel_ite (fun _ => S.openForm h good) fun _ => ?_
  refine rel_ite (fun _ => S.insertHtml (S.closeParagraph (S.closeItem (S.noFrames h) _)) good)
    fun _ => ?_
  refine rel_ite (fun _ => S.insertHtml (S.closeParagraph (S.closeItem (S.noFrames h) _)) good)
    fun _ => ?_
  refine rel_ite (fun _ => S.withContent (S.insertHtml closed good) .plain) fun _ => ?_
  refine rel_ite (fun _ => S.noFrames (S.insertHtml (S.reopenFormatting ?button) good)) fun _ => ?_
  case button =>
    exact rel_ite_iff (by rw [(S.alike h).inScope])
      (S.popThroughHtml (S.popImplied h []) "button") h
  refine rel_ite (fun link => S.openLink h good (eq_of_beq link)) fun _ => ?_
  refine rel_ite (fun listed => S.insertFormatting reopened good ?formatting) fun _ => ?_
  case formatting =>
    exact List.mem_cons_of_mem _ (List.mem_cons_of_mem _ (List.contains_iff_mem.mp listed))
  refine rel_ite (fun unbroken => S.insertFormatting ?nobr good ?listed) fun _ => ?_
  case nobr =>
    exact rel_ite_iff (by rw [(S.alike reopened).inScope])
      (S.reopenFormatting (S.closeFormatting reopened "nobr")) reopened
  case listed =>
    rw [eq_of_beq unbroken]
    decide
  refine rel_ite (fun _ => S.noFrames (S.markFormatting (S.insertHtml reopened good))) fun _ => ?_
  refine rel_ite (fun _ => S.openTable h good) fun _ => ?_
  refine rel_ite (fun _ => S.insertEmptyInline h good) fun _ => ?_
  refine rel_ite (fun _ => ?input) fun _ => ?_
  case input =>
    have inserted := S.insertEmpty reopened good
    exact rel_ite (fun _ => inserted) fun _ => S.noFrames inserted
  refine rel_ite (fun _ => S.insertEmpty h good) fun _ => ?_
  refine rel_ite (fun _ => S.noFrames (S.insertEmpty closed good)) fun _ => ?_
  refine rel_ite (fun image => S.insertEmptyInline h (S.admits.image _ (eq_of_beq image ▸ good)))
    fun _ => ?_
  refine rel_ite (fun _ => S.withDropsNewline (S.insertTextElement (S.noFrames h) good) true)
    fun _ => ?_
  refine rel_ite (fun _ => S.insertTextElement (S.noFrames (S.reopenFormatting closed)) good)
    fun _ => ?_
  refine rel_ite (fun _ => S.insertTextElement (S.noFrames h) good) fun _ => ?_
  refine rel_ite (fun _ => S.insertTextElement h good) fun _ => ?_
  refine rel_ite (fun _ => S.openSelect h good) fun _ => ?_
  refine rel_ite (fun _ => S.insertHtml (S.reopenFormatting (S.popIf h "option")) good) fun _ => ?_
  refine rel_ite (fun _ => S.insertHtml ?ruby good) fun _ => ?_
  case ruby => exact rel_ite_iff (by rw [(S.alike h).inScope]) (S.popImplied h []) h
  refine rel_ite (fun _ => S.insertHtml ?rubyText good) fun _ => ?_
  case rubyText => exact rel_ite_iff (by rw [(S.alike h).inScope]) (S.popImplied h ["rtc"]) h
  refine rel_ite (fun _ => S.insertForeign h good) fun _ => ?_
  refine rel_ite (fun _ => S.insertForeign h good) fun _ => ?_
  exact rel_ite (fun _ => h) fun _ => S.insertHtml reopened good

/-! ### Up to the body -/

variable {t : Token} (admitted : t.Admitted ok)
include admitted

theorem atStart : Together ok R (b.atStart t) (b'.atStart t) := by
  have otherwise := S.retry (S.withLenient h true) .beforeHtml admitted
  cases t with
  | comment text => exact .done (S.commentOutside h text)
  | char c => exact rel_ite (fun _ => .done h) fun _ => otherwise
  | _ => exact otherwise

theorem beforeHtml : Together ok R (b.beforeHtml t) (b'.beforeHtml t) := by
  have otherwise := S.retry (S.createRoot h (S.admits.implied "html" (by decide))) .beforeHead
    admitted
  cases t with
  | comment text => exact .done (S.commentOutside h text)
  | char c => exact rel_ite (fun _ => .done h) fun _ => otherwise
  | startTag tag =>
    refine rel_ite (fun root => .done (S.enter (S.createRoot h ?_) .beforeHead)) fun _ => otherwise
    exact eq_of_beq root ▸ admitted
  | endTag name => exact rel_ite (fun _ => otherwise) fun _ => .done h
  | _ => exact otherwise

theorem beforeHead : Together ok R (b.beforeHead t) (b'.beforeHead t) := by
  have made : R (b.openHead { name := "head" }) (b'.openHead { name := "head" }) :=
    S.openHead h (S.admits.implied "head" (by decide))
  have otherwise := Together.again made admitted
  cases t with
  | comment text => exact .done (S.insertComment text h)
  | char c => exact rel_ite (fun _ => .done h) fun _ => otherwise
  | startTag tag =>
    refine rel_ite (fun root => .done (S.mergeRoot h admitted (eq_of_beq root))) fun _ => ?_
    exact rel_ite (fun _ => .done (S.openHead h admitted)) fun _ => otherwise
  | endTag name => exact rel_ite (fun _ => otherwise) fun _ => .done h
  | _ => exact otherwise

theorem inHead : Together ok R (b.inHead t) (b'.inHead t) := by
  have otherwise := S.retry (S.pop h) .afterHead admitted
  cases t with
  | comment text => exact .done (S.insertComment text h)
  | char c => exact rel_ite (fun _ => .done (S.insertChar c h)) fun _ => otherwise
  | startTag tag =>
    refine rel_ite (fun root => .done (S.mergeRoot h admitted (eq_of_beq root))) fun _ => ?_
    refine rel_ite (fun _ => .done (S.insertMetadata h admitted)) fun _ => ?_
    exact rel_ite (fun _ => .done h) fun _ => otherwise
  | endTag name =>
    refine rel_ite (fun _ => .done (S.enter (S.pop h) .afterHead)) fun _ => ?_
    refine rel_ite (fun _ => .done (S.closeTemplate h)) fun _ => ?_
    exact rel_ite (fun _ => otherwise) fun _ => .done h
  | _ => exact otherwise

theorem afterHead : Together ok R (b.afterHead t) (b'.afterHead t) := by
  have otherwise :=
    S.retry (S.insertImplied h (show "body" ∈ impliedNames by decide)) .inBody admitted
  cases t with
  | comment text => exact .done (S.insertComment text h)
  | char c => exact rel_ite (fun _ => .done (S.insertChar c h)) fun _ => otherwise
  | startTag tag =>
    refine rel_ite (fun root => .done (S.mergeRoot h admitted (eq_of_beq root))) fun _ => ?_
    refine rel_ite (fun _ => .done (S.enter (S.noFrames (S.insertHtml h admitted)) .inBody))
      fun _ => ?_
    refine rel_ite (fun _ => .done (S.enter (S.insertHtml h admitted) .inFrameset)) fun _ => ?_
    refine rel_ite (fun _ => .done (S.insertIntoHead h admitted)) fun _ => ?_
    exact rel_ite (fun _ => .done h) fun _ => otherwise
  | endTag name =>
    refine rel_ite (fun _ => .done (S.closeTemplate h)) fun _ => ?_
    exact rel_ite (fun _ => otherwise) fun _ => .done h
  | _ => exact otherwise

theorem finishTemplate : Together ok R (b.finishTemplate t) (b'.finishTemplate t) := by
  unfold Builder.finishTemplate
  rw [(S.alike h).hasOpen]
  refine rel_ite (fun _ => ?_) fun _ => .done h
  exact .again (S.leaveTemplate (S.popThroughHtml h "template")) admitted

omit admitted in
theorem bodyEnd (name : String) : Together ok R (b.bodyEnd name) (b'.bodyEnd name) := by
  have a := S.alike h
  unfold Builder.bodyEnd
  rw [a.inScope, a.inScope, a.itemInScope, a.paragraphInScope,
    a.finds_name stopsScope (·.isAnyOf Names.headings)]
  refine rel_ite (fun _ => .done (S.closeTemplate h)) fun _ => ?_
  refine rel_ite (fun _ => .done (rel_ite (fun _ => S.enter h .afterBody) fun _ => h)) fun _ => ?_
  refine rel_ite (fun _ => rel_ite (fun _ => S.retry h .afterBody trivial) fun _ => .done h)
    fun _ => ?_
  refine rel_ite (fun _ => .done (rel_ite (fun _ => S.close h name) fun _ => h)) fun _ => ?_
  refine rel_ite (fun _ => .done (S.closeForm h)) fun _ => ?_
  refine rel_ite (fun _ => .done (S.close (rel_ite (fun _ => h) fun _ => S.insertImplied h
    (show "p" ∈ impliedNames by decide)) "p")) fun _ => ?_
  refine rel_ite (fun _ => .done (rel_ite (fun _ => S.close h name) fun _ => h)) fun _ => ?_
  refine rel_ite (fun _ => .done (rel_ite (fun _ => S.close h name) fun _ => h)) fun _ => ?_
  refine rel_ite (fun _ => .done (rel_ite (fun _ => S.popThrough (S.popImplied h []) _) fun _ => h))
    fun _ => ?_
  refine rel_ite (fun _ => .done (S.closeFormatting h name)) fun _ => ?_
  refine rel_ite (fun _ => .done (rel_ite (fun _ => S.endFormatting (S.close h name)) fun _ => h))
    fun _ => ?_
  refine rel_ite (fun br => .done (S.insertEmptyInline h ?_)) fun _ =>
    .done (S.closeOrdinary h name)
  rw [eq_of_beq br]
  exact S.admits.implied "br" (by decide)

theorem inBody : Together ok R (b.inBody t) (b'.inBody t) := by
  cases t with
  | char c =>
    exact .done (rel_ite (fun _ => h) fun _ =>
      S.insertChar c (S.noFramesAfter (S.reopenFormatting h) c))
  | comment text => exact .done (S.insertComment text h)
  | startTag tag => exact .done (S.bodyStart h admitted)
  | endTag name => exact S.bodyEnd h name
  | finish =>
    unfold Builder.inBody
    rw [(S.alike h).settings.templates]
    exact rel_ite (fun _ => .done h) fun _ => S.finishTemplate h trivial
  | doctype _ => exact .done h
  | fault => exact .done h

theorem inText : Together ok R (b.inText t) (b'.inText t) := by
  have ended := S.pop h
  unfold Builder.inText
  rw [(S.alike h).settings.resume]
  cases t with
  | char c => exact .done (S.insertChar c h)
  | finish => exact S.retry ended b.resume trivial
  | _ => exact .done (S.enter ended b.resume)

end Simulation

end PageLint.Html.Builder
