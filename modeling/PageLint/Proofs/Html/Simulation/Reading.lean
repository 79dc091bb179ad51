import PageLint.Proofs.Html.Simulation.Table
import PageLint.Html.Parse

/-!
# Relations that reading keeps to the end of a page

The remaining modes, and with them every mode, keep every simulation. `Simulation.read` says so of
one token and `Simulation.readAll` of a whole text, whose tokens the condition of the simulation
admits.
-/

namespace PageLint.Html.Builder

namespace Simulation

variable {ρ : NodeId → NodeId} {ok : String → List Attribute → Prop} {R : Builder → Builder → Prop}
  (S : Simulation ρ ok R) {b b' : Builder} (h : R b b')
include S h

theorem leaveSelect : R b.leaveSelect b'.leaveSelect :=
  S.leaveThrough h "select"

theorem leaveForeign : R b.leaveForeign b'.leaveForeign :=
  S.dropOpen h fun n => !(n.space == .html || n.isMathText || n.isSvgHtml)

/-! ### The remaining modes -/

variable {t : Token} (admitted : t.Admitted ok)
include admitted

theorem inSelect : Together ok R (b.inSelect t) (b'.inSelect t) := by
  have a := S.alike h
  have closed := S.popIf h "option"
  have left : R (if b.selectInScope then b.leaveSelect else b)
      (if b'.selectInScope then b'.leaveSelect else b') :=
    rel_ite_iff (by rw [a.selectInScope]) (S.leaveSelect h) h
  cases t with
  | char c => exact .done (rel_ite (fun _ => h) fun _ => S.insertChar c h)
  | comment text => exact .done (S.insertComment text h)
  | startTag tag =>
    refine rel_ite (fun root => .done (S.mergeRoot h admitted (eq_of_beq root))) fun _ => ?_
    refine rel_ite (fun _ => .done (S.insertHtml closed admitted)) fun _ => ?_
    refine rel_ite (fun _ => .done (S.insertHtml (S.popIf closed "optgroup") admitted)) fun _ => ?_
    refine rel_ite (fun _ => .done (S.insertEmpty (S.popIf closed "optgroup") admitted)) fun _ => ?_
    refine rel_ite (fun _ => .done left) fun _ => ?_
    refine rel_ite (fun _ => rel_ite_iff ?_ (.again (S.leaveSelect h) admitted) (.done h))
      fun _ => ?_
    · rw [a.selectInScope]
    exact rel_ite (fun _ => .done (S.insertMetadata h admitted)) fun _ => .done h
  | endTag name =>
    refine rel_ite (fun _ => .done (S.popIf (rel_ite_iff ?_ closed h) "optgroup")) fun _ => ?_
    · rw [a.stack, ← List.map_drop, List.head?_map, Option.any_map]
      rfl
    refine rel_ite (fun _ => .done closed) fun _ => ?_
    refine rel_ite (fun _ => .done left) fun _ => ?_
    exact rel_ite (fun _ => .done (S.closeTemplate h)) fun _ => .done h
  | _ => exact S.inBody h admitted

theorem inSelectInTable : Together ok R (b.inSelectInTable t) (b'.inSelectInTable t) := by
  have left := Together.again (S.leaveSelect h) admitted
  cases t with
  | startTag tag => exact rel_ite (fun _ => left) fun _ => S.inSelect h admitted
  | endTag name =>
    refine rel_ite (fun _ => rel_ite_iff ?_ left (.done h)) fun _ => S.inSelect h admitted
    rw [(S.alike h).inTableScope]
  | _ => exact S.inSelect h admitted

theorem inTemplate : Together ok R (b.inTemplate t) (b'.inTemplate t) := by
  cases t with
  | char c => exact rel_ite (fun _ => .done h) fun _ => S.inBody h admitted
  | comment text => exact S.inBody h admitted
  | startTag tag =>
    have changed := S.changeTemplates h fun modes => templateMode tag.name :: modes.drop 1
    exact rel_ite (fun _ => .done (S.insertMetadata h admitted)) fun _ =>
      S.retry changed _ admitted
  | endTag name => exact .done (rel_ite (fun _ => S.closeTemplate h) fun _ => h)
  | finish => exact S.finishTemplate h admitted
  | _ => exact .done h

theorem afterBody : Together ok R (b.afterBody t) (b'.afterBody t) := by
  have otherwise := S.retry h .inBody admitted
  cases t with
  | char c => exact rel_ite (fun _ => S.inBody h admitted) fun _ => otherwise
  | comment text =>
    unfold Builder.afterBody
    dsimp only
    rw [(S.alike h).getLast?_stack]
    cases last : b.stack.getLast? with
    | none => exact .done (S.commentOutside h text)
    | some o => exact .done (S.commentIn text h (.inr ⟨o, List.mem_of_getLast? last, rfl⟩))
  | startTag tag =>
    exact rel_ite (fun root => .done (S.mergeRoot h admitted (eq_of_beq root))) fun _ => otherwise
  | endTag name => exact rel_ite (fun _ => .done (S.enter h .afterAfterBody)) fun _ => otherwise
  | finish => exact .done h
  | _ => exact otherwise

theorem afterAfterBody : Together ok R (b.afterAfterBody t) (b'.afterAfterBody t) := by
  have otherwise := S.retry h .inBody admitted
  cases t with
  | char c => exact rel_ite (fun _ => S.inBody h admitted) fun _ => otherwise
  | comment text => exact .done (S.commentOutside h text)
  | startTag tag =>
    exact rel_ite (fun root => .done (S.mergeRoot h admitted (eq_of_beq root))) fun _ => otherwise
  | finish => exact .done h
  | _ => exact otherwise

theorem inFrameset : Together ok R (b.inFrameset t) (b'.inFrameset t) := by
  cases t with
  | char c => exact .done (rel_ite (fun _ => S.insertChar c h) fun _ => h)
  | comment text => exact .done (S.insertComment text h)
  | startTag tag =>
    refine rel_ite (fun root => .done (S.mergeRoot h admitted (eq_of_beq root))) fun _ => ?_
    refine rel_ite (fun _ => .done (S.insertHtml h admitted)) fun _ => ?_
    refine rel_ite (fun _ => .done (S.insertEmpty h admitted)) fun _ => ?_
    exact rel_ite (fun _ => .done (S.insertMetadata h admitted)) fun _ => .done h
  | endTag name =>
    have ended := S.pop h
    refine rel_ite_iff ?_ (.done (rel_ite_iff ?_ ended (S.enter ended .afterFrameset))) (.done h)
    · rw [(S.alike h).length_stack]
    · rw [(S.alike ended).currentIs]
  | _ => exact .done h

theorem afterFrameset : Together ok R (b.afterFrameset t) (b'.afterFrameset t) := by
  cases t with
  | char c => exact .done (rel_ite (fun _ => S.insertChar c h) fun _ => h)
  | comment text => exact .done (S.insertComment text h)
  | startTag tag =>
    refine rel_ite (fun root => .done (S.mergeRoot h admitted (eq_of_beq root))) fun _ => ?_
    exact rel_ite (fun _ => .done (S.insertMetadata h admitted)) fun _ => .done h
  | endTag name => exact .done (rel_ite (fun _ => S.enter h .afterAfterFrameset) fun _ => h)
  | _ => exact .done h

theorem afterAfterFrameset : Together ok R (b.afterAfterFrameset t) (b'.afterAfterFrameset t) := by
  cases t with
  | char c => exact rel_ite (fun _ => S.inBody h admitted) fun _ => .done h
  | comment text => exact .done (S.commentOutside h text)
  | startTag tag =>
    refine rel_ite (fun root => .done (S.mergeRoot h admitted (eq_of_beq root))) fun _ => ?_
    exact rel_ite (fun _ => .done (S.insertMetadata h admitted)) fun _ => .done h
  | _ => exact .done h

theorem inMode : Together ok R (b.inMode t) (b'.inMode t) := by
  unfold Builder.inMode
  rw [(S.alike h).settings.mode]
  cases b.mode with
  | initial => exact S.atStart h admitted
  | beforeHtml => exact S.beforeHtml h admitted
  | beforeHead => exact S.beforeHead h admitted
  | inHead => exact S.inHead h admitted
  | afterHead => exact S.afterHead h admitted
  | inBody => exact S.inBody h admitted
  | text => exact S.inText h admitted
  | inTable => exact S.inTable h admitted
  | inTableText => exact S.inTableText h admitted
  | inCaption => exact S.inCaption h admitted
  | inColumnGroup => exact S.inColumnGroup h admitted
  | inTableBody => exact S.inTableBody h admitted
  | inRow => exact S.inRow h admitted
  | inCell => exact S.inCell h admitted
  | inSelect => exact S.inSelect h admitted
  | inSelectInTable => exact S.inSelectInTable h admitted
  | inTemplate => exact S.inTemplate h admitted
  | afterBody => exact S.afterBody h admitted
  | inFrameset => exact S.inFrameset h admitted
  | afterFrameset => exact S.afterFrameset h admitted
  | afterAfterBody => exact S.afterAfterBody h admitted
  | afterAfterFrameset => exact S.afterAfterFrameset h admitted

/-! ### MathML and SVG -/

omit admitted in
theorem foreignEnd (name : String) (first : Bool) {stack : List Open}
    (below : stack.Sublist b.stack) : Together ok R (b.foreignEnd name first stack)
      (b'.foreignEnd name first (stack.map (Open.rename ρ))) := by
  induction stack generalizing first with
  | nil => exact .done h
  | cons o outer ih =>
    have within : outer.Sublist b.stack := (List.sublist_cons_self o outer).trans below
    cases outer with
    | nil => exact .done h
    | cons o' outer =>
      refine rel_ite (fun _ => S.inMode h trivial) fun _ => ?_
      exact rel_ite (fun _ => .done (S.shrink h within)) fun _ => ih false within

theorem inForeign : Together ok R (b.inForeign t) (b'.inForeign t) := by
  cases t with
  | char c =>
    exact rel_ite (fun _ => .done (S.insertChar _ h)) fun _ =>
      .done (S.insertChar c (S.noFramesAfter h c))
  | comment text => exact .done (S.insertComment text h)
  | startTag tag =>
    refine rel_ite (fun _ => S.inMode (S.leaveForeign h) admitted) fun _ => ?_
    have spaces : b'.stack.head?.map (·.name.space) = b.stack.head?.map (·.name.space) := by
      rw [(S.alike h).stack, List.head?_map, Option.map_map]
      rfl
    rw [spaces]
    refine .done (S.insertForeign h ?_)
    dsimp only
    split
    · cases capitals : svgNames.lookup tag.name with
      | none => exact admitted
      | some name => exact S.admits.svg _ name _ admitted capitals
    · exact admitted
  | endTag name =>
    refine rel_ite (fun _ => S.inMode (S.leaveForeign h) admitted) fun _ => ?_
    rw [(S.alike h).stack]
    exact S.foreignEnd h name true (List.Sublist.refl b.stack)
  | _ => exact .done h

/-! ### Tokens and texts -/

theorem readAgain (fuel : Nat) : R (b.readAgain fuel t) (b'.readAgain fuel t) := by
  induction fuel generalizing b b' t with
  | zero => exact h
  | succ fuel ih =>
    have read : Together ok R (if b.isForeign t then b.inForeign t else b.inMode t)
        (if b'.isForeign t then b'.inForeign t else b'.inMode t) := by
      rw [(S.alike h).isForeign]
      exact rel_ite (fun _ => S.inForeign h admitted) fun _ => S.inMode h admitted
    rw [Builder.readAgain, Builder.readAgain]
    generalize (if b.isForeign t then b.inForeign t else b.inMode t) = o at read ⊢
    generalize (if b'.isForeign t then b'.inForeign t else b'.inMode t) = o' at read ⊢
    cases read with
    | done related => exact related
    | again related admitted => exact ih related admitted

theorem read : R (b.read t) (b'.read t) := by
  have ready := S.withDropsNewline h false
  have again : R
      (if b.dropsNewline && t == .char '\n' then { b with dropsNewline := false } else
        Builder.readAgain (3 * b.stack.length + 20) { b with dropsNewline := false } t)
      (if b'.dropsNewline && t == .char '\n' then { b' with dropsNewline := false } else
        Builder.readAgain (3 * b'.stack.length + 20) { b' with dropsNewline := false } t) := by
    rw [(S.alike h).length_stack]
    refine rel_ite_iff ?_ ready (S.readAgain ready admitted _)
    rw [(S.alike h).settings.dropsNewline]
  cases t with
  | fault => exact ready
  | doctype d => exact S.readDoctype ready d
  | _ => exact again

omit admitted in
theorem readEach {tokens : List Token} (admitted : ∀ t ∈ tokens, t.Admitted ok) :
    R (tokens.foldl Builder.read b) (tokens.foldl Builder.read b') :=
  List.foldl_rel h fun t member _ _ related => S.read related (admitted t member)

end Simulation

inductive Comes : Builder → List Char → Builder → List Char → Prop
  | here {b text} : Comes b text b text
  | next {b c rest d later} :
    Comes ((readNext b.content b.holdsCharacterData c rest).tokens.foldl Builder.read
      { b with content := (readNext b.content b.holdsCharacterData c rest).content })
      (readNext b.content b.holdsCharacterData c rest).rest d later →
    Comes b (c :: rest) d later

def ComesToToken (b : Builder) (text : List Char) (t : Token) : Prop :=
  ∃ d c rest, Comes b text d (c :: rest) ∧
    t ∈ (readNext d.content d.holdsCharacterData c rest).tokens

/-- Reading a text keeps a simulation that admits all tokens it comes to. -/
theorem Simulation.readAll {ρ : NodeId → NodeId} {ok : String → List Attribute → Prop}
    {R : Builder → Builder → Prop} (S : Simulation ρ ok R) {b b' : Builder} (h : R b b')
    {text : List Char} (admitted : ∀ t, ComesToToken b text t → t.Admitted ok) :
    R (b.readAll text) (b'.readAll text) := by
  induction b, text using Builder.readAll.induct generalizing b' with
  | case1 b =>
    rw [Builder.readAll, Builder.readAll]
    exact S.read h trivial
  | case2 b c rest reading =>
    rename_i ih
    have a := S.alike h
    rw [Builder.readAll, Builder.readAll, a.settings.content, a.holdsCharacterData]
    have now : ∀ t ∈ reading.tokens, t.Admitted ok :=
      fun t member => admitted t ⟨b, c, rest, .here, member⟩
    refine ih (S.readEach (S.withContent h reading.content) now) fun t comes => ?_
    obtain ⟨d, c', rest', reached, member⟩ := comes
    exact admitted t ⟨d, c', rest', .next reached, member⟩

end PageLint.Html.Builder
