import PageLint.Proofs.Html.Simulation.Body

/-!
# Relations that tables keep

The reading of a token in a table and its parts keeps every simulation.
-/

namespace PageLint.Html.Builder.Simulation

variable {ρ : NodeId → NodeId} {ok : String → List Attribute → Prop} {R : Builder → Builder → Prop}
  (S : Simulation ρ ok R) {b b' : Builder} (h : R b b')
include S h

/-- Two builders that have closed the innermost table go on alike. -/
theorem leaveThrough (name : String) :
    R ((b.popThroughHtml name).enter (b.popThroughHtml name).properMode)
      ((b'.popThroughHtml name).enter (b'.popThroughHtml name).properMode) := by
  have closed := S.popThroughHtml h name
  rw [(S.alike closed).properMode]
  exact S.enter closed _

theorem closeCell : R b.closeCell b'.closeCell :=
  S.endFormatting (S.popThrough (S.popImplied h []) _)

variable {t : Token} (admitted : t.Admitted ok)
include admitted

theorem foster : Together ok R (b.foster t) (b'.foster t) := by
  have read := S.inBody (S.withFostering h true) admitted
  unfold Builder.foster
  generalize Builder.inBody { b with fostering := true } t = o at read ⊢
  generalize Builder.inBody { b' with fostering := true } t = o' at read ⊢
  cases read with
  | done related => exact .done (S.withFostering related false)
  | again related admitted => exact .again (S.withFostering related false) admitted

theorem tableChar : Together ok R (b.tableChar t) (b'.tableChar t) := by
  unfold Builder.tableChar
  rw [(S.alike h).head?_name (·.isAnyOf Names.fostering), (S.alike h).settings.mode]
  exact rel_ite (fun _ => S.retry (S.withResume h b.mode) .inTableText admitted)
    fun _ => S.foster h admitted

omit admitted in
theorem placeTableText : R b.placeTableText b'.placeTableText := by
  have emptied := S.withTableText h []
  unfold Builder.placeTableText
  dsimp only
  rw [(S.alike h).settings.tableText]
  refine rel_ite (fun _ => ?_) fun _ => ?_
  · exact List.foldl_rel emptied fun c _ _ _ related => S.insertChar c related
  · refine List.foldl_rel emptied fun c _ d d' related => ?_
    have read := S.foster related (t := .char c) trivial
    generalize d.foster (.char c) = o at read ⊢
    generalize d'.foster (.char c) = o' at read ⊢
    cases read with
    | done related => exact related
    | again related _ => exact related

theorem inTableText : Together ok R (b.inTableText t) (b'.inTableText t) := by
  have settings := (S.alike h).settings
  cases t with
  | char c =>
    have added := S.withTableText h (c :: b.tableText)
    refine .done (rel_ite (fun _ => h) fun _ => ?_)
    rw [settings.tableText]
    exact added
  | _ =>
    unfold Builder.inTableText
    rw [settings.resume]
    exact S.retry (S.placeTableText h) b.resume admitted

omit admitted in
theorem tableStart {tag : Tag} (good : ok tag.name tag.attributes) :
    Together ok R (b.tableStart tag) (b'.tableStart tag) := by
  have a := S.alike h
  have inTable := S.popTo h Names.tableScope
  unfold Builder.tableStart
  dsimp only
  rw [a.hasOpen, a.inTableScope]
  refine rel_ite (fun _ => .done (S.enter (S.insertHtml (S.markFormatting inTable) good)
    .inCaption)) fun _ => ?_
  refine rel_ite (fun _ => .done (S.enter (S.insertHtml inTable good) .inColumnGroup)) fun _ => ?_
  refine rel_ite (fun _ => S.retry (S.insertImplied inTable
    (show "colgroup" ∈ impliedNames by decide)) .inColumnGroup good) fun _ => ?_
  refine rel_ite (fun _ => .done (S.enter (S.insertHtml inTable good) .inTableBody)) fun _ => ?_
  refine rel_ite (fun _ => S.retry (S.insertImplied inTable
    (show "tbody" ∈ impliedNames by decide)) .inTableBody good) fun _ => ?_
  refine rel_ite (fun _ => rel_ite (fun _ => .again (S.leaveThrough h "table") good)
    fun _ => .done h) fun _ => ?_
  refine rel_ite (fun _ => .done (S.insertMetadata h good)) fun _ => ?_
  refine rel_ite (fun _ => .done (S.insertEmpty h good)) fun _ => ?_
  refine rel_ite (fun _ => ?form) fun _ => S.foster h good
  case form =>
    have opened := S.form (some b.dom.nextId) (S.insertEmpty h good)
    rw [Option.map_some, ← a.nextId] at opened
    refine rel_ite_iff ?_ (.done opened) (.done h)
    rw [a.form, Option.isNone_map]

theorem inTable : Together ok R (b.inTable t) (b'.inTable t) := by
  cases t with
  | char c => exact S.tableChar h admitted
  | comment text => exact .done (S.insertComment text h)
  | startTag tag => exact S.tableStart h admitted
  | endTag name =>
    unfold Builder.inTable
    dsimp only
    rw [(S.alike h).inTableScope]
    refine rel_ite (fun _ => rel_ite (fun _ => .done (S.leaveThrough h "table")) fun _ => .done h)
      fun _ => ?_
    refine rel_ite (fun _ => .done (S.closeTemplate h)) fun _ => ?_
    exact rel_ite (fun _ => .done h) fun _ => S.foster h admitted
  | _ => exact S.inBody h admitted

theorem inCaption : Together ok R (b.inCaption t) (b'.inCaption t) := by
  have ended := S.enter (S.endFormatting (S.popThroughHtml (S.popImplied h []) "caption")) .inTable
  unfold Builder.inCaption
  dsimp only
  rw [(S.alike h).inTableScope]
  cases t with
  | startTag tag =>
    exact rel_ite (fun _ => rel_ite (fun _ => .again ended admitted) fun _ => .done h)
      fun _ => S.inBody h admitted
  | endTag name =>
    refine rel_ite (fun _ => rel_ite (fun _ => .done ended) fun _ => .done h) fun _ => ?_
    refine rel_ite (fun _ => rel_ite (fun _ => .again ended admitted) fun _ => .done h) fun _ => ?_
    exact rel_ite (fun _ => .done h) fun _ => S.inBody h admitted
  | _ => exact S.inBody h admitted

theorem inColumnGroup : Together ok R (b.inColumnGroup t) (b'.inColumnGroup t) := by
  have leave : Together ok R
      (if b.currentIs "colgroup" then b.pop.retry .inTable t else .done b)
      (if b'.currentIs "colgroup" then b'.pop.retry .inTable t else .done b') := by
    rw [(S.alike h).currentIs]
    exact rel_ite (fun _ => S.retry (S.pop h) .inTable admitted) fun _ => .done h
  cases t with
  | char c => exact rel_ite (fun _ => .done (S.insertChar c h)) fun _ => leave
  | comment text => exact .done (S.insertComment text h)
  | startTag tag =>
    refine rel_ite (fun root => .done (S.mergeRoot h admitted (eq_of_beq root))) fun _ => ?_
    refine rel_ite (fun _ => .done (S.insertEmpty h admitted)) fun _ => ?_
    exact rel_ite (fun _ => .done (S.openTemplate h admitted)) fun _ => leave
  | endTag name =>
    refine rel_ite (fun _ => .done (rel_ite_iff ?_ (S.enter (S.pop h) .inTable) h)) fun _ => ?_
    · rw [(S.alike h).currentIs]
    refine rel_ite (fun _ => .done h) fun _ => ?_
    exact rel_ite (fun _ => .done (S.closeTemplate h)) fun _ => leave
  | _ => exact S.inBody h admitted

theorem inTableBody : Together ok R (b.inTableBody t) (b'.inTableBody t) := by
  have inGroup := S.popTo h rowContext
  have left := S.pop inGroup
  unfold Builder.inTableBody
  dsimp only
  rw [(S.alike h).inTableScope]
  refine rel_ite (fun _ => rel_ite (fun _ => S.retry left .inTable admitted) fun _ => .done h)
    fun _ => rel_ite (fun _ => .done h) fun _ => ?_
  cases t with
  | startTag tag =>
    refine rel_ite (fun _ => .done (S.enter (S.insertHtml inGroup admitted) .inRow)) fun _ => ?_
    exact rel_ite (fun _ => S.retry (S.insertImplied inGroup (show "tr" ∈ impliedNames by decide))
      .inRow admitted) fun _ => S.inTable h admitted
  | endTag name =>
    refine rel_ite (fun _ => .done (rel_ite_iff ?_ (S.enter left .inTable) h)) fun _ =>
      S.inTable h admitted
    rw [(S.alike h).inTableScope]
  | _ => exact S.inTable h admitted

theorem inRow : Together ok R (b.inRow t) (b'.inRow t) := by
  have inThis := S.popTo h cellContext
  have left := S.pop inThis
  have leave : Together ok R
      (if b.inTableScope ["tr"] then (b.popTo cellContext).pop.retry .inTableBody t else .done b)
      (if b'.inTableScope ["tr"] then (b'.popTo cellContext).pop.retry .inTableBody t
        else .done b') := by
    rw [(S.alike h).inTableScope]
    exact rel_ite (fun _ => S.retry left .inTableBody admitted) fun _ => .done h
  unfold Builder.inRow
  refine rel_ite (fun _ => leave) fun _ => rel_ite (fun _ => .done h) fun _ => ?_
  cases t with
  | startTag tag =>
    refine rel_ite (fun _ => .done (S.enter (S.markFormatting (S.insertHtml inThis admitted))
      .inCell)) fun _ => ?_
    exact rel_ite (fun _ => leave) fun _ => S.inTable h admitted
  | endTag name =>
    refine rel_ite (fun _ => .done (rel_ite_iff ?_ (S.enter left .inTableBody) h)) fun _ => ?_
    · rw [(S.alike h).inTableScope]
    refine rel_ite (fun _ => rel_ite_iff ?_ leave (.done h)) fun _ => S.inTable h admitted
    rw [(S.alike h).inTableScope]
  | _ => exact S.inTable h admitted

theorem inCell : Together ok R (b.inCell t) (b'.inCell t) := by
  have closed := S.closeCell h
  refine rel_ite (fun _ => .done h) fun _ => ?_
  cases t with
  | startTag tag =>
    refine rel_ite (fun _ => rel_ite_iff ?_ (S.retry closed .inRow admitted) (.done h)) fun _ =>
      S.inBody h admitted
    rw [(S.alike h).inTableScope]
  | endTag name =>
    refine rel_ite (fun _ => .done (rel_ite_iff ?_ (S.enter (S.endFormatting
      (S.popThroughHtml (S.popImplied h []) name)) .inRow) h)) fun _ => ?_
    · rw [(S.alike h).inTableScope]
    refine rel_ite (fun _ => rel_ite_iff ?_ (S.retry closed .inRow admitted) (.done h)) fun _ =>
      S.inBody h admitted
    rw [(S.alike h).inTableScope]
  | _ => exact S.inBody h admitted

end PageLint.Html.Builder.Simulation
