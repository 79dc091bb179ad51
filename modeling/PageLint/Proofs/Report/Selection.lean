import PageLint.Report.Basic

/-!
# The rules that run

A configuration only takes issues away. `analyze_eq_filter` says that its report is the report of
the default configuration without the issues of the rules that it does not let run.
-/

namespace PageLint

def Config.runs (c : Config) (id : String) : Bool :=
  c.enablesRule id && (findRule id).any fun rule => c.enablesCategory rule.category

/-! ### One rule for each identifier -/

theorem allRules_nodup : (allRules.map (·.id)).Nodup := by decide

theorem findRule_of_mem {rule : RuleInfo} (member : rule ∈ allRules) :
    findRule rule.id = some rule := by
  obtain ⟨front, back, split⟩ := List.append_of_mem member
  have unique := allRules_nodup
  rw [split, List.map_append, List.map_cons] at unique
  have fresh : ∀ other ∈ front, ¬ other.id = rule.id := by
    intro other present same
    have apart := (List.nodup_append.mp unique).2.2 other.id (List.mem_map_of_mem present)
      rule.id List.mem_cons_self
    exact apart same
  rw [findRule, split, List.find?_append, List.find?_eq_none.mpr (by simpa using fresh)]
  simp

theorem runs_of_mem (c : Config) {rule : RuleInfo} (member : rule ∈ allRules) :
    c.runs rule.id = c.selects rule.id rule.category := by
  simp [Config.runs, Config.selects, findRule_of_mem member]

theorem closing_mem_allRules : Markup.Balance.rule ∈ allRules := List.mem_cons_self

theorem element_mem_allRules {r : Markup.ElementRule} (member : r ∈ Markup.ElementRule.catalogue) :
    r.info ∈ allRules :=
  List.mem_cons_of_mem _ (List.mem_append_left _ (List.mem_map_of_mem member))

theorem declaration_mem_allRules {r : Stylesheet.DeclarationRule}
    (member : r ∈ Stylesheet.DeclarationRule.catalogue) : r.info ∈ allRules :=
  List.mem_cons_of_mem _ (List.mem_append_right _ (List.mem_map_of_mem member))

/-! ### The rules of a configuration -/

theorem checksClosing_eq (c : Config) : c.checksClosing = c.runs Markup.Balance.rule.id :=
  (runs_of_mem c closing_mem_allRules).symm

theorem selected_elementRules (c : Config) :
    Markup.ElementRule.selected c = Markup.ElementRule.catalogue.filter fun r => c.runs r.id :=
  List.filter_congr fun _ member => (runs_of_mem c (element_mem_allRules member)).symm

theorem selected_declarationRules (c : Config) :
    Stylesheet.DeclarationRule.selected c =
      Stylesheet.DeclarationRule.catalogue.filter fun r => c.runs r.id :=
  List.filter_congr fun _ member => (runs_of_mem c (declaration_mem_allRules member)).symm

theorem default_runs {rule : RuleInfo} (member : rule ∈ allRules) :
    ({} : Config).runs rule.id = true := by
  rw [runs_of_mem _ member]
  rfl

theorem ruleIds_eq_filter (c : Config) : c.ruleIds = (allRules.map (·.id)).filter c.runs := by
  have closing : (if c.checksClosing then [Markup.Balance.rule.id] else []) =
      [Markup.Balance.rule.id].filter c.runs := by
    rw [checksClosing_eq, List.filter_cons, List.filter_nil]
  have ids : allRules.map (·.id) = [Markup.Balance.rule.id] ++
      (Markup.ElementRule.catalogue.map (·.id) ++
        Stylesheet.DeclarationRule.catalogue.map (·.id)) := by
    simp [allRules, Markup.ElementRule.info, Stylesheet.DeclarationRule.info, Function.comp_def]
  rw [ids, List.filter_append, List.filter_append, List.filter_map, List.filter_map,
    Config.ruleIds, Config.markupRules, Config.stylesheetRules, closing, selected_elementRules,
    selected_declarationRules, List.append_assoc]
  rfl

/-! ### Each pass of the analysis -/

/-- Rules look at items one by one, so the rules may be thinned out before or after. -/
theorem filter_flatMap_issues {items : List α} {rules : List ρ} {flags : ρ → α → Bool}
    {issue : ρ → α → ι} {keep : ι → Bool} {runs : ρ → Bool}
    (same : ∀ r item, keep (issue r item) = runs r) :
    (items.flatMap fun item => (rules.filter (flags · item)).map (issue · item)).filter keep =
      items.flatMap fun item => ((rules.filter runs).filter (flags · item)).map (issue · item) := by
  rw [List.filter_flatMap]
  congr 1
  funext item
  rw [List.filter_map, List.filter_filter, List.filter_filter]
  congr 2
  funext r
  simp [same, Bool.and_comm]

theorem inspect_elementRules_filter [Markup.PatternEngine] (keep : String → Bool)
    (rules : List Markup.ElementRule) (text : List Char) (root : Markup.Node) :
    (Markup.inspect rules text root).filter (keep ·.ruleId) =
      Markup.inspect (rules.filter (keep ·.id)) text root :=
  filter_flatMap_issues fun _ _ => rfl

theorem inspect_declarationRules_filter (keep : String → Bool)
    (rules : List Stylesheet.DeclarationRule) (ns : List Stylesheet.Node) :
    (Stylesheet.inspect rules ns).filter (keep ·.ruleId) =
      Stylesheet.inspect (rules.filter (keep ·.id)) ns :=
  filter_flatMap_issues fun _ _ => rfl

/-- All issues about closing tags are those of one rule, so they stay or go together. -/
theorem check_filter (keep : String → Bool) (text : List Char) :
    (Markup.Balance.check text).filter (keep ·.ruleId) =
      if keep Markup.Balance.rule.id then Markup.Balance.check text else [] := by
  have same : ∀ i ∈ Markup.Balance.check text, keep i.ruleId = keep Markup.Balance.rule.id := by
    intro i member
    obtain ⟨⟨element, b⟩, _, rfl⟩ := List.mem_map.mp member
    rfl
  rw [List.filter_congr same]
  split <;> rename_i closing <;> simp [closing]

theorem elementRules_default : Markup.ElementRule.selected {} = Markup.ElementRule.catalogue := by
  rw [selected_elementRules]
  exact List.filter_eq_self.mpr fun r member => default_runs (element_mem_allRules member)

theorem declarationRules_default :
    Stylesheet.DeclarationRule.selected {} = Stylesheet.DeclarationRule.catalogue := by
  rw [selected_declarationRules]
  exact List.filter_eq_self.mpr fun r member => default_runs (declaration_mem_allRules member)

theorem analyzeMarkup_eq_filter [Markup.PatternEngine] (c : Config) (text : List Char) :
    analyzeMarkup c text = (analyzeMarkup {} text).filter (c.runs ·.ruleId) := by
  have closing : ({} : Config).checksClosing = true := rfl
  rw [analyzeMarkup, analyzeMarkup, List.filter_append, closing, if_pos rfl,
    elementRules_default, check_filter, inspect_elementRules_filter, checksClosing_eq,
    selected_elementRules]

theorem analyzeStylesheet_eq_filter (c : Config) (text : List Char) :
    analyzeStylesheet c text = (analyzeStylesheet {} text).filter (c.runs ·.ruleId) := by
  rw [analyzeStylesheet, analyzeStylesheet, declarationRules_default,
    inspect_declarationRules_filter, selected_declarationRules]

/-! ### The report -/

theorem ruleId_mem_of_inspect_elements [Markup.PatternEngine] {rules : List Markup.ElementRule}
    {text : List Char} {root : Markup.Node} {i : MarkupIssue}
    (member : i ∈ Markup.inspect rules text root) : i.ruleId ∈ rules.map (·.id) := by
  obtain ⟨e, _, found⟩ := List.mem_flatMap.mp member
  obtain ⟨r, flagged, rfl⟩ := List.mem_map.mp found
  exact List.mem_map_of_mem (List.mem_filter.mp flagged).1

theorem ruleId_mem_of_inspect_declarations {rules : List Stylesheet.DeclarationRule}
    {ns : List Stylesheet.Node} {i : StylesheetIssue} (member : i ∈ Stylesheet.inspect rules ns) :
    i.ruleId ∈ rules.map (·.id) := by
  obtain ⟨d, _, found⟩ := List.mem_flatMap.mp member
  obtain ⟨r, flagged, rfl⟩ := List.mem_map.mp found
  exact List.mem_map_of_mem (List.mem_filter.mp flagged).1

theorem markup_ruleId_mem [Markup.PatternEngine] {c : Config} {text : List Char}
    {i : MarkupIssue} (member : i ∈ analyzeMarkup c text) : i.ruleId ∈ c.markupRules := by
  rw [analyzeMarkup] at member
  rcases List.mem_append.mp member with closing | element
  · split at closing
    · rename_i checks
      obtain ⟨⟨element, b⟩, _, rfl⟩ := List.mem_map.mp closing
      rw [Config.markupRules, if_pos checks]
      exact List.mem_cons_self
    · simp at closing
  · exact List.mem_append_right _ (ruleId_mem_of_inspect_elements element)

theorem stylesheet_ruleId_mem {c : Config} {text : List Char} {i : StylesheetIssue}
    (member : i ∈ analyzeStylesheet c text) : i.ruleId ∈ c.stylesheetRules :=
  ruleId_mem_of_inspect_declarations member

/-- A configuration filters the report of the default configuration, and the list of all rules by
the same test. -/
theorem analyze_eq_filter [Markup.PatternEngine] (c : Config) (markup stylesheet : List Char) :
    (analyze c markup stylesheet).markup =
        (analyze {} markup stylesheet).markup.filter (c.runs ·.ruleId) ∧
      (analyze c markup stylesheet).stylesheet =
        (analyze {} markup stylesheet).stylesheet.filter (c.runs ·.ruleId) ∧
      c.ruleIds = (allRules.map (·.id)).filter c.runs ∧
      (∀ i ∈ (analyze c markup stylesheet).markup, i.ruleId ∈ c.ruleIds) ∧
      ∀ i ∈ (analyze c markup stylesheet).stylesheet, i.ruleId ∈ c.ruleIds := by
  refine ⟨analyzeMarkup_eq_filter c markup, analyzeStylesheet_eq_filter c stylesheet,
    ruleIds_eq_filter c, ?_, ?_⟩
  · intro i member
    exact List.mem_append_left _ (markup_ruleId_mem member)
  · intro i member
    exact List.mem_append_right _ (stylesheet_ruleId_mem member)

end PageLint
