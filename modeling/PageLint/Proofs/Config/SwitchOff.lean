import PageLint.Proofs.Config.Layers
import PageLint.Proofs.Report.Selection
import PageLint.Proofs.Text.Start

/-!
# Rules that are switched off

A rule is switched off by any layer of a configuration file or by the command line, and nothing
switches it on again: `switched_off_for_good` says so for every place that has a say in what runs.
-/

namespace PageLint

namespace Config

def SwitchedOff (disabled ignore : List String) (id : String) : Prop :=
  id ∈ disabled ∨ ∃ start ∈ ignore, Text.lower start.toList <+: Text.lower id.toList

variable {c layer : Config} {id : String}

theorem switchedOff_append {disabled disabled' ignore ignore' : List String} :
    SwitchedOff (disabled ++ disabled') (ignore ++ ignore') id ↔
      SwitchedOff disabled ignore id ∨ SwitchedOff disabled' ignore' id := by
  simp only [SwitchedOff, List.mem_append]
  constructor
  · rintro ((named | named) | ⟨start, below | above, fits⟩)
    · exact .inl (.inl named)
    · exact .inr (.inl named)
    · exact .inl (.inr ⟨start, below, fits⟩)
    · exact .inr (.inr ⟨start, above, fits⟩)
  · rintro ((named | ⟨start, below, fits⟩) | (named | ⟨start, above, fits⟩))
    · exact .inl (.inl named)
    · exact .inr ⟨start, .inl below, fits⟩
    · exact .inl (.inr named)
    · exact .inr ⟨start, .inr above, fits⟩

theorem switchesOff_iff : c.switchesOff id = true ↔ SwitchedOff c.rules.disabled c.rules.ignore id := by
  simp only [switchesOff, anyStart, SwitchedOff, Bool.or_eq_true, List.contains_iff_mem,
    List.any_eq_true, Text.startsWith_iff]

theorem merge_switchesOff (below top : Config) :
    (below.merge top).switchesOff id = true ↔ below.switchesOff id = true ∨ top.switchesOff id = true := by
  simp only [switchesOff_iff]
  exact switchedOff_append

theorem override_switchesOff (o : Overrides) :
    (c.override o).switchesOff id = true ↔
      c.switchesOff id = true ∨ SwitchedOff o.disable o.ignore id := by
  simp only [switchesOff_iff]
  exact switchedOff_append

theorem foldl_switchesOff {layers : List Config} {below : Config}
    (off : below.switchesOff id = true ∨ ∃ layer ∈ layers, layer.switchesOff id = true) :
    (layers.foldl merge below).switchesOff id = true := by
  induction layers generalizing below with
  | nil =>
    rcases off with below | ⟨layer, member, _⟩
    · exact below
    · cases member
  | cons top rest ih =>
    refine ih ?_
    rw [merge_switchesOff]
    rcases off with below | ⟨layer, member, off⟩
    · exact .inl (.inl below)
    · rcases List.mem_cons.mp member with rfl | later
      · exact .inl (.inr off)
      · exact .inr ⟨layer, later, off⟩

/-! ### What does not run -/

theorem enablesRule_of_switchesOff (off : c.switchesOff id = true) : c.enablesRule id = false :=
  if_pos off

theorem runs_of_enablesRule (disabled : c.enablesRule id = false) : c.runs id = false := by
  rw [runs, disabled, Bool.false_and]

theorem no_issue_of_enablesRule [Markup.PatternEngine] (disabled : c.enablesRule id = false)
    (markup stylesheet : List Char) :
    (∀ i ∈ (analyze c markup stylesheet).markup, i.ruleId ≠ id) ∧
      ∀ i ∈ (analyze c markup stylesheet).stylesheet, i.ruleId ≠ id := by
  have idle := runs_of_enablesRule disabled
  simp only [analyze, analyzeMarkup_eq_filter c, analyzeStylesheet_eq_filter c, List.mem_filter]
  constructor
  · rintro i ⟨_, runs⟩ rfl
    cases runs.symm.trans idle
  · rintro i ⟨_, runs⟩ rfl
    cases runs.symm.trans idle

theorem not_mem_ruleIds_of_enablesRule (disabled : c.enablesRule id = false) : id ∉ c.ruleIds := by
  rw [ruleIds_eq_filter, List.mem_filter]
  rintro ⟨_, runs⟩
  cases runs.symm.trans (runs_of_enablesRule disabled)

/-- A rule that some layer of a configuration or the command line switches off never runs and
reports nothing, whatever else they say. -/
theorem switched_off_for_good [Markup.PatternEngine] (files : Files) (path : FilePath)
    (c : Config) (layers : List Config) (loaded : (load files path).outcome = .ok c)
    (row : FileLayers files path layers) (o : Overrides) (id : String)
    (off : (∃ layer ∈ layers, SwitchedOff layer.rules.disabled layer.rules.ignore id) ∨
      SwitchedOff o.disable o.ignore id) :
    (c.override o).enablesRule id = false ∧ id ∉ (c.override o).ruleIds ∧
      ∀ markup stylesheet,
        (∀ i ∈ (analyze (c.override o) markup stylesheet).markup, i.ruleId ≠ id) ∧
          ∀ i ∈ (analyze (c.override o) markup stylesheet).stylesheet, i.ruleId ≠ id := by
  have disabled : (c.override o).enablesRule id = false := by
    refine enablesRule_of_switchesOff ((override_switchesOff o).mpr ?_)
    rcases off with ⟨layer, member, off⟩ | off
    · rw [load_row row loaded]
      exact .inl (foldl_switchesOff (.inr ⟨layer, member, switchesOff_iff.mpr off⟩))
    · exact .inr off
  exact ⟨disabled, not_mem_ruleIds_of_enablesRule disabled, no_issue_of_enablesRule disabled⟩

def askingFiles : Files where
  read path :=
    match path.text with
    | "main.yaml" =>
      .ok "extends: [base.yaml]\nrules:\n  enabled: [html-lang, css-important]\n".toList
    | "base.yaml" => .ok "rules:\n  disabled: [html-lang]\n  ignore: [CSS-]\n".toList
    | _ => .error .notFound

def askingBase : Config where
  rules := { disabled := ["html-lang"], ignore := ["CSS-"] }

def askingMain : Config where
  parents := ["base.yaml"]
  rules := { enabled := ["html-lang", "css-important"] }

theorem switched_off_for_good_asking :
    ∃ c, (load askingFiles { text := "main.yaml" }).outcome = .ok c ∧
      c.rules.enabled = ["html-lang", "css-important"] ∧
      (c.override { select := some ["css-important"] }).enablesRule "css-important" = false ∧
      (c.override { ignore := ["html"] }).enablesRule "html-lang" = false := by
  have loaded : (load askingFiles { text := "main.yaml" }).outcome =
      .ok (askingBase.merge askingMain) := by decide +kernel
  have parsed : ofFile askingFiles { text := "main.yaml" } = .ok askingMain := by decide +kernel
  have parsed_base : ofFile askingFiles (FilePath.sibling { text := "main.yaml" } "base.yaml") =
      .ok askingBase := by
    decide +kernel
  have row := FileLayers.two parsed rfl (by decide) parsed_base rfl
  refine ⟨_, loaded, rfl, ?_, ?_⟩
  · refine (switched_off_for_good _ _ _ _ loaded row _ _ (.inl ?_)).1
    exact ⟨_, List.mem_cons_self, .inr ⟨"CSS-", List.mem_cons_self, by decide⟩⟩
  · refine (switched_off_for_good _ _ _ _ loaded row _ _ (.inr ?_)).1
    exact .inr ⟨"html", List.mem_cons_self, by decide⟩

end Config

end PageLint
