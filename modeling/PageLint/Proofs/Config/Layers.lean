import Mathlib.Control.Monad.Basic
import PageLint.Config.Load
import PageLint.Proofs.Config.Merge

/-!
# The layers of a configuration file

The files and presets that a file builds on form a tree. `FileLayers` reads the tree from the
bottom up as one row of layers, and `load_layers` says that loading lays this row over the
defaults.
-/

namespace PageLint

namespace Config

mutual

/-- The layers of a file: those of what it builds on, and its own settings on top. -/
inductive FileLayers (files : Files) : FilePath → List Config → Prop where
  | own {path own below} (parsed : ofFile files path = .ok own)
      (parents : ParentLayers files path own.parents below) :
      FileLayers files path (below ++ [{ own with parents := [] }])

inductive ParentLayers (files : Files) : FilePath → List String → List Config → Prop where
  | none {path} : ParentLayers files path [] []
  | preset {path name rest preset above} (named : preset? name = some preset)
      (others : ParentLayers files path rest above) :
      ParentLayers files path (name :: rest) (preset :: above)
  | file {path name rest below above} (no_preset : preset? name = .none)
      (parent : FileLayers files (path.sibling name) below)
      (others : ParentLayers files path rest above) :
      ParentLayers files path (name :: rest) (below ++ above)

end

variable {files : Files} {path : FilePath} {names : List String} {c : Config}

/-! ### One row for each file -/

theorem FileLayers.ne_nil {layers : List Config} (row : FileLayers files path layers) : layers ≠ [] := by
  cases row with
  | own parsed parents => exact List.append_ne_nil_of_right_ne_nil _ (List.cons_ne_nil _ _)

/-- The layers of a file that builds on one other file, which builds on nothing. -/
theorem FileLayers.two {own below : Config} {name : String} (parsed : ofFile files path = .ok own)
    (one : own.parents = [name]) (no_preset : preset? name = none)
    (parsed_below : ofFile files (path.sibling name) = .ok below) (alone : below.parents = []) :
    FileLayers files path [{ below with parents := [] }, { own with parents := [] }] := by
  have bottom : FileLayers files (path.sibling name) ([] ++ [{ below with parents := [] }]) :=
    .own parsed_below (alone ▸ .none)
  have parents : ParentLayers files path own.parents [{ below with parents := [] }] := by
    rw [one]
    exact .file no_preset bottom .none
  exact .own parsed parents

mutual

theorem FileLayers.unique {path first} : FileLayers files path first →
    ∀ {second}, FileLayers files path second → first = second
  | .own parsed parents, _, .own parsed' parents' => by
    have same := Except.ok.inj (parsed'.symm.trans parsed)
    rw [same] at parents' ⊢
    rw [parents.unique parents']

theorem ParentLayers.unique {path names first} : ParentLayers files path names first →
    ∀ {second}, ParentLayers files path names second → first = second
  | .none, _, .none => rfl
  | .preset named others, _, .preset named' others' => by
    have same := Option.some.inj (named.symm.trans named')
    rw [same, others.unique others']
  | .preset named _, _, .file no_preset _ _ => by
    rw [named] at no_preset
    cases no_preset
  | .file no_preset _ _, _, .preset named _ => by
    rw [no_preset] at named
    cases named
  | .file _ parent others, _, .file _ parent' others' => by
    rw [parent.unique parent', others.unique others']

end

/-! ### Loading -/

theorem addLayer_ok {below : LoadResult} {next : Unit → LoadResult}
    (added : (below.addLayer next).outcome = .ok c) :
    ∃ b top, below.outcome = .ok b ∧ (next ()).outcome = .ok top ∧ c = b.merge top := by
  unfold LoadResult.addLayer at added
  cases under : below.outcome with
  | error e =>
    rw [under] at added
    cases under.symm.trans added
  | ok b =>
    rw [under] at added
    cases upper : (next ()).outcome with
    | error e =>
      simp only [upper] at added
      cases added
    | ok top =>
      simp only [upper] at added
      exact ⟨b, top, rfl, rfl, (Except.ok.inj added).symm⟩

/-- A file that builds on nothing needs no way of its own. -/
theorem loadWithin_succ {own : Config} (parsed : ofFile files path = .ok own) (levels : Nat) :
    loadWithin files (levels + 1) path = own.overParents (loadWithin files levels) path := by
  unfold loadWithin
  simp only [parsed]
  by_cases alone : own.parents.isEmpty = true
  · rw [if_pos alone]
    have none := List.isEmpty_iff.mp alone
    simp only [overParents, parentsIn, none, List.map_nil, layParents, List.foldl_nil,
      LoadResult.addLayer, Except.map, merge_own, default_merge, List.append_nil]
  · rw [if_neg alone]

def LoadsLayers (files : Files) (loadFile : FilePath → LoadResult) : Prop :=
  ∀ {path c}, (loadFile path).outcome = .ok c →
    ∃ layers, FileLayers files path layers ∧ c = layers.foldl merge {}

theorem layParents_ok {loadFile : FilePath → LoadResult} (loads : LoadsLayers files loadFile)
    {start : LoadResult}
    (laid : (layParents loadFile (names.map (Parent.ofName path)) start).outcome = .ok c) :
    ∃ b layers, start.outcome = .ok b ∧ ParentLayers files path names layers ∧
      c = layers.foldl merge b := by
  induction names generalizing start with
  | nil => exact ⟨c, [], laid, .none, rfl⟩
  | cons name rest ih =>
    obtain ⟨middle, above, added, others, rfl⟩ := ih laid
    obtain ⟨b, top, under, parent, rfl⟩ := addLayer_ok added
    cases named : preset? name with
    | some preset =>
      simp only [Parent.ofName, named, Except.ok.injEq] at parent
      subst parent
      exact ⟨b, _, under, .preset named others, rfl⟩
    | none =>
      simp only [Parent.ofName, named] at parent
      obtain ⟨layers, row, rfl⟩ := loads parent
      refine ⟨b, layers ++ above, under, .file named row others, ?_⟩
      rw [merge_row row.ne_nil, List.foldl_append]

theorem overParents_ok {loadFile : FilePath → LoadResult} (loads : LoadsLayers files loadFile)
    {own : Config} (parsed : ofFile files path = .ok own)
    (loaded : (own.overParents loadFile path).outcome = .ok c) :
    ∃ layers, FileLayers files path layers ∧ c = layers.foldl merge {} := by
  obtain ⟨b, top, base, own_top, rfl⟩ := addLayer_ok loaded
  obtain ⟨bottom, below, start, parents, rfl⟩ := layParents_ok loads base
  cases start
  cases own_top
  refine ⟨_, .own parsed parents, ?_⟩
  rw [List.foldl_append]
  rfl

theorem loadWithin_layers (levels : Nat) : LoadsLayers files (loadWithin files levels) := by
  induction levels with
  | zero =>
    intro path c loaded
    cases loaded
  | succ levels ih =>
    intro path c loaded
    cases parsed : ofFile files path with
    | error e =>
      unfold loadWithin at loaded
      simp only [parsed] at loaded
      cases loaded
    | ok own =>
      rw [loadWithin_succ parsed] at loaded
      exact overParents_ok ih parsed loaded

theorem load_row {layers : List Config} (row : FileLayers files path layers)
    (loaded : (load files path).outcome = .ok c) : c = layers.foldl merge {} := by
  obtain ⟨others, other_row, rfl⟩ := loadWithin_layers _ loaded
  rw [row.unique other_row]

/-- A file that loads has one row of layers, and its configuration is the row laid over the
defaults. Nothing else of the tree matters: another file with the same row loads the same, and a
file that builds on nothing is read like any other. -/
theorem load_layers (files : Files) (path : FilePath) (c : Config)
    (loaded : (load files path).outcome = .ok c) :
    ∃ layers, FileLayers files path layers ∧
      (∀ other, FileLayers files path other → other = layers) ∧
      c = layers.foldl merge {} ∧
      c.parents = [] ∧
      (∀ (files' : Files) (path' : FilePath) (c' : Config),
        (load files' path').outcome = .ok c' → FileLayers files' path' layers → c' = c) ∧
      ∀ (levels : Nat) (path' : FilePath) (own : Config), ofFile files path' = .ok own →
        loadWithin files (levels + 1) path' = own.overParents (loadWithin files levels) path' := by
  obtain ⟨layers, row, rfl⟩ := loadWithin_layers _ loaded
  refine ⟨layers, row, ?_, rfl, foldl_merge_parents layers {}, ?_, ?_⟩
  · intro other other_row
    exact other_row.unique row
  · intro files' path' c' loaded' row'
    obtain ⟨layers', own_row, rfl⟩ := loadWithin_layers _ loaded'
    rw [own_row.unique row']
  · intro levels path' own parsed
    exact loadWithin_succ parsed levels

/-- `site/main.yaml` builds on a preset and twice on `site/base.yaml`: by itself, and by way of a
file in another directory. -/
def siteFiles : Files where
  read path :=
    match path.text with
    | "site/main.yaml" => .ok "extends: [minimal, ./base.yaml, more/print.yaml]\n".toList
    | "site/more/print.yaml" => .ok "extends: [../base.yaml]\noutput:\n  format: json\n".toList
    | "site/./base.yaml" | "site/more/../base.yaml" => .ok "rules:\n  disabled: [tag]\n".toList
    | _ => .error .notFound

def siteConfig : Config where
  output := { format := .json }
  rules := { disabled := ["tag", "tag"] }
  categories := [.correctness]

theorem load_layers_site :
    (load siteFiles { text := "site/main.yaml" }).outcome = .ok siteConfig ∧
      ∃ layers, FileLayers siteFiles { text := "site/main.yaml" } layers ∧
        layers.foldl merge {} = siteConfig := by
  have loaded : (load siteFiles { text := "site/main.yaml" }).outcome = .ok siteConfig := by
    decide +kernel
  obtain ⟨layers, row, -, laid, -⟩ := load_layers _ _ _ loaded
  exact ⟨loaded, layers, row, laid.symm⟩

end Config

end PageLint
