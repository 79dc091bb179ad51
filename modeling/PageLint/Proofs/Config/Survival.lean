import PageLint.Proofs.Config.Layers

/-!
# Settings below layers that leave them alone

A setting survives when the layers above the one that makes it cannot undo it by saying nothing.
`settings_survive` says so of all output settings. The engine settings do not survive: each layer
brings its own, written or not, so only those of the file itself count.
-/

namespace PageLint

namespace Config

variable {α : Type} {setting : Config → α} {files : Files}

/-- What a layer sets otherwise than by default is kept, unless a layer above does so too. -/
def Survives (files : Files) (setting : Config → α) : Prop :=
  ∀ path c below base above, (load files path).outcome = .ok c →
    FileLayers files path (below ++ base :: above) →
    setting base ≠ setting {} → (∀ top ∈ above, setting top = setting {}) → setting c = setting base

structure Layered (setting : Config → α) : Prop where
  keeps : ∀ below top, setting top = setting {} → setting (merge below top) = setting below
  wins : ∀ below top, setting top ≠ setting {} → setting (merge below top) = setting top

namespace Layered

theorem format : Layered (·.output.format) where
  keeps _ _ silent := if_pos silent
  wins _ _ set := if_neg set

theorem color : Layered (·.output.color) where
  keeps _ _ silent := if_pos silent
  wins _ _ set := if_neg set

/-- A flag is set by any layer. -/
theorem flag {flag : Config → Bool} (off : flag {} = false)
    (adds : ∀ below top, flag (merge below top) = (flag below || flag top)) : Layered flag where
  keeps below top silent := by rw [adds, silent, off, Bool.or_false]
  wins below top set := by
    have on : flag top = true := Bool.ne_false_iff.mp (off ▸ set)
    rw [adds, on, Bool.or_true]

theorem pretty : Layered (·.output.pretty) := flag rfl fun _ _ => rfl

theorem verbose : Layered (·.output.verbose) := flag rfl fun _ _ => rfl

theorem foldl_keeps (layered : Layered setting) {above : List Config}
    (silent : ∀ top ∈ above, setting top = setting {}) (base : Config) :
    setting (above.foldl merge base) = setting base := by
  induction above generalizing base with
  | nil => rfl
  | cons top rest ih =>
    have next := ih (fun other member => silent other (List.mem_cons_of_mem _ member)) (base.merge top)
    exact next.trans (layered.keeps base top (silent top List.mem_cons_self))

theorem survives (layered : Layered setting) : Survives files setting := by
  intro path c below base above loaded row set silent
  obtain rfl := load_row row loaded
  rw [List.foldl_append, List.foldl_cons, layered.foldl_keeps silent]
  exact layered.wins _ base set

end Layered

theorem merge_default (c : Config) : c.merge {} = { c with engine := {} } := by
  simp only [merge, List.isEmpty_nil, List.append_nil, Bool.or_false, if_true]

theorem load_engine {path : FilePath} {own c : Config} (parsed : ofFile files path = .ok own)
    (loaded : (load files path).outcome = .ok c) : c.engine = own.engine := by
  obtain ⟨layers, row, rfl⟩ := loadWithin_layers _ loaded
  cases row with
  | own parsed' parents =>
    obtain rfl := Except.ok.inj (parsed.symm.trans parsed')
    rw [List.foldl_append]
    rfl

/-- A layer that says nothing changes nothing but the engine settings. So the output settings of
every layer survive, and the engine settings are those that the file itself ends up with. -/
theorem settings_survive (files : Files) :
    (∀ c : Config, c.merge {} = { c with engine := {} }) ∧
      (∀ c : Config, c.merge {} = c ↔ c.engine.parallel = true) ∧
      Survives files (·.output.format) ∧ Survives files (·.output.color) ∧
      Survives files (·.output.pretty) ∧ Survives files (·.output.verbose) ∧
      ∀ path own c, ofFile files path = .ok own → (load files path).outcome = .ok c →
        c.engine = own.engine := by
  refine ⟨merge_default, ?_, Layered.format.survives, Layered.color.survives,
    Layered.pretty.survives, Layered.verbose.survives, fun _ _ _ => load_engine⟩
  intro c
  rw [merge_default]
  constructor
  · intro same
    rw [← same]
  · intro parallel
    obtain ⟨parents, ⟨engine⟩, output, rules, categories⟩ := c
    obtain rfl : engine = true := parallel
    rfl

def sequentialFiles : Files where
  read path :=
    match path.text with
    | "main.yaml" => .ok "extends: [base.yaml]\n".toList
    | "base.yaml" => .ok "engine:\n  parallel: false\noutput:\n  format: json\n".toList
    | _ => .error .notFound

def sequentialBase : Config where
  engine := { parallel := false }
  output := { format := .json }

theorem sequential_loaded :
    (load sequentialFiles { text := "main.yaml" }).outcome = .ok { output := { format := .json } } := by
  decide +kernel

theorem sequential_row :
    FileLayers sequentialFiles { text := "main.yaml" } ([] ++ sequentialBase :: [{}]) := by
  have parsed : ofFile sequentialFiles { text := "main.yaml" } = .ok { parents := ["base.yaml"] } := by
    decide +kernel
  have parsed_base : ofFile sequentialFiles (FilePath.sibling { text := "main.yaml" } "base.yaml") =
      .ok sequentialBase := by
    decide +kernel
  exact .two parsed rfl (by decide) parsed_base rfl

theorem settings_survive_sequential :
    ∃ c, (load sequentialFiles { text := "main.yaml" }).outcome = .ok c ∧
      c.output.format = sequentialBase.output.format ∧ c.engine = {} := by
  have parsed : ofFile sequentialFiles { text := "main.yaml" } = .ok { parents := ["base.yaml"] } := by
    decide +kernel
  obtain ⟨-, -, format, -, -, -, engine⟩ := settings_survive sequentialFiles
  refine ⟨_, sequential_loaded, ?_, engine _ _ _ parsed sequential_loaded⟩
  exact format _ _ [] sequentialBase [{}] sequential_loaded sequential_row (by decide) (by decide)

/-- Documents one after the other, asked for in a base file, are forgotten. -/
theorem parallel_does_not_survive :
    ¬ Survives sequentialFiles (·.engine.parallel) ∧ ¬ ∀ c : Config, c.merge {} = c := by
  constructor
  · intro survives
    have kept := survives _ _ [] sequentialBase [{}] sequential_loaded sequential_row
      (by decide) (by decide)
    cases kept
  · intro same
    have kept := congrArg (·.engine.parallel) (same sequentialBase)
    cases kept

end Config

end PageLint
