import PageLint.Proofs.Config.Layers

/-!
# Why a configuration file does not load

The files that a file builds on form a tree, and a place in it is a `Route`: which name was followed
at each file. Loading visits the places in lexicographic order, and `load_judged` says that it fails
exactly if some place fails, with the error of the first one. Files may build on each other in
circles: then the tree is infinite and there is a place that is too deep.
-/

namespace PageLint

namespace Config

inductive Holds (files : Files) (path : FilePath) (c : Config) : Prop
  | yaml {text} (read : files.read path = .ok text)
      (extension : path.extension? = some "yaml" ∨ path.extension? = some "yml")
      (parsed : (Yaml.parse? text).bind ofYaml? = some c)
  | json {text} (read : files.read path = .ok text) (extension : path.extension? = some "json")
      (parsed : (Json.read? (String.ofList text)).bind ofJson? = some c)

inductive Fault (files : Files) (path : FilePath) : ConfigError → Prop
  | unreadable {cause} (read : files.read path = .error cause) :
      Fault files path (.unreadable cause)
  | unsupported {text} (read : files.read path = .ok text)
      (extension : path.extension? ∉ [some "yaml", some "yml", some "json"]) :
      Fault files path (.unsupported (path.extension?.getD "") path)
  | yaml {text} (read : files.read path = .ok text)
      (extension : path.extension? = some "yaml" ∨ path.extension? = some "yml")
      (refused : (Yaml.parse? text).bind ofYaml? = none) : Fault files path .yaml
  | json {text} (read : files.read path = .ok text) (extension : path.extension? = some "json")
      (refused : (Json.read? (String.ofList text)).bind ofJson? = none) : Fault files path .json

/-- At each file on the way a position in the list of what it builds on. -/
abbrev Route := List Nat

inductive Leads (files : Files) : FilePath → Route → FilePath → Prop
  | here {path} : Leads files path [] path
  | on {path own i name route last} (holds : Holds files path own)
      (named : own.parents[i]? = some name) (no_preset : preset? name = none)
      (rest : Leads files (path.sibling name) route last) : Leads files path (i :: route) last

/-- A route from a file ends in a failure where at most `levels` files may follow in a row: the
file there is at fault, or it is one too many. -/
inductive Fails (files : Files) (levels : Nat) (path : FilePath) (route : Route) :
    ConfigError → Prop
  | fault {last e} (leads : Leads files path route last) (near : route.length < levels)
      (fault : Fault files last e) : Fails files levels path route e
  | tooDeep {last} (leads : Leads files path route last) (far : route.length = levels) :
      Fails files levels path route (.tooDeep last)

def FirstFailure (fails : Route → ConfigError → Prop) (e : ConfigError) : Prop :=
  ∃ route, fails route e ∧ ∀ other e', fails other e' → ¬ other < route

variable {files : Files} {path last : FilePath} {route : Route} {levels : Nat} {own c : Config}
  {e : ConfigError}

/-! ### One file -/

theorem ofFile_spec (files : Files) (path : FilePath) :
    (∃ c, ofFile files path = .ok c ∧ Holds files path c) ∨
      ∃ e, ofFile files path = .error e ∧ Fault files path e := by
  unfold ofFile
  cases read : files.read path with
  | error cause => exact .inr ⟨_, rfl, .unreadable read⟩
  | ok text =>
    dsimp only
    unfold ofText
    split
    next yaml =>
      cases parsed : (Yaml.parse? text).bind ofYaml? with
      | some c => exact .inl ⟨c, rfl, .yaml read (.inl yaml) parsed⟩
      | none => exact .inr ⟨_, rfl, .yaml read (.inl yaml) parsed⟩
    next yml =>
      cases parsed : (Yaml.parse? text).bind ofYaml? with
      | some c => exact .inl ⟨c, rfl, .yaml read (.inr yml) parsed⟩
      | none => exact .inr ⟨_, rfl, .yaml read (.inr yml) parsed⟩
    next json =>
      cases parsed : (Json.read? (String.ofList text)).bind ofJson? with
      | some c => exact .inl ⟨c, rfl, .json read json parsed⟩
      | none => exact .inr ⟨_, rfl, .json read json parsed⟩
    next no_yaml no_yml no_json =>
      refine .inr ⟨_, rfl, .unsupported read ?_⟩
      simp only [List.mem_cons, List.not_mem_nil, or_false, not_or]
      exact ⟨no_yaml, no_yml, no_json⟩

theorem Holds.ofFile_eq (holds : Holds files path c) : ofFile files path = .ok c := by
  cases holds with
  | yaml read extension parsed =>
    rcases extension with yaml | yml
    · simp only [ofFile, ofText, read, yaml, parsed]
    · simp only [ofFile, ofText, read, yml, parsed]
  | json read extension parsed => simp only [ofFile, ofText, read, extension, parsed]

theorem Fault.ofFile_eq (fault : Fault files path e) : ofFile files path = .error e := by
  cases fault with
  | unreadable read => simp only [ofFile, read]
  | unsupported read extension =>
    simp only [List.mem_cons, List.not_mem_nil, or_false, not_or] at extension
    obtain ⟨no_yaml, no_yml, no_json⟩ := extension
    simp only [ofFile, ofText, read]
  | yaml read extension refused =>
    rcases extension with yaml | yml
    · simp only [ofFile, ofText, read, yaml, refused]
    · simp only [ofFile, ofText, read, yml, refused]
  | json read extension refused => simp only [ofFile, ofText, read, extension, refused]

/-! ### Routes -/

theorem Leads.append {middle : FilePath} {rest : Route} (first : Leads files path route middle)
    (second : Leads files middle rest last) : Leads files path (route ++ rest) last := by
  induction first with
  | here => exact second
  | on holds named no_preset _ ih => exact .on holds named no_preset (ih second)

theorem Leads.take (leads : Leads files path route last) (n : Nat) :
    ∃ middle, Leads files path (route.take n) middle := by
  induction leads generalizing n with
  | here =>
    rw [List.take_nil]
    exact ⟨_, .here⟩
  | on holds named no_preset _ ih =>
    cases n with
    | zero => exact ⟨_, .here⟩
    | succ n =>
      obtain ⟨middle, front⟩ := ih n
      exact ⟨middle, .on holds named no_preset front⟩

theorem Leads.unique {other : FilePath} (first : Leads files path route last)
    (second : Leads files path route other) : last = other := by
  induction first with
  | here => cases second; rfl
  | on holds named _ _ ih =>
    cases second with
    | on holds' named' _ rest =>
      obtain rfl := Except.ok.inj (holds.ofFile_eq.symm.trans holds'.ofFile_eq)
      obtain rfl := Option.some.inj (named.symm.trans named')
      exact ih rest

/-- Going round in a circle makes routes as long as one likes. -/
theorem Leads.round {turn : Route} (leads : Leads files path turn path) (turns : Nat) :
    Leads files path (List.replicate turns turn).flatten path := by
  induction turns with
  | zero => exact .here
  | succ turns ih =>
    rw [List.replicate_succ, List.flatten_cons]
    exact leads.append ih

/-! ### Failures -/

theorem Fails.unique {e' : ConfigError} (first : Fails files levels path route e)
    (second : Fails files levels path route e') : e = e' := by
  cases first with
  | fault leads near fault =>
    cases second with
    | fault leads' _ fault' =>
      obtain rfl := leads.unique leads'
      exact Except.error.inj (fault.ofFile_eq.symm.trans fault'.ofFile_eq)
    | tooDeep _ far => omega
  | tooDeep leads far =>
    cases second with
    | fault _ near _ => omega
    | tooDeep leads' _ => rw [leads.unique leads']

theorem FirstFailure.unique {e' : ConfigError} (first : FirstFailure (Fails files levels path) e)
    (second : FirstFailure (Fails files levels path) e') : e = e' := by
  obtain ⟨route, fails, before⟩ := first
  obtain ⟨route', fails', before'⟩ := second
  obtain rfl : route = route' :=
    List.le_antisymm (List.not_lt.mp (before _ _ fails')) (List.not_lt.mp (before' _ _ fails))
  exact fails.unique fails'

theorem fails_zero : Fails files 0 path route e ↔ route = [] ∧ e = .tooDeep path := by
  constructor
  · intro fails
    cases fails with
    | fault _ near _ => omega
    | tooDeep leads far =>
      obtain rfl := List.eq_nil_of_length_eq_zero far
      cases leads
      exact ⟨rfl, rfl⟩
  · rintro ⟨rfl, rfl⟩
    exact .tooDeep .here rfl

theorem fails_of_fault {e' : ConfigError} (fault : Fault files path e) :
    Fails files (levels + 1) path route e' ↔ route = [] ∧ e' = e := by
  constructor
  · intro fails
    cases fails with
    | fault leads _ fault' =>
      cases leads with
      | here => exact ⟨rfl, Except.error.inj (fault'.ofFile_eq.symm.trans fault.ofFile_eq)⟩
      | on holds => cases holds.ofFile_eq.symm.trans fault.ofFile_eq
    | tooDeep leads far =>
      cases leads with
      | here => cases far
      | on holds => cases holds.ofFile_eq.symm.trans fault.ofFile_eq
  · rintro ⟨rfl, rfl⟩
    exact .fault .here (Nat.zero_lt_succ _) fault

/-- The failures on the routes that go on with one of several names in the file at `path`. -/
def FailsAmong (files : Files) (levels : Nat) (path : FilePath) (names : List String) (route : Route)
    (e : ConfigError) : Prop :=
  ∃ i name rest, route = i :: rest ∧ names[i]? = some name ∧ preset? name = none ∧
    Fails files levels (path.sibling name) rest e

theorem fails_of_holds (holds : Holds files path own) :
    Fails files (levels + 1) path route e ↔ FailsAmong files levels path own.parents route e := by
  constructor
  · intro fails
    cases fails with
    | fault leads near fault =>
      cases leads with
      | here => cases holds.ofFile_eq.symm.trans fault.ofFile_eq
      | on holds' named no_preset rest =>
        obtain rfl := Except.ok.inj (holds.ofFile_eq.symm.trans holds'.ofFile_eq)
        exact ⟨_, _, _, rfl, named, no_preset, .fault rest (Nat.lt_of_succ_lt_succ near) fault⟩
    | tooDeep leads far =>
      cases leads with
      | here => cases far
      | on holds' named no_preset rest =>
        obtain rfl := Except.ok.inj (holds.ofFile_eq.symm.trans holds'.ofFile_eq)
        exact ⟨_, _, _, rfl, named, no_preset, .tooDeep rest (Nat.succ.inj far)⟩
  · rintro ⟨i, name, rest, rfl, named, no_preset, fails⟩
    cases fails with
    | fault leads near fault =>
      exact .fault (.on holds named no_preset leads) (Nat.succ_lt_succ near) fault
    | tooDeep leads far => exact .tooDeep (.on holds named no_preset leads) (congrArg Nat.succ far)

/-! ### Loading -/

/-- An outcome is what the failures say: there are none, or it is the error of the first one. -/
def Judged (fails : Route → ConfigError → Prop) : Except ConfigError Config → Prop
  | .ok _ => ∀ route e, ¬ fails route e
  | .error e => FirstFailure fails e

theorem judged_congr {fails fails' : Route → ConfigError → Prop}
    (same : ∀ route e, fails route e ↔ fails' route e) {outcome : Except ConfigError Config}
    (judged : Judged fails outcome) : Judged fails' outcome := by
  have : fails = fails' := funext fun route => funext fun e => propext (same route e)
  rwa [← this]

theorem addLayer_outcome {below : LoadResult} (ok : below.outcome = .ok c)
    (next : Unit → LoadResult) :
    (below.addLayer next).outcome = (next ()).outcome.map c.merge := by
  unfold LoadResult.addLayer
  simp only [ok]

theorem addLayer_error {below : LoadResult} (error : below.outcome = .error e)
    (next : Unit → LoadResult) : (below.addLayer next).outcome = .error e := by
  unfold LoadResult.addLayer
  simp only [error]

theorem judged_addLayer {fails : Route → ConfigError → Prop} {below : LoadResult}
    (judged : Judged fails below.outcome) (top : Config) :
    Judged fails (below.addLayer fun _ => { outcome := .ok top }).outcome := by
  cases under : below.outcome with
  | ok b =>
    rw [under] at judged
    rw [addLayer_outcome under]
    exact judged
  | error e => rwa [addLayer_error under, ← under]

theorem layParents_error (loadFile : FilePath → LoadResult) {start : LoadResult}
    (error : start.outcome = .error e) (parents : List Parent) :
    (layParents loadFile parents start).outcome = .error e := by
  induction parents generalizing start with
  | nil => exact error
  | cons parent rest ih => exact ih (addLayer_error error _)

theorem failsAmong_cons {name : String} {rest : List String} :
    FailsAmong files levels path (name :: rest) route e ↔
      (∃ back, route = 0 :: back ∧ preset? name = none ∧
        Fails files levels (path.sibling name) back e) ∨
      ∃ i back, route = (i + 1) :: back ∧ FailsAmong files levels path rest (i :: back) e := by
  constructor
  · rintro ⟨i, found, back, rfl, named, no_preset, fails⟩
    cases i with
    | zero =>
      obtain rfl := Option.some.inj named
      exact .inl ⟨back, rfl, no_preset, fails⟩
    | succ i => exact .inr ⟨i, back, rfl, i, found, back, rfl, named, no_preset, fails⟩
  · rintro (⟨back, rfl, no_preset, fails⟩ | ⟨i, back, rfl, j, found, back', same, named, no_preset, fails⟩)
    · exact ⟨0, name, back, rfl, rfl, no_preset, fails⟩
    · obtain ⟨rfl, rfl⟩ := List.cons.inj same
      exact ⟨i + 1, found, back, rfl, named, no_preset, fails⟩

/-- A name under which nothing fails leaves the judgment to the names after it. -/
theorem judged_skip {name : String} {rest : List String} {outcome : Except ConfigError Config}
    (sound : preset? name = none → ∀ back e, ¬ Fails files levels (path.sibling name) back e)
    (judged : Judged (FailsAmong files levels path rest) outcome) :
    Judged (FailsAmong files levels path (name :: rest)) outcome := by
  cases outcome with
  | ok c =>
    intro route e among
    rcases failsAmong_cons.mp among with ⟨back, _, no_preset, fails⟩ | ⟨i, back, _, later⟩
    · exact sound no_preset back e fails
    · exact judged _ _ later
  | error e =>
    obtain ⟨route, among, before⟩ := judged
    obtain ⟨i, found, back, rfl, named, no_preset, fails⟩ := among
    refine ⟨(i + 1) :: back, ⟨i + 1, found, back, rfl, named, no_preset, fails⟩, ?_⟩
    intro other e' among' earlier
    rcases failsAmong_cons.mp among' with ⟨back', _, no_preset', fails'⟩ | ⟨j, back', rfl, later⟩
    · exact sound no_preset' back' e' fails'
    · refine before _ _ later ?_
      rw [List.cons_lt_cons_iff] at earlier ⊢
      rcases earlier with less | ⟨same, less⟩
      · exact .inl (Nat.lt_of_succ_lt_succ less)
      · exact .inr ⟨Nat.succ.inj same, less⟩

/-- A failure under a name decides before the names after it. -/
theorem judged_here {name : String} {rest : List String} (no_preset : preset? name = none)
    (judged : FirstFailure (Fails files levels (path.sibling name)) e) :
    FirstFailure (FailsAmong files levels path (name :: rest)) e := by
  obtain ⟨back, fails, before⟩ := judged
  refine ⟨0 :: back, failsAmong_cons.mpr (.inl ⟨back, rfl, no_preset, fails⟩), ?_⟩
  intro other e' among earlier
  rcases failsAmong_cons.mp among with ⟨back', rfl, _, fails'⟩ | ⟨j, back', rfl, _⟩
  · rw [List.cons_lt_cons_iff] at earlier
    rcases earlier with less | ⟨_, less⟩
    · omega
    · exact before _ _ fails' less
  · rw [List.cons_lt_cons_iff] at earlier
    omega

theorem layParents_judged {loadFile : FilePath → LoadResult}
    (judges : ∀ path, Judged (Fails files levels path) (loadFile path).outcome)
    (names : List String) {start : LoadResult} (ok : start.outcome = .ok c) :
    Judged (FailsAmong files levels path names)
      (layParents loadFile (names.map (Parent.ofName path)) start).outcome := by
  -- As long as no name has failed there is a configuration to lay the next one over.
  induction names generalizing start c with
  | nil =>
    rw [List.map_nil, layParents, List.foldl_nil, ok]
    rintro _ _ ⟨i, name, _, _, named, _⟩
    cases named
  | cons name rest ih =>
    rw [List.map_cons, layParents, List.foldl_cons]
    cases named : preset? name with
    | some preset =>
      simp only [Parent.ofName, named]
      refine judged_skip (fun no_preset => ?_) (ih (addLayer_outcome ok _))
      cases named.symm.trans no_preset
    | none =>
      simp only [Parent.ofName, named]
      have judged := judges (path.sibling name)
      cases parent : (loadFile (path.sibling name)).outcome with
      | ok top =>
        rw [parent] at judged
        have added := addLayer_outcome ok fun _ => loadFile (path.sibling name)
        rw [parent] at added
        exact judged_skip (fun _ => judged) (ih added)
      | error e =>
        rw [parent] at judged
        have added := addLayer_outcome ok fun _ => loadFile (path.sibling name)
        rw [parent] at added
        have failed := layParents_error loadFile added (rest.map (Parent.ofName path))
        rw [layParents] at failed
        rw [failed]
        exact judged_here named judged

theorem loadWithin_judged (levels : Nat) (path : FilePath) :
    Judged (Fails files levels path) (loadWithin files levels path).outcome := by
  induction levels generalizing path with
  | zero =>
    refine ⟨[], fails_zero.mpr ⟨rfl, rfl⟩, ?_⟩
    intro other _ _
    exact List.not_lt_nil other
  | succ levels ih =>
    rcases ofFile_spec files path with ⟨own, found, holds⟩ | ⟨e, found, fault⟩
    · rw [loadWithin_succ found, overParents]
      refine judged_addLayer ?_ _
      exact judged_congr (fun route e => (fails_of_holds holds).symm)
        (layParents_judged ih own.parents rfl)
    · unfold loadWithin
      simp only [found]
      refine ⟨[], (fails_of_fault fault).mpr ⟨rfl, rfl⟩, ?_⟩
      intro other _ _
      exact List.not_lt_nil other

theorem loadWithin_error_iff :
    (loadWithin files levels path).outcome = .error e ↔ FirstFailure (Fails files levels path) e := by
  have judged : Judged (Fails files levels path) _ := loadWithin_judged levels path
  constructor
  · intro error
    rwa [error] at judged
  · intro first
    cases outcome : (loadWithin files levels path).outcome with
    | ok c =>
      rw [outcome] at judged
      obtain ⟨route, fails, _⟩ := first
      exact absurd fails (judged route e)
    | error e' =>
      rw [outcome] at judged
      rw [judged.unique first]

theorem loadWithin_ok_iff :
    (∃ c, (loadWithin files levels path).outcome = .ok c) ↔
      ∀ route last, Leads files path route last →
        route.length < levels ∧ ∃ own, Holds files last own := by
  have judged : Judged (Fails files levels path) _ := loadWithin_judged levels path
  constructor
  · rintro ⟨c, ok⟩ route last leads
    rw [ok] at judged
    have near : route.length < levels := by
      by_contra far
      obtain ⟨middle, front⟩ := leads.take levels
      have far : (route.take levels).length = levels := List.length_take_of_le (by omega)
      exact judged _ _ (.tooDeep front far)
    refine ⟨near, ?_⟩
    rcases ofFile_spec files last with ⟨own, _, holds⟩ | ⟨e, _, fault⟩
    · exact ⟨own, holds⟩
    · exact absurd (.fault leads near fault) (judged route e)
  · intro sound
    cases outcome : (loadWithin files levels path).outcome with
    | ok c => exact ⟨c, rfl⟩
    | error e =>
      rw [outcome] at judged
      obtain ⟨route, fails, _⟩ := judged
      cases fails with
      | fault leads _ fault =>
        obtain ⟨own, holds⟩ := (sound _ _ leads).2
        cases holds.ofFile_eq.symm.trans fault.ofFile_eq
      | tooDeep leads far => exact absurd far (Nat.ne_of_lt (sound _ _ leads).1)

/-! ### Files out of reach -/

theorem layParents_congr {f g : FilePath → LoadResult} {names : List String}
    (same : ∀ name ∈ names, preset? name = none → f (path.sibling name) = g (path.sibling name))
    (start : LoadResult) :
    layParents f (names.map (Parent.ofName path)) start =
      layParents g (names.map (Parent.ofName path)) start := by
  induction names generalizing start with
  | nil => rfl
  | cons name rest ih =>
    have next := ih fun other member => same other (List.mem_cons_of_mem _ member)
    simp only [List.map_cons, layParents, List.foldl_cons] at next ⊢
    cases named : preset? name with
    | some preset =>
      simp only [Parent.ofName, named]
      exact next _
    | none =>
      simp only [Parent.ofName, named, same name List.mem_cons_self named]
      exact next _

/-- Only files that fewer than `levels` steps lead to are read. -/
theorem loadWithin_congr {files' : Files}
    (same : ∀ route last, Leads files path route last → route.length < levels →
      files'.read last = files.read last) :
    loadWithin files' levels path = loadWithin files levels path := by
  induction levels generalizing path with
  | zero => rfl
  | succ levels ih =>
    have read : ofFile files' path = ofFile files path := by
      unfold ofFile
      rw [same [] path .here (Nat.zero_lt_succ _)]
    rcases ofFile_spec files path with ⟨own, found, holds⟩ | ⟨e, found, _⟩
    · rw [loadWithin_succ found, loadWithin_succ (read.trans found), overParents, overParents,
        parentsIn, layParents_congr]
      intro name member no_preset
      refine ih fun route last leads near => ?_
      obtain ⟨i, _, named⟩ := List.mem_iff_getElem.mp member
      have named : own.parents[i]? = some name := List.getElem?_eq_some_iff.mpr ⟨_, named⟩
      exact same (i :: route) last (.on holds named no_preset leads) (Nat.succ_lt_succ near)
    · unfold loadWithin
      simp only [read, found]

/-- A configuration loads exactly if all routes from its file are short enough and lead to files
that hold a configuration. Otherwise the failure that comes first tells the error. So files that
build on each other in circles never load, and a file that is one too many is not even read. -/
theorem load_judged (files : Files) (path : FilePath) :
    ((∃ c, (load files path).outcome = .ok c) ↔
        ∀ route last, Leads files path route last →
          route.length < maxFilesInRow ∧ ∃ own, Holds files last own) ∧
      (∀ e, (load files path).outcome = .error e ↔
        FirstFailure (Fails files maxFilesInRow path) e) ∧
      (∀ route last i turn, Leads files path route last → Leads files last (i :: turn) last →
        ∃ e, (load files path).outcome = .error e) ∧
      ∀ files' : Files,
        (∀ route last, Leads files path route last → route.length < maxFilesInRow →
          files'.read last = files.read last) →
        load files' path = load files path := by
  refine ⟨loadWithin_ok_iff, fun e => loadWithin_error_iff, ?_, fun files' => loadWithin_congr⟩
  intro route last i turn leads circle
  cases outcome : (load files path).outcome with
  | error e => exact ⟨e, rfl⟩
  | ok c =>
    -- Going round so often makes a route that is too long, and there is none in what loads.
    have round := leads.append (circle.round maxFilesInRow)
    have near := (loadWithin_ok_iff.mp ⟨c, outcome⟩ _ _ round).1
    rw [List.length_append, List.length_flatten, List.map_replicate, List.sum_replicate_nat,
      List.length_cons] at near
    exact absurd near (by rw [Nat.mul_succ]; omega)

def loopFiles (read : FilePath → Except ReadError (List Char)) : Files where
  read path :=
    if path.text = "loop.yaml" then .ok "extends: [minimal, loop.yaml]\n".toList else read path

theorem loop_holds (read : FilePath → Except ReadError (List Char)) :
    Holds (loopFiles read) { text := "loop.yaml" } { parents := ["minimal", "loop.yaml"] } :=
  .yaml rfl (.inl (by decide +kernel)) (by decide +kernel)

theorem loop_sibling :
    FilePath.sibling { text := "loop.yaml" } "loop.yaml" = { text := "loop.yaml" } := by
  decide +kernel

theorem loop_leads_only {read : FilePath → Except ReadError (List Char)}
    (leads : Leads (loopFiles read) path route last) (start : path = { text := "loop.yaml" }) :
    last = { text := "loop.yaml" } := by
  induction leads with
  | here => exact start
  | on holds named no_preset _ ih =>
    subst start
    obtain rfl := Except.ok.inj (holds.ofFile_eq.symm.trans (loop_holds read).ofFile_eq)
    have listed := List.mem_of_getElem? named
    simp only [List.mem_cons, List.not_mem_nil, or_false] at listed
    rcases listed with rfl | rfl
    · cases no_preset
    · exact ih loop_sibling

theorem load_judged_loop :
    (∃ e, (load (loopFiles fun _ => .error .notFound) { text := "loop.yaml" }).outcome = .error e) ∧
      FirstFailure
        (Fails (loopFiles fun _ => .error .notFound) maxFilesInRow { text := "loop.yaml" })
        (.tooDeep { text := "loop.yaml" }) ∧
      load (loopFiles fun _ => .error .isDirectory) { text := "loop.yaml" } =
        load (loopFiles fun _ => .error .notFound) { text := "loop.yaml" } := by
  obtain ⟨-, errors, circles, reads⟩ :=
    load_judged (loopFiles fun _ => .error .notFound) { text := "loop.yaml" }
  have turn : Leads (loopFiles fun _ => .error .notFound) { text := "loop.yaml" } [1]
      { text := "loop.yaml" } := by
    refine .on (loop_holds _) rfl (by decide) ?_
    rw [loop_sibling]
    exact .here
  refine ⟨circles [] _ 1 [] .here turn, (errors _).mp (by decide +kernel), reads _ ?_⟩
  intro route last leads _
  rw [loop_leads_only leads rfl]
  rfl

end Config

end PageLint
