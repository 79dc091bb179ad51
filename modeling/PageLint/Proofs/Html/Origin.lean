import PageLint.Proofs.Html.Nodes
import PageLint.Proofs.Html.Simulation.Reading

/-!
# Where elements come from

What holds of all elements that start tags ask for, and is kept by the few changes that reading
makes to names and attributes, holds of all elements of a page: `each_readAll`. The proof is a
simulation of a builder by itself.
-/

namespace PageLint.Html

theorem map_rename_self (stack : List Open) : stack.map (Open.rename id) = stack :=
  List.map_id'' (fun _ => rfl) stack

theorem map_formatting_self (formatting : List Formatting) :
    formatting.map (Formatting.rename id) = formatting :=
  List.map_id'' (fun f => by cases f <;> rfl) formatting

def NodeData.Meets (ok : String → List Attribute → Prop) : NodeData → Prop
  | .element name attributes => ok name.name attributes
  | _ => True

/-- Whether elements still meet a condition with the attributes of a later `html` or `body` tag. -/
def Merges (ok : String → List Attribute → Prop) : Prop :=
  ∀ name old other new p, ok name old → ok other new → other = "html" ∨ other = "body" →
    ok name (old ++ new.filter p)

namespace Builder

/-- Whether all elements of a builder, and the tags of its formatting, meet a condition. -/
structure Sound (ok : String → List Attribute → Prop) (b : Builder) : Prop where
  nodes : b.dom.Each (·.Meets ok)
  tagged : ∀ n tag, .element n tag ∈ b.formatting →
    ok tag.name tag.attributes ∧ tag.name ∈ formattingNames

variable {ok : String → List Attribute → Prop} {b c : Builder}

theorem SameNodes.eq (nodes : SameNodes b c) (settings : SameSettings b c) : c = b := by
  obtain ⟨h1, h2, h3, h4, h5⟩ := nodes
  obtain ⟨s1, s2, s3, s4, s5, s6, s7, s8, s9⟩ := settings
  cases b
  cases c
  simp_all

theorem each_create {dom : Dom} (name : ElementName) {attributes : List Attribute}
    (each : dom.Each (·.Meets ok)) (good : ok name.name attributes) :
    (create dom name attributes).Each (·.Meets ok) := by
  have added : (dom.add (.element name attributes)).Each (·.Meets ok) := each.add _ good
  rw [create]
  split
  · exact (added.add .fragment trivial).append _ _
  · exact added

theorem each_addAttributes {dom : Dom} {n : NodeId} {other : String} {new : List Attribute}
    (merges : Merges ok) (each : dom.Each (·.Meets ok)) (good : ok other new)
    (root : other = "html" ∨ other = "body") :
    (dom.addAttributes n new).Each (·.Meets ok) := by
  refine each.change fun e holds => ?_
  split
  · rename_i name old data
    rw [data] at holds
    exact merges _ _ _ _ _ holds good root
  · exact holds

theorem Sound.copyBetween {s : Copying} (sound : s.builder.Sound ok) (count : Nat) (o : Open) :
    (copyBetween s count o).builder.Sound ok := by
  unfold Builder.copyBetween
  dsimp only
  split
  · rename_i n tag found
    have entry := sound.tagged n tag (List.mem_of_find?_eq_some found)
    split
    · exact ⟨sound.nodes, fun m old member =>
        sound.tagged m old (List.mem_filter.mp member).1⟩
    · refine ⟨((each_create _ sound.nodes entry.1).detach _).append _ _, ?_⟩
      intro m old member
      obtain ⟨f, present, replaced⟩ := List.mem_map.mp member
      split at replaced
      · cases replaced
        exact entry
      · exact sound.tagged m old (replaced ▸ present)
  · exact sound

theorem Sound.copyAllBetween {s : Copying} (sound : s.builder.Sound ok) (count : Nat)
    (between : List Open) : (copyAllBetween s count between).builder.Sound ok := by
  induction between generalizing s count with
  | nil => exact sound
  | cons o outer ih => exact ih (sound.copyBetween count o) (count + 1)

theorem Sound.adopt (sound : b.Sound ok) {tag : Tag} {element : Open}
    (entry : .element element.id tag ∈ b.formatting) (above : List Open) (block : Open)
    (between : List Open) (ancestor : Open) (below : List Open) :
    (b.adopt element tag above block between ancestor below).Sound ok := by
  have copied := Sound.copyAllBetween (s := { builder := b, last := block.id }) sound 1 between
  have good := sound.tagged _ _ entry
  unfold Builder.adopt
  refine ⟨?_, ?_⟩
  · exact ((each_create _ ((copied.nodes.detach _).put _ _) good.1).moveChildren _ _).append _ _
  · intro n old member
    rcases mem_replaceFormatting member with same | member
    · cases same
      exact good
    · exact copied.tagged n old member

theorem Sound.insert (sound : b.Sound ok) (space : Space) {tag : Tag}
    (good : ok tag.name tag.attributes) : (b.insert space tag).Sound ok :=
  ⟨(each_create ⟨space, tag.name⟩ sound.nodes good).put _ _, sound.tagged⟩

/-- A builder simulates itself as long as its elements meet a condition. -/
theorem soundSimulation (admits : Admits ok) (merges : Merges ok) :
    Simulation id ok fun b b' => b' = b ∧ b.Sound ok where
  admits := admits
  injective := Function.injective_id
  document := rfl
  alike := by
    rintro b _ ⟨rfl, -⟩
    exact ⟨(map_rename_self _).symm, (map_formatting_self _).symm, Option.map_id_apply.symm,
      Option.map_id_apply.symm, rfl, ⟨rfl, rfl, rfl, rfl, rfl, rfl, rfl, rfl, rfl⟩⟩
  tagged := fun ⟨_, sound⟩ member => sound.tagged _ _ member
  settings := by
    rintro b _ c c' ⟨rfl, sound⟩ nodes nodes' settings
    refine ⟨?_, ?_⟩
    · exact SameNodes.eq ⟨nodes'.dom.trans nodes.dom.symm, nodes'.stack.trans nodes.stack.symm,
        nodes'.formatting.trans nodes.formatting.symm, nodes'.head.trans nodes.head.symm,
        nodes'.form.trans nodes.form.symm⟩ settings
    · exact ⟨nodes.dom ▸ sound.nodes, nodes.formatting ▸ sound.tagged⟩
  shrink := by
    rintro b _ stack ⟨rfl, sound⟩ _
    exact ⟨by rw [map_rename_self], sound.nodes, sound.tagged⟩
  format := by
    rintro b _ formatting ⟨rfl, sound⟩ known
    refine ⟨by rw [map_formatting_self], sound.nodes, ?_⟩
    intro n tag member
    rcases known _ member with present | ⟨good, listed, _⟩
    · exact sound.tagged n tag present
    · exact ⟨good, listed⟩
  form := by
    rintro b _ form ⟨rfl, sound⟩
    exact ⟨by rw [Option.map_id_apply], sound.nodes, sound.tagged⟩
  head := by
    rintro b _ o ⟨rfl, sound⟩ _
    exact ⟨rfl, sound.nodes, sound.tagged⟩
  headAgain := by
    rintro b _ n ⟨rfl, sound⟩ _
    exact ⟨rfl, sound.nodes, sound.tagged⟩
  insert := by
    rintro b _ space tag ⟨rfl, sound⟩ good
    exact ⟨rfl, sound.insert space good⟩
  createRoot := by
    rintro b _ attributes ⟨rfl, sound⟩ good
    exact ⟨rfl, (each_create ⟨.html, "html"⟩ sound.nodes good).append _ _, sound.tagged⟩
  insertChar := by
    rintro b _ c ⟨rfl, sound⟩
    exact ⟨rfl, sound.nodes.putChar (fun _ => trivial) c _, sound.tagged⟩
  insertComment := by
    rintro b _ text ⟨rfl, sound⟩
    exact ⟨rfl, (sound.nodes.add (.comment text) trivial).put _ _, sound.tagged⟩
  commentIn := by
    rintro b _ n text ⟨rfl, sound⟩ _
    exact ⟨rfl, (sound.nodes.add (.comment text) trivial).append _ _, sound.tagged⟩
  doctype := by
    rintro b _ name ⟨rfl, sound⟩
    exact ⟨rfl, (sound.nodes.add (.doctype name) trivial).append _ _, sound.tagged⟩
  merge := by
    rintro b _ o name attributes ⟨rfl, sound⟩ _ good root
    exact ⟨rfl, each_addAttributes merges sound.nodes good root, sound.tagged⟩
  detach := by
    rintro b _ o ⟨rfl, sound⟩ _
    exact ⟨rfl, sound.nodes.detach _, sound.tagged⟩
  adopt := by
    rintro b _ tag element block ancestor above between below ⟨rfl, sound⟩ entry _
    refine ⟨?_, sound.adopt entry above block between ancestor below⟩
    rw [map_rename_self, map_rename_self, map_rename_self]
    rfl

/-- A condition that all start tags of a text meet holds of all elements that reading it makes. -/
theorem each_readAll (admits : Admits ok) (merges : Merges ok) {text : List Char}
    (admitted : ∀ t, ComesToToken {} text t → t.Admitted ok) :
    (Builder.readAll {} text).dom.Each (·.Meets ok) := by
  have start : Sound ok {} := by
    refine ⟨?_, fun n tag member => (by cases member)⟩
    intro n e found
    cases n with
    | zero =>
      cases found
      trivial
    | succ n => cases found
  exact ((soundSimulation admits merges).readAll ⟨rfl, start⟩ admitted).2.nodes

end Builder

end PageLint.Html
