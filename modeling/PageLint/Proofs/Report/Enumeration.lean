/-!
# Enumerations by key

A list enumerates what there is at the keys of some order, if it holds all of it, once for each key,
in the order of the keys. Enumerations of the parts of a whole make one of the whole.
-/

namespace PageLint

/-- `found` is all that there is at some key, once for each key, in the order of the keys. -/
def Enumerates {κ β : Type} (before : κ → κ → Prop) (at_key : κ → β → Prop) (found : List β) :
    Prop :=
  ∃ entries : List (κ × β), entries.map Prod.snd = found ∧
    entries.Pairwise (fun x y => before x.1 y.1) ∧ ∀ k b, (k, b) ∈ entries ↔ at_key k b

namespace Enumerates

variable {κ ι β γ : Type} {before : κ → κ → Prop} {within : ι → ι → Prop}
  {at_key other : κ → β → Prop} {found later : List β}

theorem nil : Enumerates before (fun _ (_ : β) => False) [] :=
  ⟨[], rfl, .nil, fun _ _ => ⟨nofun, False.elim⟩⟩

theorem congr (all : Enumerates before at_key found) (same : ∀ k b, at_key k b ↔ other k b) :
    Enumerates before other found := by
  obtain ⟨entries, values, order, member_iff⟩ := all
  exact ⟨entries, values, order, fun k b => (member_iff k b).trans (same k b)⟩

theorem cons {k : κ} {b : β} (all : Enumerates before at_key found)
    (first : ∀ k' b', at_key k' b' → before k k') :
    Enumerates before (fun k' b' => (k' = k ∧ b' = b) ∨ at_key k' b') (b :: found) := by
  obtain ⟨entries, rfl, order, member_iff⟩ := all
  refine ⟨(k, b) :: entries, rfl, List.pairwise_cons.mpr ⟨?_, order⟩, fun k' b' => ?_⟩
  · rintro ⟨k', b'⟩ member
    exact first k' b' ((member_iff k' b').mp member)
  · rw [List.mem_cons, Prod.mk.injEq, member_iff]

theorem append (front : Enumerates before at_key found) (back : Enumerates before other later)
    (apart : ∀ k b k' b', at_key k b → other k' b' → before k k') :
    Enumerates before (fun k b => at_key k b ∨ other k b) (found ++ later) := by
  obtain ⟨entries, rfl, order, member_iff⟩ := front
  obtain ⟨entries', rfl, order', member_iff'⟩ := back
  refine ⟨entries ++ entries', List.map_append, List.pairwise_append.mpr ⟨order, order', ?_⟩,
    fun k b => ?_⟩
  · rintro ⟨k, b⟩ member ⟨k', b'⟩ member'
    exact apart k b k' b' ((member_iff k b).mp member) ((member_iff' k' b').mp member')
  · rw [List.mem_append, member_iff, member_iff']

/-- Keys may be renamed, if their order is kept. -/
theorem rename {after : ι → ι → Prop} (all : Enumerates before at_key found) (name : κ → ι)
    (keeps : ∀ k b k' b', at_key k b → at_key k' b' → before k k' → after (name k) (name k')) :
    Enumerates after (fun i b => ∃ k, name k = i ∧ at_key k b) found := by
  obtain ⟨entries, rfl, order, member_iff⟩ := all
  refine ⟨entries.map fun entry => (name entry.1, entry.2), ?_, ?_, fun i b => ?_⟩
  · rw [List.map_map]
    rfl
  · refine List.pairwise_map.mpr (order.imp_of_mem ?_)
    rintro ⟨k, b⟩ ⟨k', b'⟩ member member' first
    exact keeps k b k' b' ((member_iff k b).mp member) ((member_iff k' b').mp member') first
  · simp only [List.mem_map, Prod.mk.injEq, Prod.exists]
    constructor
    · rintro ⟨k, b, member, rfl, rfl⟩
      exact ⟨k, rfl, (member_iff k b).mp member⟩
    · rintro ⟨k, rfl, here⟩
      exact ⟨k, b, (member_iff k b).mpr here, rfl, rfl⟩

/-- What several enumerations give one after the other is ordered by the outer key first. -/
theorem flatMap {gives : β → List γ} {at_part : β → ι → γ → Prop}
    (all : Enumerates before at_key found)
    (parts : ∀ b, Enumerates within (at_part b) (gives b)) :
    Enumerates (Prod.Lex before within)
      (fun key c => ∃ b, at_key key.1 b ∧ at_part b key.2 c) (found.flatMap gives) := by
  obtain ⟨entries, rfl, order, member_iff⟩ := all
  obtain ⟨inner, parts⟩ := Classical.axiomOfChoice parts
  refine ⟨entries.flatMap fun entry => (inner entry.2).map fun part =>
    ((entry.1, part.1), part.2), ?_, ?_, ?_⟩
  · rw [List.map_flatMap, List.flatMap_map]
    refine congrArg (entries.flatMap ·) (funext fun entry => ?_)
    rw [List.map_map, ← (parts entry.2).1]
    rfl
  · refine List.pairwise_flatMap.mpr ⟨fun entry _ => ?_, order.imp ?_⟩
    · exact List.pairwise_map.mpr ((parts entry.2).2.1.imp fun first => .right _ first)
    · intro x y first p inX q inY
      obtain ⟨part, _, rfl⟩ := List.mem_map.mp inX
      obtain ⟨part', _, rfl⟩ := List.mem_map.mp inY
      exact .left _ _ first
  · rintro ⟨k, i⟩ c
    simp only [List.mem_flatMap, List.mem_map, Prod.exists, Prod.mk.injEq]
    constructor
    · rintro ⟨k', b, member, i', c', part, ⟨rfl, rfl⟩, rfl⟩
      exact ⟨b, (member_iff k' b).mp member, ((parts b).2.2 i' c').mp part⟩
    · rintro ⟨b, here, part⟩
      exact ⟨k, b, (member_iff k b).mpr here, i, c, ((parts b).2.2 i c).mpr part, ⟨rfl, rfl⟩, rfl⟩

theorem filterMap (all : Enumerates before at_key found) (f : β → Option γ) :
    Enumerates before (fun k c => ∃ b, at_key k b ∧ f b = some c) (found.filterMap f) := by
  obtain ⟨entries, rfl, order, member_iff⟩ := all
  refine ⟨entries.filterMap fun entry => (f entry.2).map (entry.1, ·), ?_, ?_, fun k c => ?_⟩
  · rw [List.map_filterMap, List.filterMap_map]
    refine congrArg (entries.filterMap ·) (funext fun entry => ?_)
    rw [Option.map_map]
    exact Option.map_id'
  · refine order.filterMap _ fun x y first entry made entry' made' => ?_
    obtain ⟨c, _, rfl⟩ := Option.map_eq_some_iff.mp made
    obtain ⟨c', _, rfl⟩ := Option.map_eq_some_iff.mp made'
    exact first
  · simp only [List.mem_filterMap, Option.map_eq_some_iff, Prod.exists, Prod.mk.injEq]
    constructor
    · rintro ⟨k, b, member, c, made, rfl, rfl⟩
      exact ⟨b, (member_iff k b).mp member, made⟩
    · rintro ⟨b, here, made⟩
      exact ⟨k, b, (member_iff k b).mpr here, c, made, rfl, rfl⟩

theorem filter (all : Enumerates before at_key found) (keeps : β → Bool) :
    Enumerates before (fun k b => at_key k b ∧ keeps b = true) (found.filter keeps) := by
  rw [← List.filterMap_eq_filter]
  refine (all.filterMap _).congr fun k b => ?_
  simp [Option.guard]

theorem map (all : Enumerates before at_key found) (f : β → γ) :
    Enumerates before (fun k c => ∃ b, at_key k b ∧ f b = c) (found.map f) := by
  rw [← List.filterMap_eq_map]
  refine (all.filterMap _).congr fun k c => ?_
  simp

theorem indices (found : List β) :
    Enumerates (fun i j : Nat => i < j) (fun i b => found[i]? = some b) found := by
  refine ⟨found.zipIdx.map Prod.swap, ?_, ?_, fun i b => ?_⟩
  · rw [List.map_map]
    exact List.zipIdx_map_fst 0 found
  · have order : (found.zipIdx.map Prod.snd).Pairwise (· < ·) := by
      rw [List.zipIdx_map_snd]
      exact List.pairwise_lt_range'
    exact List.pairwise_map.mpr (List.pairwise_map.mp order)
  · simp only [List.mem_map, Prod.exists, Prod.swap_prod_mk, Prod.mk.injEq]
    constructor
    · rintro ⟨b, i, member, rfl, rfl⟩
      exact List.mem_zipIdx_iff_getElem?.mp member
    · intro here
      exact ⟨b, i, List.mem_zipIdx_iff_getElem?.mpr here, rfl, rfl⟩

end Enumerates

end PageLint
