import PageLint.Config.Basic

/-!
# Laying configurations over each other

`Config.merge` is associative, and the defaults below a configuration add nothing to it. On top
they do, for they bring their engine settings along: so a row of configurations can be laid over
another one in one piece only if it is not empty.
-/

namespace PageLint

namespace Config

/-! ### Two layers -/

/-- A value that gives way to the one below whenever it is unset does so in any grouping. -/
theorem unset_assoc {α : Type} (unset : α → Prop) [DecidablePred unset] (x y z : α) :
    (if unset z then (if unset y then x else y) else z) =
      if unset (if unset z then y else z) then x else (if unset z then y else z) := by
  by_cases is_unset : unset z
  · rw [if_pos is_unset, if_pos is_unset]
  · rw [if_neg is_unset, if_neg is_unset, if_neg is_unset]

/-- Over the default it is kept even when unset. -/
theorem unset_default {α : Type} (unset : α → Prop) [DecidablePred unset] {default : α}
    (only : ∀ {x}, unset x → x = default) (x : α) : (if unset x then default else x) = x := by
  by_cases is_unset : unset x
  · rw [if_pos is_unset, only is_unset]
  · rw [if_neg is_unset]

theorem merge_assoc (a b c : Config) : (a.merge b).merge c = a.merge (b.merge c) := by
  have format := unset_assoc (· = OutputFormat.text) a.output.format b.output.format c.output.format
  have color := unset_assoc (· = ColorMode.auto) a.output.color b.output.color c.output.color
  have enabled := unset_assoc (·.isEmpty = true) a.rules.enabled b.rules.enabled c.rules.enabled
  have categories := unset_assoc (·.isEmpty = true) a.categories b.categories c.categories
  simp only [merge, mk.injEq, OutputSettings.mk.injEq, RuleSelection.mk.injEq, true_and]
  refine ⟨⟨format, color, Bool.or_assoc _ _ _, Bool.or_assoc _ _ _⟩, ⟨?_, enabled, ?_, ?_⟩, categories⟩
  · exact List.append_assoc _ _ _
  · exact List.append_assoc _ _ _
  · exact List.append_assoc _ _ _

theorem merge_parents (below top : Config) : (below.merge top).parents = below.parents := rfl

/-- What a configuration builds on is not seen from below. -/
theorem merge_own (below own : Config) : below.merge { own with parents := [] } = below.merge own := rfl

theorem default_merge (own : Config) : ({} : Config).merge own = { own with parents := [] } := by
  have format := unset_default (· = OutputFormat.text) (fun unset => unset) own.output.format
  have color := unset_default (· = ColorMode.auto) (fun unset => unset) own.output.color
  have enabled := unset_default (·.isEmpty = true) List.isEmpty_iff.mp own.rules.enabled
  have categories := unset_default (·.isEmpty = true) List.isEmpty_iff.mp own.categories
  simp only [merge, format, color, enabled, categories, Bool.false_or, List.nil_append]

/-! ### A row of layers -/

theorem foldl_merge_parents (layers : List Config) (below : Config) :
    (layers.foldl merge below).parents = below.parents := by
  induction layers generalizing below with
  | nil => rfl
  | cons layer rest ih => exact (ih (below.merge layer)).trans (merge_parents below layer)

theorem merge_foldl (layers : List Config) (below layer : Config) :
    below.merge (layers.foldl merge layer) = layers.foldl merge (below.merge layer) := by
  induction layers generalizing layer with
  | nil => rfl
  | cons next rest ih => rw [List.foldl_cons, List.foldl_cons, ih, merge_assoc]

/-- A row of layers that is not empty may be laid over each other first. -/
theorem merge_row {layers : List Config} (some : layers ≠ []) (below : Config) :
    below.merge (layers.foldl merge {}) = layers.foldl merge below := by
  obtain ⟨layer, rest, rfl⟩ := List.exists_cons_of_ne_nil some
  have bottom : below.merge (({} : Config).merge layer) = below.merge layer := by
    rw [default_merge, merge_own]
  rw [List.foldl_cons, merge_foldl, bottom, List.foldl_cons]

end Config

end PageLint
