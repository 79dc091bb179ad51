import PageLint.Text.Letters

/-!
# Starts of texts

`startsWith` cuts as many bytes off a text as the wanted start has. By `startsWith_iff` that is the
test for a start in lower case: no cut is missed, for lowering a letter does not change its size.
-/

namespace PageLint.Text

theorem utf8Size_toLower (c : Char) : c.toLower.utf8Size = c.utf8Size := by
  unfold Char.toLower
  split
  · rename_i upper
    have high : c.val.toNat ≤ 90 := UInt32.le_iff_toNat_le.mp upper.2
    have size : c.utf8Size = 1 := by
      rw [Char.utf8Size_eq_one_iff, UInt32.le_iff_toNat_le]
      exact Nat.le_trans high (by decide)
    rw [size, Char.utf8Size_eq_one_iff, UInt32.le_iff_toNat_le, UInt32.toNat_add]
    show (c.val.toNat + 32) % 2 ^ 32 ≤ 127
    omega
  · rfl

/-- Only lower-case letters are the lower case of another character. -/
theorem eq_of_toLower_eq {c d : Char} (low : d.toNat < 97) (same : c.toLower = d) : c = d := by
  unfold Char.toLower at same
  split at same
  · rename_i upper
    have first : 65 ≤ c.val.toNat := UInt32.le_iff_toNat_le.mp upper.1
    have last : c.val.toNat ≤ 90 := UInt32.le_iff_toNat_le.mp upper.2
    rw [← same] at low
    have lowered : (c.val + 32).toNat < 97 := low
    rw [UInt32.toNat_add] at lowered
    have shift : (32 : UInt32).toNat = 32 := rfl
    omega
  · exact same

theorem isUpper_toLower (c : Char) : c.toLower.isUpper = false := by
  unfold Char.toLower
  split
  · rename_i upper
    have first : 65 ≤ c.val.toNat := UInt32.le_iff_toNat_le.mp upper.1
    have last : c.val.toNat ≤ 90 := UInt32.le_iff_toNat_le.mp upper.2
    have high : ¬ c.val + 32 ≤ 90 := by
      rw [UInt32.le_iff_toNat_le, UInt32.toNat_add]
      show ¬ (c.val.toNat + 32) % 2 ^ 32 ≤ 90
      omega
    exact decide_eq_false fun capital => high capital.2
  · rename_i other
    exact decide_eq_false other

theorem toLower_toLower (c : Char) : c.toLower.toLower = c.toLower :=
  dif_neg (of_decide_eq_false (isUpper_toLower c))

theorem lower_lower (text : List Char) : lower (lower text) = lower text := by
  rw [lower, lower, List.map_map]
  exact List.map_congr_left fun c _ => toLower_toLower c

theorem byteLength_lower (text : List Char) : byteLength (lower text) = byteLength text := by
  induction text with
  | nil => rfl
  | cons c rest ih =>
    rw [lower, List.map_cons, byteLength_cons, byteLength_cons, utf8Size_toLower, ← lower, ih]

theorem cutBytes?_eq_some_iff {n : Nat} {text front : List Char} :
    cutBytes? n text = some front ↔ front <+: text ∧ byteLength front = n := by
  constructor
  · intro cut
    induction text generalizing n front with
    | nil =>
      cases n with
      | zero => cases cut; exact ⟨List.nil_prefix, rfl⟩
      | succ n => cases cut
    | cons c rest ih =>
      cases n with
      | zero => cases cut; exact ⟨List.nil_prefix, rfl⟩
      | succ n =>
        unfold cutBytes? at cut
        split at cut
        · rename_i fits
          obtain ⟨front', found, rfl⟩ := Option.map_eq_some_iff.mp cut
          obtain ⟨starts, length⟩ := ih found
          refine ⟨List.cons_prefix_cons.mpr ⟨rfl, starts⟩, ?_⟩
          rw [byteLength_cons, length]
          omega
        · cases cut
  · rintro ⟨⟨back, rfl⟩, rfl⟩
    exact cutBytes?_byteLength_append front back

/-- A text starts with another one, the case of ASCII letters aside. -/
theorem startsWith_iff {start text : List Char} :
    startsWith start text = true ↔ lower start <+: lower text := by
  unfold startsWith
  constructor
  · intro starts
    split at starts
    · rename_i front cut
      obtain ⟨⟨back, rfl⟩, _⟩ := cutBytes?_eq_some_iff.mp cut
      refine ⟨lower back, ?_⟩
      rw [← agree_iff.mp starts, lower, lower, lower, List.map_append]
    · cases starts
  · rintro ⟨back, same⟩
    obtain ⟨front, rest, rfl, front_lower, -⟩ := List.map_eq_append_iff.mp same.symm
    have size : byteLength start = byteLength front := by
      rw [← byteLength_lower start, ← byteLength_lower front, ← front_lower, lower]
    rw [size, cutBytes?_byteLength_append]
    exact agree_iff.mpr front_lower

end PageLint.Text
