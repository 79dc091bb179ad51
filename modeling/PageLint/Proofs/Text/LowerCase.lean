import PageLint.Proofs.Text.Start
import PageLint.Text.Blank

/-!
# Lower case

`lower` changes capital letters only, so a search for what holds no letter goes the same way in a text
and in its lower case.
-/

namespace PageLint.Text

variable {c d : Char} {text : List Char}

theorem toNat_toLower (c : Char) :
    c.toLower.toNat = if 65 ≤ c.toNat ∧ c.toNat ≤ 90 then c.toNat + 32 else c.toNat := by
  have upper : (c.val ≥ 'A'.val ∧ c.val ≤ 'Z'.val) ↔ 65 ≤ c.toNat ∧ c.toNat ≤ 90 := by
    simp only [ge_iff_le, UInt32.le_iff_toNat_le]
    exact Iff.rfl
  unfold Char.toLower
  by_cases capital : 65 ≤ c.toNat ∧ c.toNat ≤ 90
  · rw [dif_pos (upper.mpr capital), if_pos capital]
    have last : c.val.toNat ≤ 90 := capital.2
    show (c.val + 32).toNat = c.val.toNat + 32
    rw [UInt32.toNat_add]
    show (c.val.toNat + 32) % 2 ^ 32 = c.val.toNat + 32
    omega
  · rw [dif_neg (mt upper.mp capital), if_neg capital]

/-- A character below the letters is the lower case of nothing else, and its own. -/
theorem toLower_eq_iff (low : d.toNat < 65) : c.toLower = d ↔ c = d := by
  constructor
  · exact eq_of_toLower_eq (Nat.lt_trans low (by decide))
  · rintro rfl
    refine dif_neg fun capital => ?_
    have first : 65 ≤ c.val.toNat := UInt32.le_iff_toNat_le.mp capital.1
    exact absurd low (Nat.not_lt.mpr first)

/-! ### Kinds of characters -/

theorem isLetter_iff :
    isLetter c = true ↔ (97 ≤ c.toNat ∧ c.toNat ≤ 122) ∨ (65 ≤ c.toNat ∧ c.toNat ≤ 90) := by
  simp [isLetter, Char.le_def, UInt32.le_iff_toNat_le]

theorem isDigit_iff : isDigit c = true ↔ 48 ≤ c.toNat ∧ c.toNat ≤ 57 := by
  simp [isDigit, Char.le_def, UInt32.le_iff_toNat_le]

theorem isLetter_toLower (c : Char) : isLetter c.toLower = isLetter c := by
  rw [Bool.eq_iff_iff, isLetter_iff, isLetter_iff, toNat_toLower]
  split <;> omega

theorem isDigit_toLower (c : Char) : isDigit c.toLower = isDigit c := by
  rw [Bool.eq_iff_iff, isDigit_iff, isDigit_iff, toNat_toLower]
  split <;> omega

theorem isAsciiBlank_toLower (c : Char) : isAsciiBlank c.toLower = isAsciiBlank c := by
  have blank (d : Char) (low : d.toNat < 65) : (c.toLower == d) = (c == d) := by
    rw [Bool.eq_iff_iff, beq_iff_eq, beq_iff_eq, toLower_eq_iff low]
  simp only [isAsciiBlank, blank ' ' (by decide), blank '\t' (by decide), blank '\n' (by decide),
    blank '\x0c' (by decide), blank '\r' (by decide)]

/-! ### Texts -/

theorem lower_cons (c : Char) (text : List Char) : lower (c :: text) = c.toLower :: lower text := rfl

theorem lower_append (front back : List Char) : lower (front ++ back) = lower front ++ lower back :=
  List.map_append

theorem takeWhile_lower {p : Char → Bool} (same : ∀ c : Char, p c.toLower = p c)
    (text : List Char) : (lower text).takeWhile p = lower (text.takeWhile p) := by
  rw [lower, List.takeWhile_map, lower]
  congr 2
  exact funext same

theorem prefix_lower_iff {mark : List Char} (low : mark.all (·.toNat < 65) = true) :
    mark <+: lower text ↔ mark <+: text := by
  induction mark generalizing text with
  | nil => exact iff_of_true List.nil_prefix List.nil_prefix
  | cons d mark ih =>
    obtain ⟨first, later⟩ := Bool.and_eq_true_iff.mp low
    cases text with
    | nil => exact Iff.rfl
    | cons c text =>
      have same := toLower_eq_iff (c := c) (of_decide_eq_true first)
      rw [lower_cons, List.cons_prefix_cons, List.cons_prefix_cons, ih later, eq_comm, same, eq_comm]

theorem not_mem_lower (low : d.toNat < 65) (absent : d ∉ text) : d ∉ lower text := by
  intro member
  obtain ⟨c, inside, same⟩ := List.mem_map.mp member
  exact absent ((toLower_eq_iff low).mp same ▸ inside)

end PageLint.Text
