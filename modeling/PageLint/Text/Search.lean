import PageLint.Text.Bytes

/-!
# Places in a text

`placesFrom` lists the byte offsets at which the rest of a text passes a test, in increasing order.
-/

namespace PageLint.Text

/-- The offsets at which the rest of a text passes a test, where the text starts at `start`. -/
def placesFrom (start : Nat) (test : List Char → Bool) : List Char → List Nat
  | [] => []
  | c :: rest =>
    let later := placesFrom (start + c.utf8Size) test rest
    if test (c :: rest) then start :: later else later

/-- The offsets at which the rest of a text passes a test. -/
def places (test : List Char → Bool) (text : List Char) : List Nat :=
  placesFrom 0 test text

theorem mem_placesFrom {start n : Nat} {test : List Char → Bool} {text : List Char} :
    n ∈ placesFrom start test text ↔
      ∃ front c back, text = front ++ c :: back ∧ n = start + byteLength front ∧
        test (c :: back) = true := by
  induction text generalizing start with
  | nil => simp [placesFrom]
  | cons d rest ih =>
    have inRest : n ∈ placesFrom (start + d.utf8Size) test rest ↔
        ∃ front c back, rest = front ++ c :: back ∧ n = start + byteLength (d :: front) ∧
          test (c :: back) = true := by
      rw [ih]; simp [Nat.add_assoc]
    have split : n ∈ placesFrom start test (d :: rest) ↔
        (n = start ∧ test (d :: rest) = true) ∨ n ∈ placesFrom (start + d.utf8Size) test rest := by
      rw [placesFrom]
      by_cases h : test (d :: rest) = true <;> simp [h]
    rw [split, inRest]
    constructor
    · rintro (⟨rfl, passed⟩ | ⟨front, c, back, rfl, rfl, passed⟩)
      · exact ⟨[], d, rest, rfl, rfl, passed⟩
      · exact ⟨d :: front, c, back, rfl, rfl, passed⟩
    · rintro ⟨front, c, back, eq, place, passed⟩
      cases front with
      | nil => cases eq; exact .inl ⟨place, passed⟩
      | cons e front => cases eq; exact .inr ⟨front, c, back, rfl, place, passed⟩

/-- A number is a place exactly if it is the length of a part before the rest of the text, and that
rest passes the test. -/
theorem mem_places {n : Nat} {test : List Char → Bool} {text : List Char} :
    n ∈ places test text ↔
      ∃ front c back,
        text = front ++ c :: back ∧ n = byteLength front ∧ test (c :: back) = true := by
  simp [places, mem_placesFrom]

theorem lt_byteLength_of_mem_places {n : Nat} {test : List Char → Bool} {text : List Char}
    (member : n ∈ places test text) : n < byteLength text := by
  obtain ⟨front, c, back, rfl, rfl, _⟩ := mem_places.mp member
  have size := c.utf8Size_pos
  rw [byteLength_append, byteLength_cons]
  omega

theorem placesFrom_sorted (start : Nat) (test : List Char → Bool) (text : List Char) :
    (placesFrom start test text).Pairwise (· < ·) := by
  induction text generalizing start with
  | nil => exact List.Pairwise.nil
  | cons c rest ih =>
    rw [placesFrom]
    split
    · refine List.pairwise_cons.mpr ⟨?_, ih _⟩
      intro n member
      obtain ⟨front, d, back, _, rfl, _⟩ := mem_placesFrom.mp member
      have size := c.utf8Size_pos
      omega
    · exact ih _

theorem places_sorted (test : List Char → Bool) (text : List Char) :
    (places test text).Pairwise (· < ·) :=
  placesFrom_sorted 0 test text

end PageLint.Text
