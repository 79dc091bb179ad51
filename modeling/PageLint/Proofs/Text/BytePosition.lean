import PageLint.Text.Letters

/-!
# Byte positions

What a program that counts in bytes can ask of a text: the text from a byte on, a single byte, and
the byte at which a mark first stands. Each has an answer at the end of a part of the text; a byte of
a character that is not ASCII is no ASCII character.
-/

namespace PageLint.Text

/-- The text from byte `n` on, or `none` if that byte is within a character or past the end. -/
def fromByte? : Nat → List Char → Option (List Char)
  | 0, text => some text
  | _ + 1, [] => none
  | n + 1, c :: rest =>
    if c.utf8Size ≤ n + 1 then fromByte? (n + 1 - c.utf8Size) rest else none

def byteAt? (text : List Char) (n : Nat) : Option Char :=
  (text.flatMap String.utf8EncodeChar)[n]?.map fun b => Char.ofNat b.toNat

/-- The byte at which a mark first stands in a text. -/
def findByte? (mark text : List Char) : Option Nat :=
  (splitAtFirst? mark text).map fun parts => byteLength parts.1

variable {c d : Char} {front text : List Char}

/-! ### Cuts -/

theorem fromByte?_zero (text : List Char) : fromByte? 0 text = some text := by
  cases text <;> rfl

theorem fromByte?_append (front back : List Char) :
    fromByte? (byteLength front) (front ++ back) = some back := by
  induction front with
  | nil => exact fromByte?_zero back
  | cons c front ih =>
    have size := c.utf8Size_pos
    obtain ⟨n, length⟩ : ∃ n, byteLength (c :: front) = n + 1 :=
      ⟨byteLength (c :: front) - 1, by rw [byteLength_cons]; omega⟩
    have whole : c.utf8Size ≤ n + 1 := by
      rw [← length, byteLength_cons]
      omega
    have left : n + 1 - c.utf8Size = byteLength front := by
      rw [← length, byteLength_cons]
      omega
    rw [length, List.cons_append, fromByte?, if_pos whole, left, ih]

/-! ### Single bytes -/

theorem length_utf8 (text : List Char) :
    (text.flatMap String.utf8EncodeChar).length = byteLength text := by
  induction text with
  | nil => rfl
  | cons c rest ih =>
    rw [List.flatMap_cons, List.length_append, ih, String.length_utf8EncodeChar, byteLength_cons]

theorem byteAt?_append (front back : List Char) (i : Nat) :
    byteAt? (front ++ back) (byteLength front + i) = byteAt? back i := by
  unfold byteAt?
  rw [List.flatMap_append, ← length_utf8 front, List.getElem?_append_right (Nat.le_add_right _ _),
    Nat.add_sub_cancel_left]

theorem utf8Size_ascii (ascii : c.toNat < 128) : c.utf8Size = 1 := by
  rw [Char.utf8Size_eq_one_iff, UInt32.le_iff_toNat_le]
  exact Nat.le_of_lt_succ ascii

theorem byteAt?_ascii (ascii : c.toNat < 128) (rest : List Char) :
    byteAt? (c :: rest) 0 = some c := by
  have small : c.toNat % 256 = c.toNat := by omega
  have byte : String.utf8EncodeChar c = [UInt8.ofNat c.toNat] :=
    if_pos (Nat.le_of_lt_succ ascii)
  simp [byteAt?, byte, small]

/-- The bytes of a character that is not ASCII have their highest bit set. -/
theorem high_of_mem_utf8EncodeChar (high : 128 ≤ c.toNat) {b : UInt8}
    (member : b ∈ String.utf8EncodeChar c) : 128 ≤ b.toNat := by
  have beyond : ¬ c.val.toNat ≤ 127 := Nat.not_le.mpr high
  unfold String.utf8EncodeChar at member
  dsimp only at member
  rw [if_neg beyond] at member
  split at member
  · simp only [List.mem_cons, List.not_mem_nil, or_false] at member
    rcases member with rfl | rfl <;> rw [UInt8.toNat_ofNat'] <;> omega
  · split at member
    · simp only [List.mem_cons, List.not_mem_nil, or_false] at member
      rcases member with rfl | rfl | rfl <;> rw [UInt8.toNat_ofNat'] <;> omega
    · simp only [List.mem_cons, List.not_mem_nil, or_false] at member
      rcases member with rfl | rfl | rfl | rfl <;> rw [UInt8.toNat_ofNat'] <;> omega

theorem byteAt?_high (high : 128 ≤ c.toNat) (rest : List Char) {i : Nat} (inside : i < c.utf8Size) :
    ∃ d : Char, byteAt? (c :: rest) i = some d ∧ 128 ≤ d.toNat := by
  rw [← String.length_utf8EncodeChar] at inside
  have byte :
      ((c :: rest).flatMap String.utf8EncodeChar)[i]? = some (String.utf8EncodeChar c)[i] := by
    rw [List.flatMap_cons, List.getElem?_append_left inside, List.getElem?_eq_getElem inside]
  have large := high_of_mem_utf8EncodeChar high (List.getElem_mem inside)
  refine ⟨Char.ofNat (String.utf8EncodeChar c)[i].toNat, by rw [byteAt?, byte]; rfl, ?_⟩
  have valid := (String.utf8EncodeChar c)[i].toNat_lt
  rw [Char.ofNat, dif_pos (.inl (by omega))]
  exact large

/-! ### Searches -/

theorem findByte?_here (d : Char) (text : List Char) : findByte? [d] (d :: text) = some 0 := by
  simp [findByte?, splitAtFirst?, afterPrefix?]

theorem findByte?_cons (other : c ≠ d) (text : List Char) :
    findByte? [d] (c :: text) = (findByte? [d] text).map (c.utf8Size + ·) := by
  have missed : afterPrefix? [d] (c :: text) = none := if_neg (Ne.symm other)
  simp only [findByte?, splitAtFirst?, missed, Option.map_map]
  rfl

theorem findByte?_single (absent : d ∉ front) (back : List Char) :
    findByte? [d] (front ++ d :: back) = some (byteLength front) := by
  induction front with
  | nil => exact findByte?_here d back
  | cons c front ih =>
    have other := List.ne_of_not_mem_cons absent
    rw [List.cons_append, findByte?_cons other.symm, ih (List.not_mem_of_not_mem_cons absent)]
    rfl

theorem findByte?_absent (absent : d ∉ text) : findByte? [d] text = none := by
  induction text with
  | nil => rfl
  | cons c text ih =>
    have other := List.ne_of_not_mem_cons absent
    rw [findByte?_cons other.symm, ih (List.not_mem_of_not_mem_cons absent)]
    rfl

end PageLint.Text
