import PageLint.Proofs.Text.BytePosition
import PageLint.Proofs.Text.Start
import PageLint.Stylesheet.Rule

/-!
# Starts of texts, byte by byte

A text in UTF-8 is cut behind as many bytes as the wanted start has, if that is no cut through a
character, and the two parts are compared one byte after the other. `startsWithBytes_eq` says that
`startsWith` is that test: capital letters of ASCII are single bytes, and no byte of another
character looks like one.
-/

namespace PageLint

namespace Text

def bytes (text : String) : List UInt8 :=
  text.toByteArray.data.toList

/-- The first `n` bytes of a text, or `none` if a cut behind them does not fall between two
characters. -/
def firstBytes? (n : Nat) (text : String) : Option (List UInt8) :=
  if String.Pos.Raw.isValid text ⟨n⟩ then some ((bytes text).take n) else none

def lowerByte (b : UInt8) : UInt8 :=
  if 65 ≤ b && b ≤ 90 then b + 32 else b

def startsWithBytes (start text : String) : Bool :=
  (firstBytes? start.utf8ByteSize text).any fun front =>
    front.map lowerByte == (bytes start).map lowerByte

variable {n : Nat} {c : Char} {text : String}

/-! ### Bytes of characters -/

theorem bytes_eq (text : String) : bytes text = text.toList.flatMap String.utf8EncodeChar := by
  rw [bytes, ← String.utf8Encode_toList, List.utf8Encode, List.toList_data_toByteArray]

theorem utf8ByteSize_eq (text : String) : text.utf8ByteSize = byteLength text.toList := by
  rw [← length_utf8, ← bytes_eq]
  exact Array.length_toList.symm

theorem utf8_inj {a b : List Char}
    (same : a.flatMap String.utf8EncodeChar = b.flatMap String.utf8EncodeChar) : a = b := by
  have encoded : a.utf8Encode = b.utf8Encode := congrArg List.toByteArray same
  rw [← String.toByteArray_ofList, ← String.toByteArray_ofList, String.toByteArray_inj] at encoded
  exact String.ofList_injective encoded

theorem lowerByte_ascii (ascii : c.toNat < 128) :
    (String.utf8EncodeChar c).map lowerByte = String.utf8EncodeChar c.toLower := by
  have every : ∀ n < 128, (String.utf8EncodeChar (Char.ofNat n)).map lowerByte =
      String.utf8EncodeChar (Char.ofNat n).toLower := by
    decide
  have at_c := every c.toNat ascii
  rwa [Char.ofNat_toNat] at at_c

theorem lowerByte_high (high : 128 ≤ c.toNat) :
    (String.utf8EncodeChar c).map lowerByte = String.utf8EncodeChar c.toLower := by
  have no_capital : c.toLower = c := by
    refine dif_neg fun capital => ?_
    have last : c.toNat ≤ 90 := UInt32.le_iff_toNat_le.mp capital.2
    omega
  rw [no_capital]
  refine (List.map_congr_left fun b member => ?_).trans (List.map_id _)
  have large := high_of_mem_utf8EncodeChar high member
  refine if_neg fun capital => ?_
  have below : b ≤ 90 := of_decide_eq_true (Bool.and_eq_true_iff.mp capital).2
  have last : b.toNat ≤ 90 := UInt8.le_iff_toNat_le.mp below
  omega

theorem lowerByte_utf8 (chars : List Char) :
    (chars.flatMap String.utf8EncodeChar).map lowerByte =
      (lower chars).flatMap String.utf8EncodeChar := by
  induction chars with
  | nil => rfl
  | cons c rest ih =>
    have first : (String.utf8EncodeChar c).map lowerByte = String.utf8EncodeChar c.toLower :=
      (Nat.lt_or_ge c.toNat 128).elim lowerByte_ascii lowerByte_high
    rw [List.flatMap_cons, List.map_append, first, ih]
    rfl

/-! ### Cuts -/

theorem isValid_iff :
    String.Pos.Raw.isValid text ⟨n⟩ = true ↔
      ∃ front, front <+: text.toList ∧ byteLength front = n := by
  obtain ⟨chars, rfl⟩ : ∃ chars, text = String.ofList chars :=
    ⟨text.toList, String.ofList_toList.symm⟩
  rw [String.Pos.Raw.isValid_eq_true_iff, String.Pos.Raw.isValid_ofList, String.toList_ofList]
  constructor
  · rintro ⟨i, same⟩
    rw [utf8ByteSize_eq, String.toList_ofList] at same
    exact ⟨chars.take i, List.take_prefix i chars, same.symm⟩
  · rintro ⟨front, starts, length⟩
    refine ⟨front.length, ?_⟩
    rw [← List.prefix_iff_eq_take.mp starts, utf8ByteSize_eq, String.toList_ofList]
    exact length.symm

theorem firstBytes?_eq (n : Nat) (text : String) :
    firstBytes? n text = (cutBytes? n text.toList).map (·.flatMap String.utf8EncodeChar) := by
  unfold firstBytes?
  split
  · rename_i valid
    obtain ⟨front, ⟨back, split⟩, length⟩ := isValid_iff.mp valid
    have cut : cutBytes? n text.toList = some front :=
      cutBytes?_eq_some_iff.mpr ⟨⟨back, split⟩, length⟩
    rw [cut, bytes_eq, ← split, List.flatMap_append, ← length, ← length_utf8, List.take_left]
    rfl
  · rename_i invalid
    cases cut : cutBytes? n text.toList with
    | none => rfl
    | some front => exact absurd (isValid_iff.mpr ⟨front, cutBytes?_eq_some_iff.mp cut⟩) invalid

/-- Comparing bytes is comparing characters. -/
theorem startsWithBytes_eq (start text : String) :
    startsWithBytes start text = startsWith start.toList text.toList := by
  rw [startsWithBytes, firstBytes?_eq, utf8ByteSize_eq, startsWith]
  cases cutBytes? (byteLength start.toList) text.toList with
  | none => rfl
  | some front =>
    have same : (lower front).flatMap String.utf8EncodeChar =
        (lower start.toList).flatMap String.utf8EncodeChar ↔ lower front = lower start.toList :=
      ⟨utf8_inj, fun same => by rw [same]⟩
    rw [Option.map_some, Option.any_some, bytes_eq, lowerByte_utf8, lowerByte_utf8, Bool.eq_iff_iff,
      beq_iff_eq, same, agree_iff]

end Text

open Text

variable {starts : List String} {start id text : String}

theorem anyStart_iff :
    anyStart starts id = true ↔ ∃ start ∈ starts, lower start.toList <+: lower id.toList := by
  simp only [anyStart, List.any_eq_true, startsWith_iff]

theorem anyStart_singleton (start id : String) :
    anyStart [start] id = startsWith start.toList id.toList := by
  rw [anyStart, List.any_cons, List.any_nil, Bool.or_false]

theorem startsWith_of_no_cut (no_cut : firstBytes? start.utf8ByteSize text = none) :
    startsWith start.toList text.toList = false := by
  rw [← startsWithBytes_eq, startsWithBytes, no_cut]
  rfl

/-- The tests for the starts of identifiers and of properties cut bytes off, and yet find the same
as a comparison of characters. Where no character ends behind the bytes cut off, there is nothing
to find. -/
theorem starts_by_bytes :
    (∀ starts id,
      anyStart starts id = true ↔ ∃ start ∈ starts, lower start.toList <+: lower id.toList) ∧
    (∀ (r : Stylesheet.DeclarationRule) start d,
      { r with check := .startsWith start }.flags d = anyStart [start] d.property) ∧
    (∀ start text, startsWith start.toList text.toList = startsWithBytes start text) ∧
    (∀ n text,
      firstBytes? n text = (cutBytes? n text.toList).map (·.flatMap String.utf8EncodeChar)) ∧
    ∀ start text, (firstBytes? start.utf8ByteSize text).isSome = true ∨
      anyStart [start] text = false ∧ ¬ lower start.toList <+: lower text.toList := by
  refine ⟨fun starts id => anyStart_iff,
    fun r start d => (anyStart_singleton start d.property).symm,
    fun start text => (startsWithBytes_eq start text).symm, firstBytes?_eq, fun start text => ?_⟩
  cases cut : firstBytes? start.utf8ByteSize text with
  | some front => exact .inl rfl
  | none =>
    have misses := startsWith_of_no_cut cut
    refine .inr ⟨(anyStart_singleton start text).trans misses, fun starts => ?_⟩
    rw [startsWith_iff.mpr starts] at misses
    cases misses

-- The first byte of the text is only half of its character.
example : anyStart ["x"] "é" = false ∧ anyStart ["HTML-É"] "html-Éa" = true := by decide

end PageLint
