import PageLint.Text.Bytes

/-!
# ASCII letters, either case

Two texts agree when they differ at most in the case of ASCII letters.
`startsWith` tests the start of a text by cutting off as many bytes as the wanted start has.
-/

namespace PageLint.Text

/-- A text with its ASCII letters in lower case. -/
def lower (text : List Char) : List Char :=
  text.map Char.toLower

/-- Whether two texts differ at most in the case of ASCII letters. -/
def agree (a b : List Char) : Bool :=
  lower a == lower b

theorem agree_iff {a b : List Char} : agree a b = true ↔ lower a = lower b := by
  simp [agree]

/-- Whether `text` starts with `start`, the case of ASCII letters aside. -/
def startsWith (start text : List Char) : Bool :=
  match cutBytes? (byteLength start) text with
  | some front => agree front start
  | none => false

def isLetter (c : Char) : Bool :=
  ('a' ≤ c && c ≤ 'z') || ('A' ≤ c && c ≤ 'Z')

def isDigit (c : Char) : Bool :=
  '0' ≤ c && c ≤ '9'

def hexValue? (c : Char) : Option Nat :=
  if '0' ≤ c && c ≤ '9' then some (c.toNat - '0'.toNat)
  else if 'a' ≤ c && c ≤ 'f' then some (c.toNat - 'a'.toNat + 10)
  else if 'A' ≤ c && c ≤ 'F' then some (c.toNat - 'A'.toNat + 10)
  else none

def hexNumber (digits : List Char) : Nat :=
  digits.foldl (fun n c => 16 * n + (hexValue? c).getD 0) 0

def isHexDigit (c : Char) : Bool :=
  (hexValue? c).isSome

/-- What follows `start` in a text that starts with exactly that. -/
def afterPrefix? : List Char → List Char → Option (List Char)
  | [], text => some text
  | _ :: _, [] => none
  | s :: start, c :: text => if s = c then afterPrefix? start text else none

theorem afterPrefix?_eq_some_iff {start text rest : List Char} :
    afterPrefix? start text = some rest ↔ text = start ++ rest := by
  induction start generalizing text with
  | nil => simp [afterPrefix?]
  | cons s start ih =>
    cases text with
    | nil => simp [afterPrefix?]
    | cons c text =>
      by_cases h : s = c
      · subst h; simp [afterPrefix?, ih]
      · simp [afterPrefix?, h, Ne.symm h]

/-- The places before and after the first occurrence of `mark` in a text. -/
def splitAtFirst? (mark : List Char) : List Char → Option (List Char × List Char)
  | [] => if mark.isEmpty then some ([], []) else none
  | c :: text =>
    match afterPrefix? mark (c :: text) with
    | some rest => some ([], rest)
    | none => (splitAtFirst? mark text).map fun (before, after) => (c :: before, after)

theorem eq_append_of_splitAtFirst? {mark text before after : List Char}
    (h : splitAtFirst? mark text = some (before, after)) : text = before ++ mark ++ after := by
  induction text generalizing before with
  | nil =>
    unfold splitAtFirst? at h
    split at h
    · rename_i empty
      cases h
      simp [List.isEmpty_iff.1 empty]
    · cases h
  | cons c text ih =>
    unfold splitAtFirst? at h
    split at h
    · rename_i rest found
      cases h
      exact afterPrefix?_eq_some_iff.1 found
    · obtain ⟨⟨b, a⟩, found, eq⟩ := Option.map_eq_some_iff.1 h
      cases eq
      simp [ih found]

end PageLint.Text
