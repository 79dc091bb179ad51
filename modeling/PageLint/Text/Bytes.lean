/-!
# Byte offsets

Offsets into a text count the bytes of its UTF-8 form. `cutBytes?` takes a number of bytes off the
front and answers only where that cut falls between two characters; `cutBytes?_byteLength_append`
says that it finds every part that the text starts with.
-/

namespace PageLint.Text

def byteLength : List Char → Nat
  | [] => 0
  | c :: rest => c.utf8Size + byteLength rest

@[simp] theorem byteLength_nil : byteLength [] = 0 := rfl

@[simp] theorem byteLength_cons (c : Char) (rest : List Char) :
    byteLength (c :: rest) = c.utf8Size + byteLength rest := rfl

@[simp] theorem byteLength_append (front back : List Char) :
    byteLength (front ++ back) = byteLength front + byteLength back := by
  induction front with
  | nil => simp
  | cons c rest ih => simp [ih, Nat.add_assoc]

/-- The first `n` bytes of a text, or `none` if they end inside a character or past the end. -/
def cutBytes? : Nat → List Char → Option (List Char)
  | 0, _ => some []
  | _ + 1, [] => none
  | n + 1, c :: rest =>
    if c.utf8Size ≤ n + 1 then (cutBytes? (n + 1 - c.utf8Size) rest).map (c :: ·) else none

theorem cutBytes?_zero (text : List Char) : cutBytes? 0 text = some [] := by
  cases text <;> rfl

theorem cutBytes?_byteLength_append (front back : List Char) :
    cutBytes? (byteLength front) (front ++ back) = some front := by
  induction front with
  | nil => simp [cutBytes?_zero]
  | cons c rest ih =>
    have size := c.utf8Size_pos
    obtain ⟨n, hn⟩ : ∃ n, c.utf8Size + byteLength rest = n + 1 :=
      ⟨c.utf8Size + byteLength rest - 1, by omega⟩
    have le : c.utf8Size ≤ n + 1 := by omega
    have left : n + 1 - c.utf8Size = byteLength rest := by omega
    simp [hn, cutBytes?, le, left, ih]

/-- The number of line feeds that start before byte `n`. -/
def newlinesBefore : Nat → List Char → Nat
  | 0, _ => 0
  | _ + 1, [] => 0
  | n + 1, c :: rest =>
    newlinesBefore (n + 1 - c.utf8Size) rest + if c = '\n' then 1 else 0

/-- The line feeds before the end of a part are those of that part. -/
theorem newlinesBefore_byteLength (front back : List Char) :
    newlinesBefore (byteLength front) (front ++ back) = front.count '\n' := by
  induction front with
  | nil => cases back <;> rfl
  | cons c rest ih =>
    have size := c.utf8Size_pos
    obtain ⟨n, length⟩ : ∃ n, byteLength (c :: rest) = n + 1 :=
      ⟨byteLength (c :: rest) - 1, by rw [byteLength_cons]; omega⟩
    have left : n + 1 - c.utf8Size = byteLength rest := by
      rw [← length, byteLength_cons]
      omega
    rw [length, List.cons_append, newlinesBefore, left, ih, List.count_cons]
    simp only [beq_iff_eq]

/-- The line of a byte offset, counted from 1. An offset past the end is read as the end, and a
missing one as the start. -/
def lineOf (offset : Option Nat) (text : List Char) : Nat :=
  1 + match offset with
    | some n => newlinesBefore n text
    | none => 0

theorem lineOf_byteLength (front back : List Char) :
    lineOf (some (byteLength front)) (front ++ back) = 1 + front.count '\n' :=
  congrArg (1 + ·) (newlinesBefore_byteLength front back)

end PageLint.Text
