import Mathlib.Data.List.DropRight
import Mathlib.Data.Option.Basic
import PageLint.Stylesheet.Value

/-!
# The suffix of a value

`!important` at the end of a value is a suffix that starts and ends with a certain word and may hold
blanks in between. `Suffix.split` takes one such suffix off the end of a list, and the blanks at the
two ends of what is left. `splitImportant_exact` says that the components of a value are split in
this way, and that splitting them by index never leaves the list.
-/

namespace PageLint.Stylesheet

structure Suffix (α : Type) where
  blank : α → Bool
  first : α → Bool
  last : α → Bool
  first_not_blank : ∀ a, first a = true → blank a = false
  last_not_blank : ∀ a, last a = true → blank a = false

namespace Suffix

variable {α : Type} (w : Suffix α)

def trim (as : List α) : List α :=
  (as.dropWhile w.blank).rdropWhile w.blank

/-- Splits a suffix off the end of a list. The first part has no blank at either end, and the second
says whether the suffix was there. -/
def split (as : List α) : List α × Bool :=
  match (w.trim as).reverse with
  | last :: before =>
    if w.last last then
      match before.dropWhile w.blank with
      | first :: before =>
        if w.first first then ((before.dropWhile w.blank).reverse, true) else (w.trim as, false)
      | [] => (w.trim as, false)
    else (w.trim as, false)
  | [] => ([], false)

/-- Goes back from an index over the blanks before it. The answer is `none` if an index is not in
the list. -/
def backOver (as : List α) : Nat → Option Nat
  | 0 => some 0
  | i + 1 => do if w.blank (← as[i]?) then backOver as i else return i + 1

/-- Splits a suffix off by going through a list by index. The answer is `none` if an index is not in
the list. -/
def cut? (as : List α) : Option (List α × Bool) := do
  let as := as.rdropWhile w.blank
  let lead := (as.takeWhile w.blank).length
  guard (lead ≤ as.length)
  let as := as.drop lead
  if as.getLast?.any w.last then
    guard (1 ≤ as.length)
    match ← w.backOver as (as.length - 1) with
    | 0 => return (as, false)
    | i + 1 =>
      if w.first (← as[i]?) then return ((as.take i).rdropWhile w.blank, true)
      else return (as, false)
  else return (as, false)

inductive Written : List α → Prop
  | words {first blanks last} (starts : w.first first = true)
      (between : ∀ a ∈ blanks, w.blank a = true) (ends : w.last last = true) :
      Written (first :: (blanks ++ [last]))

def Blank (as : List α) : Prop :=
  ∀ a ∈ as, w.blank a = true

/-- What is left of a list is `kept`, and `found` says whether there was a suffix at its end. -/
structure Splits (as kept : List α) (found : Bool) : Prop where
  head : ∀ a, kept.head? = some a → w.blank a = false
  last : ∀ a, kept.getLast? = some a → w.blank a = false
  found_iff : found = true ↔
    ∃ front suffix trail, as = front ++ (suffix ++ trail) ∧ w.Written suffix ∧ w.Blank trail
  parts : ∃ lead between suffix trail, as = lead ++ (kept ++ (between ++ (suffix ++ trail))) ∧
    w.Blank lead ∧ w.Blank between ∧ w.Blank trail ∧
    if found then w.Written suffix else suffix = []

variable {w} {as front suffix trail : List α}

/-! ### Blanks at the ends -/

theorem dropWhile_append_cons {a : α} (no_blank : w.blank a = false) (front back : List α) :
    (front ++ a :: back).dropWhile w.blank = front.dropWhile w.blank ++ a :: back := by
  rw [List.dropWhile_append, List.dropWhile_cons_of_neg (by simp [no_blank])]
  cases front.dropWhile w.blank <;> rfl

theorem rdropWhile_append_cons {a : α} (no_blank : w.blank a = false) (front back : List α) :
    (front ++ a :: back).rdropWhile w.blank = front ++ a :: back.rdropWhile w.blank := by
  have split : (front ++ a :: back).reverse = back.reverse ++ a :: front.reverse := by simp
  rw [List.rdropWhile, split, dropWhile_append_cons no_blank, List.rdropWhile]
  simp

theorem rdropWhile_append_blank (blanks : w.Blank trail) (front : List α) :
    (front ++ trail).rdropWhile w.blank = front.rdropWhile w.blank := by
  have reversed : ∀ a ∈ trail.reverse, w.blank a = true :=
    fun a member => blanks a (List.mem_reverse.mp member)
  rw [List.rdropWhile, List.reverse_append, List.dropWhile_append_of_pos reversed, List.rdropWhile]

theorem dropWhile_split {a : α} {rest : List α} (dropped : as.dropWhile w.blank = a :: rest) :
    ∃ front, as = front ++ a :: rest ∧ w.Blank front := by
  rw [← dropped]
  exact ⟨_, List.takeWhile_append_dropWhile.symm, fun a => List.mem_takeWhile_imp⟩

theorem trim_split (w : Suffix α) (as : List α) :
    ∃ lead trail, as = lead ++ (w.trim as ++ trail) ∧ w.Blank lead ∧ w.Blank trail := by
  refine ⟨as.takeWhile w.blank, (as.dropWhile w.blank).rtakeWhile w.blank, ?_,
    fun a => List.mem_takeWhile_imp, fun a => List.mem_rtakeWhile_imp⟩
  rw [trim, List.rdropWhile_append_rtakeWhile, List.takeWhile_append_dropWhile]

theorem trim_head (w : Suffix α) (as : List α) :
    ∀ a, (w.trim as).head? = some a → w.blank a = false := by
  intro a first
  obtain ⟨rest, trimmed⟩ := List.head?_eq_some_iff.mp first
  have front := List.rdropWhile_prefix w.blank (l := as.dropWhile w.blank)
  rw [← trim, trimmed] at front
  obtain ⟨back, dropped⟩ := front
  have head := List.head?_dropWhile_not w.blank as
  rw [← dropped] at head
  exact head

theorem rdropWhile_last (w : Suffix α) (as : List α) :
    ∀ a, (as.rdropWhile w.blank).getLast? = some a → w.blank a = false := by
  intro a final
  rw [List.rdropWhile, List.getLast?_reverse] at final
  have head := List.head?_dropWhile_not w.blank as.reverse
  rw [final] at head
  exact head

/-! ### One suffix -/

theorem trim_suffix (written : w.Written suffix) (blanks : w.Blank trail) (front : List α) :
    w.trim (front ++ (suffix ++ trail)) = front.dropWhile w.blank ++ suffix := by
  obtain @⟨first, between, last, starts, _, ends⟩ := written
  have first_word := w.first_not_blank first starts
  have last_word := w.last_not_blank last ends
  rw [trim, List.cons_append, dropWhile_append_cons first_word, ← List.cons_append,
    ← List.append_assoc, rdropWhile_append_blank blanks, rdropWhile_append_cons first_word,
    rdropWhile_append_cons last_word, List.rdropWhile_nil]

/-- What stands before the last suffix is kept, but for the blanks at its ends. -/
theorem split_suffix (written : w.Written suffix) (blanks : w.Blank trail) (front : List α) :
    w.split (front ++ (suffix ++ trail)) = (w.trim front, true) := by
  have trimmed := trim_suffix written blanks front
  obtain @⟨first, between, last, starts, inner, ends⟩ := written
  have reversed : (front.dropWhile w.blank ++ first :: (between ++ [last])).reverse =
      last :: (between.reverse ++ first :: (front.dropWhile w.blank).reverse) := by simp
  have skipped : (between.reverse ++ first :: (front.dropWhile w.blank).reverse).dropWhile w.blank =
      first :: (front.dropWhile w.blank).reverse := by
    have inner' : ∀ a ∈ between.reverse, w.blank a = true :=
      fun a member => inner a (List.mem_reverse.mp member)
    rw [List.dropWhile_append_of_pos inner',
      List.dropWhile_cons_of_neg (by simp [w.first_not_blank first starts])]
  rw [split, trimmed, reversed]
  dsimp only
  rw [if_pos ends, skipped]
  dsimp only
  rw [if_pos starts]
  rfl

/-- A suffix at the end is found, and without one only blanks are taken off. -/
theorem split_cases (w : Suffix α) (as : List α) :
    (∃ front suffix trail, as = front ++ (suffix ++ trail) ∧ w.Written suffix ∧ w.Blank trail) ∨
      w.split as = (w.trim as, false) := by
  unfold split
  split
  · rename_i last before reversed
    split
    · rename_i ends
      split
      · rename_i first before' dropped
        split
        · rename_i starts
          obtain ⟨lead, trail, whole, _, blanks⟩ := trim_split w as
          obtain ⟨inner, rfl, between⟩ := dropWhile_split dropped
          have core : w.trim as = before'.reverse ++ first :: (inner.reverse ++ [last]) := by
            rw [← List.reverse_reverse (w.trim as), reversed]
            simp
          have between' : ∀ a ∈ inner.reverse, w.blank a = true :=
            fun a member => between a (List.mem_reverse.mp member)
          refine .inl ⟨lead ++ before'.reverse, _, trail, ?_, .words starts between' ends, blanks⟩
          conv_lhs => rw [whole, core]
          simp only [List.append_assoc, List.cons_append]
        · exact .inr rfl
      · exact .inr rfl
    · exact .inr rfl
  · rename_i reversed
    rw [List.reverse_eq_nil_iff.mp reversed]
    exact .inr rfl

theorem split_splits (w : Suffix α) (as : List α) : w.Splits as (w.split as).1 (w.split as).2 := by
  by_cases found :
      ∃ front suffix trail, as = front ++ (suffix ++ trail) ∧ w.Written suffix ∧ w.Blank trail
  · obtain ⟨front, suffix, trail, rfl, written, blanks⟩ := found
    obtain ⟨lead, between, whole, leading, inner⟩ := trim_split w front
    rw [split_suffix written blanks]
    refine ⟨trim_head w front, rdropWhile_last w _, iff_of_true rfl ⟨_, _, _, rfl, written, blanks⟩, ?_⟩
    refine ⟨lead, between, suffix, trail, ?_, leading, inner, blanks, written⟩
    conv_lhs => rw [whole]
    simp only [List.append_assoc]
  · obtain ⟨lead, trail, whole, leading, blanks⟩ := trim_split w as
    rw [(split_cases w as).resolve_left found]
    refine ⟨trim_head w as, rdropWhile_last w _, iff_of_false Bool.false_ne_true found, ?_⟩
    exact ⟨lead, [], [], trail, whole, leading, by simp [Blank], blanks, rfl⟩

/-- Of two suffixes only the second is taken off. -/
theorem split_two {earlier between : List α} (kept : w.Written earlier) (inner : w.Blank between)
    (written : w.Written suffix) (blanks : w.Blank trail) (front : List α) :
    (w.split (front ++ (earlier ++ (between ++ (suffix ++ trail))))).1 =
      front.dropWhile w.blank ++ earlier := by
  have regroup : front ++ (earlier ++ (between ++ (suffix ++ trail))) =
      front ++ (earlier ++ between) ++ (suffix ++ trail) := by simp only [List.append_assoc]
  rw [regroup, split_suffix written blanks, trim_suffix kept inner]

/-! ### Splitting by index -/

theorem backOver_eq (w : Suffix α) (before rest : List α) :
    w.backOver (before.reverse ++ rest) before.length =
      some (before.dropWhile w.blank).length := by
  induction before generalizing rest with
  | nil => rfl
  | cons a before ih =>
    have here : ((a :: before).reverse ++ rest)[before.length]? = some a := by simp
    rw [List.length_cons, backOver, here, List.dropWhile_cons]
    cases blank : w.blank a with
    | true =>
      rw [List.reverse_cons, List.append_assoc]
      simpa [blank] using ih ([a] ++ rest)
    | false => simp [blank]

theorem dropWhile_rdropWhile (w : Suffix α) (as : List α) :
    (as.rdropWhile w.blank).dropWhile w.blank = w.trim as := by
  by_cases all : ∀ a ∈ as, w.blank a = true
  · rw [trim, List.rdropWhile_eq_nil_iff.mpr all, List.dropWhile_eq_nil_iff.mpr all]
    rfl
  · -- Around a word, the blanks before it and those after it are taken off in any order.
    obtain ⟨a, member, word⟩ : ∃ a ∈ as, w.blank a = false := by simpa using all
    obtain ⟨front, back, rfl⟩ := List.append_of_mem member
    rw [trim, rdropWhile_append_cons word, dropWhile_append_cons word, dropWhile_append_cons word,
      rdropWhile_append_cons word]

theorem drop_leading (w : Suffix α) (as : List α) :
    as.drop (as.takeWhile w.blank).length = as.dropWhile w.blank := by
  induction as with
  | nil => rfl
  | cons a as ih =>
    rw [List.takeWhile_cons, List.dropWhile_cons]
    split
    · exact ih
    · rfl

/-- Every index is in the list, and what is cut off is the suffix. -/
theorem cut?_eq (w : Suffix α) (as : List α) : w.cut? as = some (w.split as) := by
  have inside := (List.takeWhile_prefix w.blank (l := as.rdropWhile w.blank)).length_le
  rw [cut?, split]
  dsimp only
  rw [drop_leading, dropWhile_rdropWhile]
  simp only [inside, guard_true, pure_bind]
  obtain ⟨back, core⟩ : ∃ back : List α, w.trim as = back.reverse :=
    ⟨_, (List.reverse_reverse _).symm⟩
  rw [core, List.getLast?_reverse, List.reverse_reverse]
  cases back with
  | nil => rfl
  | cons last before =>
    have stop := backOver_eq w before [last]
    rw [← List.reverse_cons] at stop
    rw [List.head?_cons, Option.any_some, List.length_reverse, List.length_cons,
      Nat.add_sub_cancel, stop]
    dsimp only
    split
    · cases dropped : before.dropWhile w.blank with
      | nil => rfl
      | cons first before' =>
        obtain ⟨inner, rfl, _⟩ := dropWhile_split dropped
        have here : (last :: (inner ++ first :: before')).reverse =
            before'.reverse ++ first :: (inner.reverse ++ [last]) := by simp
        have word : (before'.reverse ++ first :: (inner.reverse ++ [last]))[before'.length]? =
            some first := by simp
        have front : (before'.reverse ++ first :: (inner.reverse ++ [last])).take before'.length =
            before'.reverse := by simp
        have nonempty : 1 ≤ (inner ++ first :: before').length + 1 := Nat.le_add_left ..
        rw [here, List.length_cons]
        simp only [nonempty, guard_true, pure_bind, Option.bind_eq_bind, Option.bind_some, word,
          front, List.rdropWhile_reverse]
        split <;> rfl
    · rfl

end Suffix

namespace Component

def isNest : Component → Bool
  | function .. => true
  | block .. => true
  | _ => false

theorem isBlank_of_isToken {literal : String} (c : Component) (word : c.isToken literal = true) :
    c.isBlank = false := by
  cases c with
  | token => rfl
  | _ => cases word

def important : Suffix Component where
  blank := isBlank
  first := isToken "!"
  last := isToken "important"
  first_not_blank := isBlank_of_isToken
  last_not_blank := isBlank_of_isToken

theorem splitImportant_eq (cs : List Component) : splitImportant cs = important.split cs := by
  have trimmed : trim cs = important.trim cs := rfl
  rw [splitImportant, Suffix.split, trimmed]
  cases (important.trim cs).reverse with
  | nil => rfl
  | cons last before =>
    have dropped : before.dropWhile isBlank = before.dropWhile important.blank := rfl
    dsimp only
    rw [dropped]
    cases before.dropWhile important.blank <;> rfl

theorem isNest_of_isBlank {c : Component} (blank : c.isBlank = true) : c.isNest = false := by
  cases c with
  | blank => rfl
  | _ => cases blank

theorem isNest_of_isToken {c : Component} {literal : String} (word : c.isToken literal = true) :
    c.isNest = false := by
  cases c with
  | token => rfl
  | _ => cases word

theorem filter_isNest_blank {cs : List Component} (blanks : important.Blank cs) :
    cs.filter isNest = [] :=
  List.filter_eq_nil_iff.mpr fun c member =>
    Bool.eq_false_iff.mp (isNest_of_isBlank (blanks c member))

theorem filter_isNest_written {cs : List Component} (written : important.Written cs) :
    cs.filter isNest = [] := by
  obtain ⟨starts, between, ends⟩ := written
  rw [List.filter_cons_of_neg (by simp [isNest_of_isToken starts]), List.filter_append,
    filter_isNest_blank between, List.filter_cons_of_neg (by simp [isNest_of_isToken ends])]
  rfl

/-- Nothing but blanks, `!` and `important` is taken off a value: its functions and blocks stay as
they are. -/
theorem splitImportant_nests (cs : List Component) :
    (splitImportant cs).1.filter isNest = cs.filter isNest := by
  obtain ⟨lead, between, suffix, trail, whole, leading, inner, blanks, written⟩ :=
    (important.split_splits cs).parts
  rw [← splitImportant_eq] at whole written
  have flat : suffix.filter isNest = [] := by
    split at written
    · exact filter_isNest_written written
    · rw [written]
      rfl
  conv_rhs => rw [whole]
  simp only [List.filter_append, filter_isNest_blank leading, filter_isNest_blank inner,
    filter_isNest_blank blanks, flat, List.nil_append, List.append_nil]

/-- A value is what is left of it with at most one suffix behind it and blanks between and around
the two, and no index is out of range. Of two suffixes the first is left, and so are all functions
and blocks. -/
theorem splitImportant_exact (cs : List Component) :
    important.cut? cs = some (splitImportant cs) ∧
    important.Splits cs (splitImportant cs).1 (splitImportant cs).2 ∧
    (∀ front earlier between suffix trail,
      cs = front ++ (earlier ++ (between ++ (suffix ++ trail))) → important.Written earlier →
      important.Blank between → important.Written suffix → important.Blank trail →
      (splitImportant cs).1 = front.dropWhile isBlank ++ earlier) ∧
    (splitImportant cs).1.filter isNest = cs.filter isNest := by
  refine ⟨?_, ?_, ?_, splitImportant_nests cs⟩
  · rw [splitImportant_eq, important.cut?_eq]
  · rw [splitImportant_eq]
    exact important.split_splits cs
  · rintro front earlier between suffix trail rfl kept inner written blanks
    rw [splitImportant_eq]
    exact Suffix.split_two kept inner written blanks front

def twiceImportant : List Component :=
  [blank, token "red", blank, token "!", token "important", blank, token "!", blank,
    token "IMPORTANT", blank]

theorem splitImportant_exact_twice :
    important.Written [token "!", token "important"] ∧
      important.Written [token "!", blank, token "IMPORTANT"] ∧
      (splitImportant twiceImportant).1 =
        [token "red", blank, token "!", token "important"] := by
  have earlier : important.Written (token "!" :: ([] ++ [token "important"])) :=
    .words (by decide +kernel) (by simp) (by decide +kernel)
  have suffix : important.Written (token "!" :: ([blank] ++ [token "IMPORTANT"])) :=
    .words (by decide +kernel) (by simp [important, isBlank]) (by decide +kernel)
  have blanks : important.Blank [blank] := by simp [Suffix.Blank, important, isBlank]
  obtain ⟨_, _, kept, _⟩ := splitImportant_exact twiceImportant
  exact ⟨earlier, suffix, kept [blank, token "red", blank] _ [blank] _ [blank] rfl earlier blanks
    suffix blanks⟩

end Component

end PageLint.Stylesheet
