import Mathlib.Data.List.TakeWhile
import PageLint.Proofs.Text.Start
import PageLint.Text.Folding

/-!
# Lines that end in a carriage return

`withReturns` writes a carriage return before each line feed. A search for what holds neither of the
two finds the same pieces of a text with the returns as without them.
-/

namespace PageLint.Text

def withReturns : List Char → List Char
  | [] => []
  | c :: text => if c = '\n' then '\r' :: '\n' :: withReturns text else c :: withReturns text

/-- A text without carriage returns and line feeds. -/
def OneLine (text : List Char) : Prop :=
  '\r' ∉ text ∧ '\n' ∉ text

instance (text : List Char) : Decidable (OneLine text) :=
  inferInstanceAs (Decidable (_ ∧ _))

variable {c : Char} {text word : List Char}

@[simp] theorem withReturns_nil : withReturns [] = [] := rfl

@[simp] theorem withReturns_newline (text : List Char) :
    withReturns ('\n' :: text) = '\r' :: '\n' :: withReturns text := rfl

theorem withReturns_cons (other : c ≠ '\n') (text : List Char) :
    withReturns (c :: text) = c :: withReturns text := if_neg other

@[simp] theorem withReturns_append (a b : List Char) :
    withReturns (a ++ b) = withReturns a ++ withReturns b := by
  induction a with
  | nil => rfl
  | cons c a ih =>
    by_cases newline : c = '\n'
    · subst newline
      simp [ih]
    · rw [List.cons_append, withReturns_cons newline, ih, withReturns_cons newline,
        List.cons_append]

@[simp] theorem withReturns_eq_nil : withReturns text = [] ↔ text = [] := by
  cases text with
  | nil => exact ⟨fun _ => rfl, fun _ => rfl⟩
  | cons c text =>
    rw [withReturns]
    split <;> simp

@[simp] theorem count_withReturns (text : List Char) :
    (withReturns text).count '\n' = text.count '\n' := by
  induction text with
  | nil => rfl
  | cons c text ih =>
    by_cases newline : c = '\n'
    · subst newline
      simp [ih]
    · rw [withReturns_cons newline, List.count_cons, List.count_cons, ih]

theorem OneLine.cons (clean : OneLine (c :: text)) : c ≠ '\r' ∧ c ≠ '\n' ∧ OneLine text := by
  obtain ⟨no_return, no_newline⟩ := clean
  rw [List.mem_cons, not_or] at no_return no_newline
  exact ⟨Ne.symm no_return.1, Ne.symm no_newline.1, no_return.2, no_newline.2⟩

theorem oneLine_cons (no_return : c ≠ '\r') (no_newline : c ≠ '\n') (clean : OneLine text) :
    OneLine (c :: text) :=
  ⟨List.not_mem_cons_of_ne_of_not_mem (Ne.symm no_return) clean.1,
    List.not_mem_cons_of_ne_of_not_mem (Ne.symm no_newline) clean.2⟩

theorem OneLine.withReturns_eq (clean : OneLine word) : withReturns word = word := by
  induction word with
  | nil => rfl
  | cons c word ih =>
    obtain ⟨_, no_newline, later⟩ := clean.cons
    rw [withReturns_cons no_newline, ih later]

theorem withReturns_word (clean : OneLine word) (text : List Char) :
    withReturns (word ++ text) = word ++ withReturns text := by
  rw [withReturns_append, clean.withReturns_eq]

/-- What comes before and after a character that is no line end was there without the returns. -/
theorem split_of_withReturns {front back : List Char} (no_return : c ≠ '\r') (no_newline : c ≠ '\n')
    (split : withReturns text = front ++ c :: back) :
    ∃ before after, text = before ++ c :: after ∧ front = withReturns before ∧
      back = withReturns after := by
  induction text generalizing front with
  | nil => exact absurd split.symm (List.append_ne_nil_of_right_ne_nil _ (List.cons_ne_nil _ _))
  | cons d text ih =>
    by_cases newline : d = '\n'
    · subst newline
      rw [withReturns_newline] at split
      rcases front with _ | ⟨first, _ | ⟨second, front⟩⟩
      · exact absurd (List.cons.inj split).1.symm no_return
      · exact absurd (List.cons.inj (List.cons.inj split).2).1.symm no_newline
      · obtain ⟨first_eq, later⟩ := List.cons.inj split
        obtain ⟨second_eq, later⟩ := List.cons.inj later
        obtain ⟨before, after, rfl, rfl, rfl⟩ := ih later
        exact ⟨'\n' :: before, after, rfl, by rw [← first_eq, ← second_eq]; rfl, rfl⟩
    · rw [withReturns_cons newline] at split
      cases front with
      | nil =>
        obtain ⟨rfl, rfl⟩ := List.cons.inj split
        exact ⟨[], text, rfl, rfl, rfl⟩
      | cons first front =>
        obtain ⟨rfl, later⟩ := List.cons.inj split
        obtain ⟨before, after, rfl, rfl, rfl⟩ := ih later
        exact ⟨d :: before, after, rfl, (withReturns_cons newline before).symm, rfl⟩

theorem rest_of_withReturns {back : List Char} (clean : OneLine word)
    (split : withReturns text = word ++ back) :
    ∃ rest, text = word ++ rest ∧ back = withReturns rest := by
  induction word generalizing text with
  | nil => exact ⟨text, rfl, split.symm⟩
  | cons c word ih =>
    obtain ⟨no_return, no_newline, later⟩ := clean.cons
    have split : withReturns text = [] ++ c :: (word ++ back) := split
    obtain ⟨before, after, rfl, front, same⟩ := split_of_withReturns no_return no_newline split
    obtain rfl := withReturns_eq_nil.mp front.symm
    obtain ⟨rest, rfl, rfl⟩ := ih later same.symm
    exact ⟨rest, rfl, rfl⟩

/-! ### Searches -/

theorem afterPrefix?_withReturns (clean : OneLine word) (text : List Char) :
    afterPrefix? word (withReturns text) = (afterPrefix? word text).map withReturns := by
  refine Option.ext fun back => ?_
  rw [afterPrefix?_eq_some_iff, Option.map_eq_some_iff]
  constructor
  · intro split
    obtain ⟨rest, whole, same⟩ := rest_of_withReturns clean split
    exact ⟨rest, afterPrefix?_eq_some_iff.mpr whole, same.symm⟩
  · rintro ⟨rest, found, rfl⟩
    rw [afterPrefix?_eq_some_iff.mp found, withReturns_word clean]

theorem prefix_withReturns_iff (clean : OneLine word) :
    word <+: withReturns text ↔ word <+: text := by
  constructor
  · rintro ⟨back, split⟩
    obtain ⟨rest, whole, _⟩ := rest_of_withReturns clean split.symm
    exact ⟨rest, whole.symm⟩
  · rintro ⟨rest, rfl⟩
    exact ⟨withReturns rest, (withReturns_word clean rest).symm⟩

theorem lower_withReturns (text : List Char) :
    lower (withReturns text) = withReturns (lower text) := by
  induction text with
  | nil => rfl
  | cons c text ih =>
    by_cases newline : c = '\n'
    · subst newline
      exact congrArg (fun rest => '\r' :: '\n' :: rest) ih
    · have other : c.toLower ≠ '\n' := fun same => newline (eq_of_toLower_eq (by decide) same)
      rw [withReturns_cons newline]
      show c.toLower :: lower (withReturns text) = withReturns (c.toLower :: lower text)
      rw [withReturns_cons other, ih]

theorem OneLine.lower (clean : OneLine word) : OneLine (lower word) := by
  constructor
  · intro member
    obtain ⟨c, inside, same⟩ := List.mem_map.mp member
    exact clean.1 (eq_of_toLower_eq (d := '\r') (by decide) same ▸ inside)
  · intro member
    obtain ⟨c, inside, same⟩ := List.mem_map.mp member
    exact clean.2 (eq_of_toLower_eq (d := '\n') (by decide) same ▸ inside)

theorem startsWith_withReturns (clean : OneLine word) (text : List Char) :
    startsWith word (withReturns text) = startsWith word text := by
  rw [Bool.eq_iff_iff, startsWith_iff, startsWith_iff, lower_withReturns,
    prefix_withReturns_iff clean.lower]

theorem oneLine_takeWhile {p : Char → Bool} (no_return : p '\r' = false)
    (no_newline : p '\n' = false) : OneLine (text.takeWhile p) := by
  constructor
  · intro member
    exact Bool.noConfusion (no_return.symm.trans (List.mem_takeWhile_imp member))
  · intro member
    exact Bool.noConfusion (no_newline.symm.trans (List.mem_takeWhile_imp member))

theorem any_head?_withReturns {p : Char → Bool} (same : p '\r' = p '\n') (text : List Char) :
    (withReturns text).head?.any p = text.head?.any p := by
  cases text with
  | nil => rfl
  | cons c text =>
    by_cases newline : c = '\n'
    · subst newline
      exact same
    · rw [withReturns_cons newline]
      rfl

theorem takeWhile_withReturns {p : Char → Bool} (same : p '\r' = p '\n') (text : List Char) :
    (withReturns text).takeWhile p = withReturns (text.takeWhile p) := by
  induction text with
  | nil => rfl
  | cons c text ih =>
    by_cases newline : c = '\n'
    · subst newline
      rw [withReturns_newline, List.takeWhile_cons, List.takeWhile_cons, List.takeWhile_cons, same,
        ih]
      split <;> rfl
    · rw [withReturns_cons newline, List.takeWhile_cons, List.takeWhile_cons, ih]
      split
      · rw [withReturns_cons newline]
      · rfl

theorem dropWhile_withReturns {p : Char → Bool} (same : p '\r' = p '\n') (text : List Char) :
    (withReturns text).dropWhile p = withReturns (text.dropWhile p) := by
  have whole := congrArg withReturns (List.takeWhile_append_dropWhile (p := p) (l := text))
  rw [withReturns_append, ← takeWhile_withReturns same] at whole
  have parts := List.takeWhile_append_dropWhile (p := p) (l := withReturns text)
  exact List.append_cancel_left (parts.trans whole.symm)

theorem splitAtFirst?_withReturns (clean : OneLine word) (nonempty : word ≠ []) (text : List Char) :
    splitAtFirst? word (withReturns text) =
      (splitAtFirst? word text).map (Prod.map withReturns withReturns) := by
  obtain ⟨d, word, rfl⟩ := List.exists_cons_of_ne_nil nonempty
  obtain ⟨no_return, no_newline, _⟩ := clean.cons
  induction text with
  | nil => rfl
  | cons c text ih =>
    by_cases newline : c = '\n'
    · subst newline
      rw [withReturns_newline, splitAtFirst?, afterPrefix?, if_neg no_return, splitAtFirst?,
        afterPrefix?, if_neg no_newline, ih, splitAtFirst?, afterPrefix?, if_neg no_newline]
      simp only [Option.map_map]
      rfl
    · have found := afterPrefix?_withReturns clean (c :: text)
      rw [withReturns_cons newline] at found ⊢
      rw [splitAtFirst?, found, splitAtFirst?, ih]
      cases afterPrefix? (d :: word) (c :: text) with
      | some rest => rfl
      | none =>
        simp only [Option.map_none, Option.map_map]
        refine Option.map_congr fun parts _ => ?_
        rw [Function.comp_apply, Function.comp_apply, Prod.map, Prod.map,
          withReturns_cons newline]

end PageLint.Text
