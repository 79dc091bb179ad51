import Mathlib.Data.String.Basic
import PageLint.Html.Reference

/-!
# What spells a character reference

No name of a character holds `<`, and neither does a number. So a reference ends before the next
tag: `read?_taken` says so of what `read?` takes.
-/

namespace PageLint.Text

/-! ### Parts of a split string -/

theorem extract_subset (s : String) (b e : String.Pos.Raw) :
    (String.Pos.Raw.extract s b e).toList ⊆ s.toList := by
  have upTo (cs : List Char) (i e : String.Pos.Raw) : String.Pos.Raw.extract.go₂ cs i e ⊆ cs := by
    induction cs generalizing i with
    | nil => exact List.nil_subset _
    | cons c cs ih =>
      rw [String.Pos.Raw.extract.go₂]
      split
      · exact List.nil_subset _
      · exact List.cons_subset_cons c (ih _)
  have from_ (cs : List Char) (i b e : String.Pos.Raw) :
      String.Pos.Raw.extract.go₁ cs i b e ⊆ cs := by
    induction cs generalizing i with
    | nil => exact List.nil_subset _
    | cons c cs ih =>
      rw [String.Pos.Raw.extract.go₁]
      split
      · exact upTo _ _ _
      · exact List.subset_cons_of_subset c (ih _)
  rw [String.Pos.Raw.extract]
  split
  · exact List.nil_subset _
  · rw [String.toList_ofList]
    exact from_ _ _ _ _

theorem splitOn_subset {s part sep : String} (member : part ∈ s.splitOn sep) :
    part.toList ⊆ s.toList := by
  have aux (b i j : String.Pos.Raw) (r : List String) (known : ∀ p ∈ r, p.toList ⊆ s.toList) :
      ∀ p ∈ s.splitOnAux sep b i j r, p.toList ⊆ s.toList := by
    fun_induction String.splitOnAux s sep b i j r with
    | case1 b i j r _ r' =>
      intro p member
      rcases List.mem_cons.mp (List.mem_reverse.mp member) with rfl | before
      · exact extract_subset s b i
      · exact known p before
    | case2 b i j r _ _ i' j' _ ih =>
      exact ih (List.forall_mem_cons.mpr ⟨extract_subset s _ _, known⟩)
    | case3 b i j r _ _ i' j' _ ih => exact ih known
    | case4 b i j r _ _ ih => exact ih known
  rw [String.splitOn] at member
  split at member
  · rw [List.mem_singleton.mp member]
    exact List.Subset.refl _
  · exact aux 0 0 0 [] (by simp) part member

end PageLint.Text

namespace PageLint.Html.Reference

open Text

theorem angle_not_mem_of_spelled {line : String} {spelled : List Char}
    (same : line = String.ofList spelled) (clean : spelled.contains '<' = false) :
    '<' ∉ line.toList := by
  rw [same, String.toList_ofList]
  simpa using clean

theorem angle_not_mem_table : ∀ line ∈ table, '<' ∉ line.toList := by
  dsimp only [table]
  repeat
    with_reducible
      refine List.forall_mem_cons.mpr ⟨angle_not_mem_of_spelled (Eq.refl _) (Eq.refl _), ?_⟩
  exact List.forall_mem_nil _

theorem angle_not_mem_name {name : String} {characters : List Char}
    (known : names[name]? = some characters) : '<' ∉ name.toList := by
  have listed : name ∈ names :=
    Std.HashMap.mem_iff_isSome_getElem?.mpr (by rw [known]; rfl)
  rw [names, Std.HashMap.mem_ofList, List.contains_iff_mem] at listed
  obtain ⟨entry, member, rfl⟩ := List.mem_map.mp listed
  obtain ⟨written, within, rfl⟩ := List.mem_map.mp member
  obtain ⟨line, row, part⟩ := List.mem_flatMap.mp within
  intro angle
  rw [readEntry, String.toList_ofList] at angle
  exact angle_not_mem_table line row
    (splitOn_subset part ((List.takeWhile_sublist _).subset angle))

/-- Whether so many characters are taken off a text, none of which is `<`. -/
def Takes (text : List Char) (n : Nat) : Prop :=
  ∃ taken back, text = taken ++ back ∧ taken.length = n ∧ '<' ∉ taken

theorem longest?_takes {text characters : List Char} {n length : Nat}
    (found : longest? text n = some (characters, length)) : Takes text length := by
  induction n with
  | zero => cases found
  | succ n ih =>
    rw [longest?] at found
    split at found
    · rename_i known
      cases found
      refine ⟨text.take (n + 1), text.drop (n + 1), (List.take_append_drop _ _).symm,
        List.length_take, ?_⟩
      have clean := angle_not_mem_name known
      rw [String.toList_ofList] at clean
      exact clean
    · exact ih found

theorem ofDigits?_takes {front digits rest : List Char} {value : Nat} {r : Reference}
    (read : ofDigits? front.length value digits rest = some r) (cleanFront : '<' ∉ front)
    (cleanDigits : '<' ∉ digits) : Takes (front ++ (digits ++ rest)) r.length := by
  rw [ofDigits?] at read
  split at read
  · cases read
  · cases read
    by_cases finished : rest.head? = some ';'
    · obtain ⟨back, rfl⟩ := List.head?_eq_some_iff.mp finished
      exact ⟨front ++ digits ++ [';'], back, by simp, by simp [Nat.add_assoc],
        by simp [cleanFront, cleanDigits]⟩
    · exact ⟨front ++ digits, rest, by simp, by simp [finished], by simp [cleanFront, cleanDigits]⟩

theorem digits_takes (front : List Char) {text : List Char} {p : Char → Bool} {value : Nat}
    {r : Reference} (digit : p '<' = false) (cleanFront : '<' ∉ front)
    (read : ofDigits? front.length value (text.takeWhile p)
      (text.drop (text.takeWhile p).length) = some r) : Takes (front ++ text) r.length := by
  have clean : '<' ∉ text.takeWhile p := by
    intro member
    rw [List.all_eq_true.mp List.all_takeWhile _ member] at digit
    cases digit
  have taken := ofDigits?_takes read cleanFront clean
  rw [List.prefix_iff_eq_append.mp (List.takeWhile_prefix p)] at taken
  exact taken

/-- A reference is spelled by a part of the text without `<`. -/
theorem read?_takes {inAttribute : Bool} {text : List Char} {r : Reference}
    (read : read? inAttribute text = some r) : Takes text r.length := by
  unfold read? at read
  split at read
  · unfold readNumber? at read
    dsimp only at read
    split at read
    · exact digits_takes ['#', 'x'] (by decide) (by decide) read
    · exact digits_takes ['#', 'X'] (by decide) (by decide) read
    · exact digits_takes ['#'] (by decide) (by decide) read
  · unfold readNamed? at read
    split at read
    · cases read
    · rename_i found
      dsimp only at read
      split at read
      · cases read
      · cases read
        exact longest?_takes found

end PageLint.Html.Reference
