import PageLint.Proofs.Html.RawText
import PageLint.Proofs.Html.Written
import PageLint.Proofs.Text.Returns

/-!
# Line ends in the text of a page

Reading a page takes the carriage returns out of it, so a page with line ends of two characters has
the parts that it has with line feeds alone: `parse_withReturns`.
-/

namespace PageLint.Html

open Text

theorem return_not_mem_unifyLineEnds (text : List Char) : '\r' ∉ unifyLineEnds text := by
  fun_induction unifyLineEnds text with
  | case1 => exact List.not_mem_nil
  | case2 text ih => exact List.not_mem_cons_of_ne_of_not_mem (by decide) ih
  | case3 c text _ ih =>
    refine List.not_mem_cons_of_ne_of_not_mem ?_ ih
    split
    · decide
    · rename_i other
      exact Ne.symm other

theorem unifyLineEnds_withReturns {text : List Char} (clean : '\r' ∉ text) :
    unifyLineEnds (withReturns text) = unifyLineEnds text := by
  induction text with
  | nil => rfl
  | cons c text ih =>
    obtain ⟨no_return, clean⟩ := not_or.mp (List.mem_cons.not.mp clean)
    rw [unifyLineEnds_cons (Ne.symm no_return), ← ih clean]
    by_cases newline : c = '\n'
    · subst newline
      rfl
    · rw [withReturns_cons newline, unifyLineEnds_cons (Ne.symm no_return)]

theorem withoutMark_withReturns (text : List Char) :
    withoutMark (withReturns text) = withReturns (withoutMark text) := by
  cases text with
  | nil => rfl
  | cons c text =>
    by_cases newline : c = '\n'
    · subst newline
      rfl
    · rw [withReturns_cons newline]
      by_cases mark : c = '\ufeff'
      · subst mark
        rfl
      · have kept (rest : List Char) : withoutMark (c :: rest) = c :: rest := by
          unfold withoutMark
          split
          · rename_i same
            exact absurd (List.cons.inj same).1 mark
          · rfl
        rw [kept, kept, withReturns_cons newline]

/-- The carriage returns of line ends say nothing about the parts of a page. -/
theorem parse_withReturns {text : List Char} (clean : '\r' ∉ text) :
    parse (withReturns text) = parse text := by
  obtain ⟨mark, split⟩ := exists_mark text
  have clean' : '\r' ∉ withoutMark text := fun member =>
    clean (split ▸ List.mem_append_right mark member)
  rw [parse, parse, withoutMark_withReturns, unifyLineEnds_withReturns clean']

end PageLint.Html
