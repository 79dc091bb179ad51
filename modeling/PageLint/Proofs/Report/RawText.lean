import Mathlib.Data.List.TakeWhile
import PageLint.Proofs.Markup.RawText
import PageLint.Proofs.Report.Presence
import PageLint.Proofs.Report.Selection

/-!
# Text that makes no difference

What a script, a style or another element of this kind holds says nothing about the elements of a
page. `raw_text_unread` says so of the issues about elements: an exchange of such a text changes
none of them, as long as it keeps the number of lines. In `noscript` a text may not hold a `<`, for
there tags are looked for.
-/

namespace PageLint

def elementIssues [Markup.PatternEngine] (c : Config) (text : List Char) : List MarkupIssue :=
  (analyzeMarkup c text).filter (·.ruleId != Markup.Balance.rule.id)

theorem elementIssues_eq_inspect [Markup.PatternEngine] (c : Config) (text : List Char) :
    elementIssues c text = Markup.inspect ((Markup.ElementRule.selected c).filter
      (·.id != Markup.Balance.rule.id)) text (Markup.parse text) := by
  have closing : (if c.checksClosing then Markup.Balance.check text else []).filter
      (·.ruleId != Markup.Balance.rule.id) = [] := by
    split
    · rw [check_filter (· != Markup.Balance.rule.id), if_neg (by simp)]
    · rfl
  rw [elementIssues, analyzeMarkup, List.filter_append, closing, List.nil_append]
  exact inspect_elementRules_filter (· != Markup.Balance.rule.id) _ _ _

/-- An element at the start of the body may hold any text that neither ends it nor starts a comment:
the issues about elements depend on the number of its lines only. A text in `noscript` may moreover
hold no `<`. -/
theorem raw_text_unread [Markup.PatternEngine] (c : Config) {name text text' : List Char}
    (known : name ∈ Html.textElements) (plain : Html.Plain text) (plain' : Html.Plain text')
    (clear : name = "noscript".toList → '<' ∉ text ∧ '<' ∉ text')
    (lines : text.count '\n' = text'.count '\n') (rest : List Char) :
    elementIssues c (Html.rawPage name text rest) =
      elementIssues c (Html.rawPage name text' rest) := by
  have unread : Markup.Unread name text := ⟨plain, fun same => (clear same).1⟩
  have unread' : Markup.Unread name text' := ⟨plain', fun same => (clear same).2⟩
  have seen := (Html.seen_rawPage known plain rest Markup.maxNesting).trans
    (Html.seen_rawPage known plain' rest Markup.maxNesting).symm
  have aligned := Markup.aligned_rawPage known unread' unread lines.symm rest
  rw [elementIssues_eq_inspect, elementIssues_eq_inspect]
  refine aligned.inspect_eq (fun x => Html.not_mem_name (by decide) (.inl rfl))
    (Markup.elements_parse _) ?_ _
  exact (Markup.elements_parse _).trans (congrArg (Markup.sighted _ 0) seen)

/-- A script with an image and the end of a comment in it is as good as any other of two lines. -/
theorem raw_text_unread_script :
    "script".toList ∈ Html.textElements ∧ Html.Plain "'<img>\n-->".toList ∧
      Html.Plain "x\n".toList ∧ "'<img>\n-->".toList.count '\n' = "x\n".toList.count '\n' ∧
      elementIssues {} (Html.rawPage "script".toList "'<img>\n-->".toList "<p><img>".toList) =
        elementIssues {} (Html.rawPage "script".toList "x\n".toList "<p><img>".toList) := by
  have known : "script".toList ∈ Html.textElements := by decide +kernel
  have plain : Html.Plain "'<img>\n-->".toList := ⟨by decide +kernel, by decide +kernel⟩
  have plain' : Html.Plain "x\n".toList := ⟨by decide +kernel, by decide +kernel⟩
  have lines : "'<img>\n-->".toList.count '\n' = "x\n".toList.count '\n' := by decide +kernel
  have other : ¬ "script".toList = "noscript".toList := by decide +kernel
  exact ⟨known, plain, plain', lines, raw_text_unread {} known plain plain'
    (fun same => absurd same other) lines "<p><img>".toList⟩

/-- What `noscript` holds is read as a text, but tags are looked for in it: an image behind it is
reported on the line of one that is none. -/
theorem noscript_text_read :
    "noscript".toList ∈ Html.textElements ∧ Html.Plain "<img>\n".toList ∧
      Html.Plain "x\n".toList ∧ "<img>\n".toList.count '\n' = "x\n".toList.count '\n' ∧
      (elementIssues {} (Html.rawPage "noscript".toList "<img>\n".toList "<img>".toList)).map
        (fun i => (i.ruleId, i.line)) = [("html-img-alt", .known 1)] ∧
      (elementIssues {} (Html.rawPage "noscript".toList "x\n".toList "<img>".toList)).map
        (fun i => (i.ruleId, i.line)) = [("html-img-alt", .known 2)] := by
  refine ⟨by decide +kernel, ⟨by decide +kernel, by decide +kernel⟩,
    ⟨by decide +kernel, by decide +kernel⟩, by decide +kernel, ?_, ?_⟩
  · decide +kernel
  · decide +kernel

end PageLint
