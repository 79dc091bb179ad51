import PageLint.Proofs.Html.RawText

/-!
# Names that no rule is about

What a start tag does to a page depends on its name, but no rule is about a name of more than ten
characters. A page that is one such tag has an element of that name in its body: `seen_longTag`.
-/

namespace PageLint.Html

section Names

variable {name : String} (long : 10 < name.length)
include long

theorem beq_short {s : String} (short : s.length ≤ 10) : (name == s) = false := by
  rw [beq_eq_false_iff_ne]
  rintro rfl
  omega

theorem contains_short {names : List String} (short : ∀ s ∈ names, s.length ≤ 10) :
    names.contains name = false := by
  rw [List.contains_eq_mem, decide_eq_false_iff_not]
  intro listed
  have := short name listed
  omega

end Names

namespace Builder

theorem bodyStart_long {name : String} (long : 10 < name.length) (b : Builder) :
    b.bodyStart { name } = b.reopenFormatting.insertHtml { name } := by
  unfold bodyStart
  simp (disch := decide) only [beq_short long, contains_short long, Bool.or_self,
    Bool.false_eq_true, if_false]

def atImpliedBody : Builder :=
  let root := createRoot { lenient := true } []
  let head := (root.enter .beforeHead).openHead { name := "head" }
  ((head.pop.enter .afterHead).insertImplied "body").enter .inBody

/-- A start tag that no rule is about comes into the body, which is made for it. -/
theorem read_long {name : String} (long : 10 < name.length) :
    read {} (.startTag { name }) = atImpliedBody.insertHtml { name } := by
  let t : Token := .startTag { name }
  let root := createRoot { lenient := true } []
  let head := (root.enter .beforeHead).openHead { name := "head" }
  have inHtml : inMode { lenient := true, mode := .beforeHtml } t =
      .again (root.enter .beforeHead) t := by
    show beforeHtml _ t = _
    simp (disch := decide) only [t, beforeHtml, beq_short long, Bool.false_eq_true, if_false]
    rfl
  have inHead : (root.enter .beforeHead).inMode t = .again head t := by
    show beforeHead _ t = _
    simp (disch := decide) only [t, beforeHead, beq_short long, Bool.false_eq_true, if_false]
    rfl
  have afterHead : head.inMode t = .again (head.pop.enter .afterHead) t := by
    show Builder.inHead _ t = _
    simp (disch := decide) only [t, Builder.inHead, beq_short long, contains_short long,
      Bool.or_self, Bool.false_eq_true, if_false]
    rfl
  have inBody : (head.pop.enter .afterHead).inMode t = .again atImpliedBody t := by
    show Builder.afterHead _ t = _
    simp (disch := decide) only [t, Builder.afterHead, beq_short long, contains_short long,
      Bool.false_eq_true, if_false]
    rfl
  have reopened : atImpliedBody.reopenFormatting = atImpliedBody := rfl
  have inserted : atImpliedBody.inMode t = .done (atImpliedBody.insertHtml { name }) := by
    have mode : atImpliedBody.mode = .inBody := rfl
    rw [Builder.inMode, mode]
    show Outcome.done (atImpliedBody.bodyStart { name }) = _
    simp only [bodyStart_long long, reopened]
  calc readAgain 20 {} t
      = readAgain 19 { lenient := true, mode := .beforeHtml } t := readAgain_again rfl rfl _
    _ = readAgain 18 (root.enter .beforeHead) t := readAgain_again rfl inHtml _
    _ = readAgain 17 head t := readAgain_again rfl inHead _
    _ = readAgain 16 (head.pop.enter .afterHead) t := readAgain_again rfl afterHead _
    _ = readAgain 15 atImpliedBody t := readAgain_again rfl inBody _
    _ = atImpliedBody.insertHtml { name } := readAgain_done rfl inserted _

end Builder

/-- The elements of a page that is one start tag of a long name. -/
theorem seen_longTag {name : List Char} (plain : PlainName name) (clean : '\r' ∉ name)
    (long : 10 < name.length) (levels : Nat) :
    Tree.seen levels (parse ('<' :: (name ++ ['>']))) =
      ["html", "head", "body", String.ofList name].map (·, []) := by
  have page : unifyLineEnds (withoutMark ('<' :: (name ++ ['>']))) = '<' :: (name ++ ['>']) := by
    have front : '\r' ∉ '<' :: name := by simpa using clean
    exact unifyLineEnds_plain front ['>']
  have length : 10 < (String.ofList name).length := by simpa using long
  have whole : (Builder.readAll {} ('<' :: (name ++ ['>']))) =
      Builder.atImpliedBody.insertHtml { name := String.ofList name } := by
    rw [Builder.readAll_startTag rfl plain, Builder.read_long length, Builder.readAll]
    rfl
  have parsed : parse ('<' :: (name ++ ['>'])) =
      [.element "html" [] [.element "head" [] [],
        .element "body" [] [.element (String.ofList name) [] []]]] := by
    have ordinary : ElementName.isHtml ⟨.html, String.ofList name⟩ "template" = false :=
      beq_short length (by decide)
    rw [parse, page, whole, Builder.insertHtml, Builder.insert, Builder.create]
    dsimp only
    rw [ordinary]
    rfl
  rw [parsed, Tree.seen_element, Tree.seen]
  rfl

end PageLint.Html
