import PageLint.Proofs.Html.LineEnd
import PageLint.Proofs.Markup.Returns
import PageLint.Proofs.Report.Presence
import PageLint.Report.Basic

/-!
# Pages with carriage returns

Line ends of two characters change nothing in the report on a page: its elements are the same ones
and stand on the same lines, and its tags are opened and closed as often.
`analyzeMarkup_withReturns` says so for every configuration.
-/

namespace PageLint

open Text

namespace Markup.Balance

theorem opens_angle (name rest : List Char) :
    opens name ('<' :: rest) = (afterPrefixFolded? name rest).any
      (·.head?.any fun c => isBlank c || c == '>') := by
  rw [opens]
  rcases afterPrefixFolded? name rest with _ | _ | ⟨c, back⟩ <;> rfl

theorem closes_angle (name rest : List Char) :
    closes name ('<' :: '/' :: rest) = (afterPrefixFolded? name rest).any
      (·.head?.any (· == '>')) := by
  rw [closes]
  rcases afterPrefixFolded? name rest with _ | _ | ⟨c, back⟩
  · rfl
  · rfl
  · by_cases bracket : c = '>'
    · subst bracket
      rfl
    · dsimp only [Option.any, List.head?]
      split
      · rename_i same
        exact absurd (List.cons.inj (Option.some.inj same)).1 bracket
      · exact (beq_eq_false_iff_ne.mpr bracket).symm

theorem atTags_opens {name : List Char} (clean : OneLine name) : AtTags (opens name) where
  angle passes := by
    unfold opens at passes
    split at passes
    · rename_i split
      exact (List.cons.inj split).1
    · cases passes
  withReturns rest := by
    rw [opens_angle, opens_angle, afterPrefixFolded?_withReturns clean, Option.any_map]
    exact congrArg (Option.any · _) (funext (any_head?_withReturns (by decide)))

theorem atTags_closes {name : List Char} (clean : OneLine name) : AtTags (closes name) where
  angle passes := by
    unfold closes at passes
    split at passes
    · rename_i split
      exact (List.cons.inj split).1
    · cases passes
  withReturns rest := by
    by_cases slash : ∃ after, rest = '/' :: after
    · obtain ⟨after, rfl⟩ := slash
      rw [withReturns_cons (by decide), closes_angle, closes_angle,
        afterPrefixFolded?_withReturns clean, Option.any_map]
      exact congrArg (Option.any · _) (funext (any_head?_withReturns (by decide)))
    · have fails (rest : List Char) (other : ¬ ∃ after, rest = '/' :: after) :
          closes name ('<' :: rest) = false := by
        unfold closes
        split
        · rename_i split
          exact absurd ⟨_, (List.cons.inj split).2⟩ other
        · rfl
      rw [fails rest slash, fails]
      rintro ⟨after, split⟩
      have oneLine : OneLine ['/'] := by decide
      obtain ⟨rest, whole, _⟩ := rest_of_withReturns oneLine split
      exact slash ⟨rest, whole⟩

/-- An element is opened and closed as often, and first opened at the same tag. -/
theorem ofText_withReturns {name : List Char} (clean : OneLine name) (text : List Char) :
    (ofText name (withReturns text)).isUnclosed = (ofText name text).isUnclosed ∧
      Option.Rel (Moved text) (ofText name text).firstOpen
        (ofText name (withReturns text)).firstOpen := by
  have opened := (atTags_opens clean).places_withReturns text
  have closed := (atTags_closes clean).places_withReturns text
  constructor
  · exact decide_eq_decide.mpr (by
      show _ < _ ↔ _ < _
      rw [ofText, ofText, opened.length_eq, closed.length_eq])
  · unfold ofText
    generalize places (opens name) text = before at opened
    generalize places (opens name) (withReturns text) = after at opened
    cases opened with
    | nil => exact .none
    | cons first _ => exact .some first

theorem resolve_withReturns {text : List Char} {offset offset' : Option Nat}
    (moved : Option.Rel (Moved text) offset offset') (policy : LinePolicy) :
    Line.resolve policy offset' (withReturns text) = Line.resolve policy offset text := by
  cases moved with
  | none => cases policy <;> rfl
  | some first =>
    unfold Line.resolve
    dsimp only
    rw [first.line]

theorem check_eq (text : List Char) : check text =
    (elements.filter fun e => (ofText e.toList text).isUnclosed).map fun e =>
      issue text e (ofText e.toList text) := by
  rw [check, unclosed, List.filter_map, List.map_map]
  rfl

/-- What is counted of a source is counted as often if there are returns in it. -/
theorem check_withReturns (text : List Char) : check (withReturns text) = check text := by
  have clean : ∀ e ∈ elements, OneLine e.toList := by decide +kernel
  rw [check_eq, check_eq, List.filter_congr fun e known => (ofText_withReturns (clean e known) text).1]
  refine List.map_congr_left fun e known => ?_
  have first := (ofText_withReturns (clean e (List.mem_filter.mp known).1) text).2
  rw [issue, issue, resolve_withReturns first]

end Markup.Balance

/-- The report on a page is the same if each of its line feeds comes after a carriage return. -/
theorem analyzeMarkup_withReturns [Markup.PatternEngine] (c : Config) {text : List Char}
    (clean : '\r' ∉ text) : analyzeMarkup c (withReturns text) = analyzeMarkup c text := by
  have parsed := Html.parse_withReturns clean
  have names : ∀ x ∈ Html.Tree.seen Markup.maxNesting (Html.parse text), OneLine x.1.toList := by
    intro x member
    have clean' : '\r' ∉ Html.unifyLineEnds (Html.withoutMark text) :=
      Html.return_not_mem_unifyLineEnds _
    exact ⟨Html.not_mem_name (by decide) (.inr clean') member,
      Html.not_mem_name (by decide) (.inl rfl) member⟩
  have elements := Markup.elements_parse (withReturns text)
  rw [parsed] at elements
  rw [analyzeMarkup, analyzeMarkup, Markup.Balance.check_withReturns,
    (Markup.aligned_withReturns text).inspect_eq names (Markup.elements_parse text) elements]

/-- A page with line feeds in a comment, in a quoted value, after the name of a tag and in a script. -/
def linedPage : List Char :=
  "<!-- <p>\n--><a title='<img>\n'>x</a><script>'<img>\n'</script>\n<div><img\nsrc=x>".toList

/-- The image of this page stands on its fifth line, with returns and without them. -/
theorem analyzeMarkup_withReturns_linedPage :
    '\r' ∉ linedPage ∧
      analyzeMarkup {} (withReturns linedPage) = analyzeMarkup {} linedPage ∧
      (analyzeMarkup {} linedPage).map (fun i => (i.ruleId, i.line)) =
        [("html-closing-tag", .known 5), ("html-closing-tag", .known 1),
          ("html-anchor-href", .known 2), ("html-img-alt", .known 5)] := by
  have clean : '\r' ∉ linedPage := by decide +kernel
  refine ⟨clean, analyzeMarkup_withReturns {} clean, ?_⟩
  decide +kernel

end PageLint
