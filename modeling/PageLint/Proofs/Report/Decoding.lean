import PageLint.Proofs.Json.RoundTrip
import PageLint.Report.Form

/-!
# Reports in JSON, read again

A report in JSON holds all of the report but the rules that its issues come from. `report_decoded` says
what is read from it, in either layout, and that reports that differ in anything else differ in JSON.
-/

namespace PageLint

def MarkupIssue.anonymous (i : MarkupIssue) : MarkupIssue :=
  { i with ruleId := "" }

def StylesheetIssue.anonymous (i : StylesheetIssue) : StylesheetIssue :=
  { i with ruleId := "" }

def Report.anonymous (r : Report) : Report where
  markup := r.markup.map (·.anonymous)
  stylesheet := r.stylesheet.map (·.anonymous)

/-! ### Numbers and texts only -/

theorem Line.toJson_plain (line : Line) : line.toJson.IsPlain := by
  cases line with
  | known n => exact ⟨n, rfl⟩
  | unknown => trivial

theorem MarkupIssue.toJson_plain (i : MarkupIssue) : i.toJson.IsPlain :=
  ⟨trivial, trivial, i.line.toJson_plain, trivial, trivial⟩

theorem StylesheetIssue.toJson_plain (i : StylesheetIssue) : i.toJson.IsPlain :=
  ⟨trivial, trivial, i.line.toJson_plain, trivial, trivial⟩

theorem Report.toJson_plain (r : Report) : r.toJson.IsPlain :=
  ⟨Json.arePlain_map MarkupIssue.toJson_plain r.markup,
    Json.arePlain_map StylesheetIssue.toJson_plain r.stylesheet, trivial⟩

/-! ### What differs in JSON -/

theorem Line.toJson_injective : Function.Injective Line.toJson := by
  intro a b same
  cases a with
  | known m =>
    cases b with
    | known n =>
      have literals : toString m = toString n := Json.number.inj same
      have values := congrArg (Nat.ofDigitChars 10 ·.toList 0) literals
      simp only [Nat.toString_eq_ofList_toDigits, String.toList_ofList,
        Nat.ofDigitChars_ten_toDigits] at values
      rw [values]
    | unknown => cases same
  | unknown =>
    cases b with
    | known n => cases same
    | unknown => rfl

theorem MarkupIssue.toJson_eq_iff {i j : MarkupIssue} :
    i.toJson = j.toJson ↔ i.anonymous = j.anonymous := by
  simp [toJson, anonymous, Line.toJson_injective.eq_iff]

theorem StylesheetIssue.toJson_eq_iff {i j : StylesheetIssue} :
    i.toJson = j.toJson ↔ i.anonymous = j.anonymous := by
  simp [toJson, anonymous, Line.toJson_injective.eq_iff]

theorem map_eq_map_iff_of {α β γ : Type} {f : α → β} {g : α → γ} (same : ∀ a b, f a = f b ↔ g a = g b)
    (as bs : List α) : as.map f = bs.map f ↔ as.map g = bs.map g := by
  induction as generalizing bs with
  | nil => cases bs <;> simp
  | cons a as ih =>
    cases bs with
    | nil => simp
    | cons b bs => simp [same, ih]

theorem Report.toJson_eq_iff {r s : Report} : r.toJson = s.toJson ↔ r.anonymous = s.anonymous := by
  have markup := map_eq_map_iff_of (fun i j => MarkupIssue.toJson_eq_iff (i := i) (j := j))
    r.markup s.markup
  have stylesheet := map_eq_map_iff_of
    (fun i j => StylesheetIssue.toJson_eq_iff (i := i) (j := j)) r.stylesheet s.stylesheet
  simp [toJson, anonymous, markup, stylesheet]

/-- What is read from a report in JSON is, in either layout, all of the report but the rules. Two
reports that differ in more than rules differ in JSON, whatever their layouts, and two that differ in
rules only do not. -/
theorem report_decoded (r : Report) (pretty allowed : Bool) :
    Json.read? ((ReportForm.json pretty).render allowed r) =
      some (.object [
        ("htmlIssues", .array (r.markup.map fun i => .object [
          ("type", .string i.kind),
          ("tag", .string i.tag),
          ("line", match i.line with
            | .known n => .number (toString n)
            | .unknown => .string "Unknown"),
          ("solution", .string i.solution)])),
        ("cssIssues", .array (r.stylesheet.map fun i => .object [
          ("property", .string i.property),
          ("problem", .string i.problem),
          ("line", match i.line with
            | .known n => .number (toString n)
            | .unknown => .string "Unknown"),
          ("solution", .string i.solution)]))]) ∧
      (∀ other otherPretty, (ReportForm.json pretty).render allowed r =
        (ReportForm.json otherPretty).render allowed other → r.anonymous = other.anonymous) ∧
      ∀ other, r.anonymous = other.anonymous →
        (ReportForm.json pretty).render allowed r = (ReportForm.json pretty).render allowed other := by
  refine ⟨?_, ?_, ?_⟩
  · exact Json.read?_render pretty r.toJson_plain
  · intro other otherPretty same
    have values := congrArg Json.read? same
    rw [ReportForm.render, ReportForm.render, Json.read?_render pretty r.toJson_plain,
      Json.read?_render otherPretty other.toJson_plain] at values
    exact Report.toJson_eq_iff.mp (Option.some.inj values)
  · intro other same
    exact congrArg (Json.render pretty) (Report.toJson_eq_iff.mpr same)

def oddProperty : Report where
  markup := [⟨"html-lang", "Missing lang attribute", "<html>", .unknown, "Add lang"⟩]
  stylesheet := [⟨"css-important", "\"é\\\x01\n😀", "Avoid !important", .known 120, "Remove it"⟩]

theorem report_decoded_oddProperty :
    (ReportForm.json true).render false oddProperty ≠
        (ReportForm.json false).render false { oddProperty with markup := [] } ∧
      (ReportForm.json true).render false oddProperty =
        (ReportForm.json true).render false oddProperty.anonymous := by
  obtain ⟨-, differs, alike⟩ := report_decoded oddProperty true false
  refine ⟨fun same => absurd (differs _ _ same) (by decide), alike _ (by decide)⟩

end PageLint
