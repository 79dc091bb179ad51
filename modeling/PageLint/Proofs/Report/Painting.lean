import Mathlib.Data.List.Basic
import PageLint.Report.Form

/-!
# Paint on a report

`unpainted` takes the escape sequences out of a text. What is left of a painted report has the same
fragments as the plain report, but not the same columns: the plain report pads the place of an issue
to twelve characters, and in a painted one the escape sequences use them up.
`unpainted_report` says so, and that the two agree exactly if all places are wide enough by themselves.
-/

namespace PageLint

/-! ### Escape sequences -/

def isParameter (c : Char) : Bool :=
  Text.isDigit c || c == ';'

def afterSequence? (text : List Char) : Option (List Char) :=
  (Text.afterPrefix? ['\x1b', '['] text).bind fun rest =>
    Text.afterPrefix? ['m'] (rest.dropWhile isParameter)

theorem length_afterSequence?_lt {text after : List Char}
    (found : afterSequence? text = some after) : after.length < text.length := by
  obtain ⟨rest, start, ends⟩ := Option.bind_eq_some_iff.mp found
  have dropped := (List.dropWhile_suffix (l := rest) isParameter).length_le
  rw [Text.afterPrefix?_eq_some_iff.mp ends] at dropped
  rw [Text.afterPrefix?_eq_some_iff.mp start]
  simp only [List.length_append, List.length_cons, List.length_nil] at dropped ⊢
  omega

def unpainted (text : List Char) : List Char :=
  match text with
  | [] => []
  | c :: rest =>
    match _h : afterSequence? (c :: rest) with
    | some after => unpainted after
    | none => c :: unpainted rest
termination_by text.length
decreasing_by
  · exact length_afterSequence?_lt _h
  · simp_wf

theorem unpainted_of_sequence {text after : List Char} (found : afterSequence? text = some after) :
    unpainted text = unpainted after := by
  cases text with
  | nil => cases found
  | cons c rest =>
    rw [unpainted]
    split
    · rename_i found'
      rw [found] at found'
      cases found'
      rfl
    · rename_i none
      rw [found] at none
      cases none

theorem unpainted_cons {c : Char} (plain : c ≠ '\x1b') (rest : List Char) :
    unpainted (c :: rest) = c :: unpainted rest := by
  have none : afterSequence? (c :: rest) = none := by
    have start : Text.afterPrefix? ['\x1b', '['] (c :: rest) = none := if_neg plain.symm
    rw [afterSequence?, start, Option.bind_none]
  rw [unpainted]
  split
  · rename_i found
    rw [none] at found
    cases found
  · rfl

theorem unpainted_append {front : List Char} (unescaped : '\x1b' ∉ front) (back : List Char) :
    unpainted (front ++ back) = front ++ unpainted back := by
  induction front with
  | nil => rfl
  | cons c front ih =>
    rw [List.mem_cons, not_or] at unescaped
    rw [List.cons_append, unpainted_cons (Ne.symm unescaped.1), ih unescaped.2, List.cons_append]

namespace Style

theorem unpainted_sequence (s : Style) (back : List Char) :
    unpainted (s.sequence ++ back) = unpainted back := by
  apply unpainted_of_sequence
  cases s <;> rfl

theorem unpainted_reset (back : List Char) : unpainted (reset ++ back) = unpainted back :=
  unpainted_of_sequence rfl

/-- A style is turned on again only where escape sequences stand in the text. -/
theorem reapply_unescaped (s : Style) {text : List Char} (unescaped : '\x1b' ∉ text) :
    s.reapply text = text := by
  induction text with
  | nil => rw [reapply]
  | cons c rest ih =>
    rw [List.mem_cons, not_or] at unescaped
    have none : Text.afterPrefix? reset (c :: rest) = none := if_neg unescaped.1
    rw [reapply, none, ih unescaped.2]

theorem toList_paint (s : Style) {text : String} (unescaped : '\x1b' ∉ text.toList) :
    (s.paint text).toList = s.sequence ++ (text.toList ++ reset) := by
  rw [paint, s.reapply_unescaped unescaped, String.toList_ofList, List.append_assoc]

theorem unpainted_paint (s : Style) {text : String} (unescaped : '\x1b' ∉ text.toList)
    (back : List Char) :
    unpainted ((s.paint text).toList ++ back) = text.toList ++ unpainted back := by
  rw [s.toList_paint unescaped, List.append_assoc, s.unpainted_sequence, List.append_assoc,
    unpainted_append unescaped, unpainted_reset]

end Style

/-! ### The fragments of a report -/

inductive Fragment where
  | bare (text : String)
  | styled (style : Style) (text : String)
  /-- the place of an issue, which is padded -/
  | place (line : Line)

namespace Fragment

def text : Fragment → String
  | bare text => text
  | styled _ text => text
  | place line => "line " ++ line.render

def padded : Fragment → String
  | place line => TextSettings.padLeft 12 (place line).text
  | f => f.text

def draw (s : TextSettings) : Fragment → String
  | bare text => text
  | styled style text => s.paint style text
  | place line => TextSettings.padLeft 12 (s.paint .dimmed (place line).text)

def issue (s : TextSettings) (line : Line) (ruleId subject rest solution : String) :
    List Fragment :=
  [bare "  ", place line, bare "  "] ++
    (if s.ruleIds then [bare "[", styled .cyan ruleId, bare "] "] else []) ++
    [styled .boldYellow subject, bare rest, bare "\n"] ++
    if s.solutions then
      [bare "      ", styled .green "=", bare " fix: ", bare solution, bare "\n"]
    else []

def markupIssue (s : TextSettings) (i : MarkupIssue) : List Fragment :=
  issue s i.line i.ruleId i.kind (" " ++ i.tag) i.solution

def stylesheetIssue (s : TextSettings) (i : StylesheetIssue) : List Fragment :=
  issue s i.line i.ruleId i.property (": " ++ i.problem) i.solution

def listing (title : String) (issues : List (List Fragment)) : List Fragment :=
  if issues.isEmpty then []
  else
    styled .boldUnderlined (title ++ " (" ++ toString issues.length ++ ")") :: bare "\n" ::
      (issues.flatten ++ [bare "\n"])

def summary (count : Nat) : List Fragment :=
  if count = 0 then [styled .green "No issues found", bare "\n"]
  else
    [styled .boldYellow (toString count ++ " " ++ (if count = 1 then "issue" else "issues") ++
      " found"), bare "\n"]

end Fragment

namespace TextSettings

theorem issue_eq (s : TextSettings) (line : Line) (ruleId subject rest solution : String) :
    s.issue line ruleId subject rest solution =
      String.join ((Fragment.issue s line ruleId subject rest solution).map (Fragment.draw s)) := by
  have rule : String.join
      ((if s.ruleIds then [.bare "[", .styled .cyan ruleId, .bare "] "] else []).map
        (Fragment.draw s)) =
      if s.ruleIds then "[" ++ s.paint .cyan ruleId ++ "] " else "" := by
    split <;> simp [Fragment.draw, String.append_assoc]
  have fix : String.join
      ((if s.solutions then
          [.bare "      ", .styled .green "=", .bare " fix: ", .bare solution, .bare "\n"]
        else []).map (Fragment.draw s)) =
      if s.solutions then "      " ++ s.paint .green "=" ++ " fix: " ++ solution ++ "\n" else "" := by
    split <;> simp [Fragment.draw, String.append_assoc]
  rw [issue, Fragment.issue, List.map_append, List.map_append, List.map_append, String.join_append,
    String.join_append, String.join_append, rule, fix]
  simp [Fragment.draw, Fragment.text, String.append_assoc]

theorem listing_eq (s : TextSettings) (title : String) (issues : List (List Fragment)) :
    s.listing title (issues.map fun fs => String.join (fs.map (Fragment.draw s))) =
      String.join ((Fragment.listing title issues).map (Fragment.draw s)) := by
  have flat : String.join (issues.map fun fs => String.join (fs.map (Fragment.draw s))) =
      String.join (issues.flatten.map (Fragment.draw s)) := by
    induction issues with
    | nil => rfl
    | cons fs rest ih =>
      rw [List.map_cons, String.join_cons, ih, List.flatten_cons, List.map_append, String.join_append]
  rw [listing, Fragment.listing, List.isEmpty_map, List.length_map, flat]
  split
  · rfl
  · simp [Fragment.draw, heading, String.append_assoc]

theorem summaryLine_eq (s : TextSettings) (count : Nat) :
    s.summaryLine count = String.join ((Fragment.summary count).map (Fragment.draw s)) := by
  rw [summaryLine, Fragment.summary]
  split <;> simp [Fragment.draw]

def layout (s : TextSettings) (r : Report) : List Fragment :=
  Fragment.listing "HTML" (r.markup.map (Fragment.markupIssue s)) ++
    Fragment.listing "CSS" (r.stylesheet.map (Fragment.stylesheetIssue s)) ++
    if s.summary then Fragment.summary r.count else []

/-- A report consists of its fragments. -/
theorem render_eq_layout (s : TextSettings) (r : Report) :
    s.render r = String.join ((s.layout r).map (Fragment.draw s)) := by
  have markup : r.markup.map s.markupIssue =
      (r.markup.map (Fragment.markupIssue s)).map fun fs => String.join (fs.map (Fragment.draw s)) := by
    rw [List.map_map]
    refine List.map_congr_left fun i _ => ?_
    rw [Function.comp_apply, markupIssue, issue_eq, Fragment.markupIssue]
  have stylesheet : r.stylesheet.map s.stylesheetIssue =
      (r.stylesheet.map (Fragment.stylesheetIssue s)).map
        fun fs => String.join (fs.map (Fragment.draw s)) := by
    rw [List.map_map]
    refine List.map_congr_left fun i _ => ?_
    rw [Function.comp_apply, stylesheetIssue, issue_eq, Fragment.stylesheetIssue]
  have summary : (if s.summary then s.summaryLine r.count else "") =
      String.join ((if s.summary then Fragment.summary r.count else []).map (Fragment.draw s)) := by
    split
    · exact summaryLine_eq s r.count
    · rfl
  rw [render, layout, List.map_append, List.map_append, String.join_append, String.join_append,
    markup, stylesheet, listing_eq, listing_eq, summary]

end TextSettings

/-! ### Painted and plain reports -/

def Report.Unescaped (r : Report) : Prop :=
  (∀ i ∈ r.markup, ∀ text ∈ [i.ruleId, i.kind, i.tag, i.solution], '\x1b' ∉ text.toList) ∧
    ∀ i ∈ r.stylesheet, ∀ text ∈ [i.ruleId, i.property, i.problem, i.solution],
      '\x1b' ∉ text.toList

def Report.lines (r : Report) : List Line :=
  r.markup.map (·.line) ++ r.stylesheet.map (·.line)

/-- Whether a line in writing fills the place of an issue, so that it is not padded. -/
def Line.FillsPlace : Line → Prop
  | known n => 1000000 ≤ n
  | unknown => True

theorem escape_not_mem_toDigits (n : Nat) : '\x1b' ∉ Nat.toDigits 10 n := by
  intro member
  have digit := Nat.isDigit_of_mem_toDigits (by decide) (by decide) member
  cases digit

theorem Line.escape_not_mem_render (line : Line) : '\x1b' ∉ line.render.toList := by
  cases line with
  | known n => simpa [render] using escape_not_mem_toDigits n
  | unknown => decide

theorem Line.length_place_iff (line : Line) :
    12 ≤ ("line " ++ line.render).length ↔ line.FillsPlace := by
  cases line with
  | known n =>
    have digits := Nat.length_toDigits_le_iff (b := 10) (n := n) (k := 6) (by decide) (by decide)
    have word : "line ".length = 5 := by decide
    rw [String.length_append, word, render, Nat.toString_eq_ofList_toDigits, String.length_ofList,
      FillsPlace]
    omega
  | unknown => exact iff_of_true (by decide) trivial

namespace Fragment

def Unescaped (fs : List Fragment) : Prop :=
  ∀ f ∈ fs, '\x1b' ∉ f.text.toList

theorem unescaped_append {fs fs' : List Fragment} :
    Unescaped (fs ++ fs') ↔ Unescaped fs ∧ Unescaped fs' :=
  List.forall_mem_append

theorem unescaped_cons {f : Fragment} {fs : List Fragment} :
    Unescaped (f :: fs) ↔ '\x1b' ∉ f.text.toList ∧ Unescaped fs :=
  List.forall_mem_cons

theorem unescaped_nil : Unescaped [] :=
  List.forall_mem_nil _

theorem issue_unescaped (s : TextSettings) (line : Line) {ruleId subject rest solution : String}
    (texts : ∀ text ∈ [ruleId, subject, rest, solution], '\x1b' ∉ text.toList) :
    Unescaped (issue s line ruleId subject rest solution) := by
  simp only [List.forall_mem_cons] at texts
  obtain ⟨ruleId_clean, subject_clean, rest_clean, solution_clean, -⟩ := texts
  have place := line.escape_not_mem_render
  rw [issue, unescaped_append, unescaped_append, unescaped_append]
  refine ⟨⟨⟨?_, ?_⟩, ?_⟩, ?_⟩
  · simp [unescaped_cons, unescaped_nil, place, text]
  · split <;> simp [unescaped_cons, unescaped_nil, ruleId_clean, text]
  · simp [unescaped_cons, unescaped_nil, subject_clean, rest_clean, text]
  · split <;> simp [unescaped_cons, unescaped_nil, solution_clean, text]

theorem listing_unescaped {title : String} (unescaped : '\x1b' ∉ title.toList)
    {issues : List (List Fragment)} (all : ∀ fs ∈ issues, Unescaped fs) :
    Unescaped (listing title issues) := by
  rw [listing]
  split
  · exact unescaped_nil
  · have flat : Unescaped issues.flatten := by
      intro f member
      obtain ⟨fs, inside, member⟩ := List.mem_flatten.mp member
      exact all fs inside f member
    have number := escape_not_mem_toDigits issues.length
    simp [unescaped_cons, unescaped_append, unescaped_nil, flat, text, unescaped, number]

theorem summary_unescaped (count : Nat) : Unescaped (summary count) := by
  have number := escape_not_mem_toDigits count
  rw [summary]
  split
  · simp [unescaped_cons, unescaped_nil, text]
  · split <;> simp [unescaped_cons, unescaped_nil, text, number]

end Fragment

theorem TextSettings.layout_unescaped (s : TextSettings) {r : Report} (unescaped : r.Unescaped) :
    Fragment.Unescaped (s.layout r) := by
  rw [layout, Fragment.unescaped_append, Fragment.unescaped_append]
  refine ⟨⟨Fragment.listing_unescaped (by decide) ?_, Fragment.listing_unescaped (by decide) ?_⟩, ?_⟩
  · rintro fs member
    obtain ⟨i, inside, rfl⟩ := List.mem_map.mp member
    refine Fragment.issue_unescaped s i.line ?_
    simpa using unescaped.1 i inside
  · rintro fs member
    obtain ⟨i, inside, rfl⟩ := List.mem_map.mp member
    refine Fragment.issue_unescaped s i.line ?_
    simpa using unescaped.2 i inside
  · split
    · exact Fragment.summary_unescaped _
    · exact Fragment.unescaped_nil

namespace Fragment

def indent : Fragment → Nat
  | place line => 12 - (place line).text.length
  | _ => 0

theorem toList_padded (f : Fragment) :
    f.padded.toList = List.replicate f.indent ' ' ++ f.text.toList := by
  cases f with
  | place line => rw [padded, TextSettings.padLeft, String.toList_append, String.toList_ofList, indent]
  | _ => rfl

theorem draw_plain {s : TextSettings} (plain : s.painted = false) (f : Fragment) :
    f.draw s = f.padded := by
  cases f <;> simp [draw, padded, text, TextSettings.paint, plain]

/-- The escape sequences use up the room that a place has. -/
theorem padLeft_place (line : Line) :
    TextSettings.padLeft 12 (Style.dimmed.paint (place line).text) =
      Style.dimmed.paint (place line).text := by
  have word : "line ".length = 5 := by decide
  have unescaped : '\x1b' ∉ (place line).text.toList := by
    simpa [text] using line.escape_not_mem_render
  have length : 12 ≤ (Style.dimmed.paint (place line).text).length := by
    rw [← String.length_toList, Style.dimmed.toList_paint unescaped, List.length_append,
      List.length_append, String.length_toList, text, String.length_append, word]
    have marks : Style.dimmed.sequence.length = 4 ∧ Style.reset.length = 4 := by decide
    omega
  rw [TextSettings.padLeft, Nat.sub_eq_zero_of_le length]
  exact String.empty_append

theorem unpainted_draw {s : TextSettings} (painted : s.painted = true) {f : Fragment}
    (unescaped : '\x1b' ∉ f.text.toList) (back : List Char) :
    unpainted ((f.draw s).toList ++ back) = f.text.toList ++ unpainted back := by
  cases f with
  | bare text => exact unpainted_append unescaped back
  | styled style text =>
    rw [draw, TextSettings.paint, if_pos painted]
    exact style.unpainted_paint unescaped back
  | place line =>
    rw [draw, TextSettings.paint, if_pos painted, padLeft_place]
    exact Style.dimmed.unpainted_paint unescaped back

theorem unpainted_draws {s : TextSettings} (painted : s.painted = true) {fs : List Fragment}
    (unescaped : Unescaped fs) :
    unpainted (fs.flatMap fun f => (f.draw s).toList) = fs.flatMap fun f => f.text.toList := by
  induction fs with
  | nil => rw [List.flatMap_nil, unpainted, List.flatMap_nil]
  | cons f fs ih =>
    rw [unescaped_cons] at unescaped
    rw [List.flatMap_cons, unpainted_draw painted unescaped.1, ih unescaped.2, List.flatMap_cons]

def Flush (fs : List Fragment) : Prop :=
  ∀ f ∈ fs, f.indent = 0

theorem flush_append {fs fs' : List Fragment} : Flush (fs ++ fs') ↔ Flush fs ∧ Flush fs' :=
  List.forall_mem_append

theorem flush_cons {f : Fragment} {fs : List Fragment} :
    Flush (f :: fs) ↔ f.indent = 0 ∧ Flush fs :=
  List.forall_mem_cons

theorem flush_nil : Flush [] :=
  List.forall_mem_nil _

theorem length_text_le (fs : List Fragment) :
    (fs.flatMap fun f => f.text.toList).length ≤ (fs.flatMap fun f => f.padded.toList).length := by
  induction fs with
  | nil => exact Nat.le_refl _
  | cons f fs ih =>
    rw [List.flatMap_cons, List.flatMap_cons, List.length_append, List.length_append,
      f.toList_padded, List.length_append]
    omega

/-- A plain report has blanks where another text with the same fragments has none. -/
theorem text_eq_padded_iff (fs : List Fragment) :
    (fs.flatMap fun f => f.text.toList) = (fs.flatMap fun f => f.padded.toList) ↔ Flush fs := by
  constructor
  · intro same
    induction fs with
    | nil => exact flush_nil
    | cons f fs ih =>
      have later := length_text_le fs
      rw [List.flatMap_cons, List.flatMap_cons, f.toList_padded] at same
      have lengths := congrArg List.length same
      simp only [List.length_append, List.length_replicate] at lengths
      have none : f.indent = 0 := by omega
      rw [none, List.replicate_zero, List.nil_append] at same
      exact flush_cons.mpr ⟨none, ih (List.append_cancel_left same)⟩
  · intro flush
    refine List.flatMap_congr fun f member => ?_
    rw [f.toList_padded, flush f member, List.replicate_zero, List.nil_append]

theorem flush_issue (s : TextSettings) (line : Line) (ruleId subject rest solution : String) :
    Flush (issue s line ruleId subject rest solution) ↔ line.FillsPlace := by
  have place : (place line).indent = 0 ↔ line.FillsPlace := by
    rw [indent, Nat.sub_eq_zero_iff_le, text, line.length_place_iff]
  have rule : Flush (if s.ruleIds then [bare "[", styled .cyan ruleId, bare "] "] else []) := by
    split <;> simp [flush_cons, flush_nil, indent]
  have fix : Flush (if s.solutions then
      [bare "      ", styled .green "=", bare " fix: ", bare solution, bare "\n"] else []) := by
    split <;> simp [flush_cons, flush_nil, indent]
  rw [issue, flush_append, flush_append, flush_append, and_iff_left fix, and_assoc,
    and_iff_right rule]
  rw [← place]
  simp [flush_cons, flush_nil, indent]

theorem flush_listing (title : String) (issues : List (List Fragment)) :
    Flush (listing title issues) ↔ ∀ fs ∈ issues, Flush fs := by
  have flat : Flush issues.flatten ↔ ∀ fs ∈ issues, Flush fs := by
    simp only [Flush, List.mem_flatten]
    exact ⟨fun all fs inside f member => all f ⟨fs, inside, member⟩,
      fun all f ⟨fs, inside, member⟩ => all fs inside f member⟩
  rw [listing, ← flat]
  split
  · rename_i empty
    rw [List.isEmpty_iff.mp empty, List.flatten_nil]
  · simp [flush_cons, flush_append, flush_nil, indent]

theorem flush_summary (count : Nat) : Flush (summary count) := by
  rw [summary]
  split <;> simp [flush_cons, flush_nil, indent]

end Fragment

theorem TextSettings.flush_layout (s : TextSettings) (r : Report) :
    Fragment.Flush (s.layout r) ↔ ∀ line ∈ r.lines, line.FillsPlace := by
  have summary : Fragment.Flush (if s.summary then Fragment.summary r.count else []) := by
    split
    · exact Fragment.flush_summary _
    · exact Fragment.flush_nil
  rw [layout, Fragment.flush_append, Fragment.flush_append, and_iff_left summary,
    Fragment.flush_listing, Fragment.flush_listing, Report.lines, List.forall_mem_append]
  simp only [List.forall_mem_map, Fragment.markupIssue, Fragment.stylesheetIssue,
    Fragment.flush_issue]

/-! ### A painted report and the plain one -/

def TextSettings.paintedReport (s : TextSettings) (r : Report) : List Char :=
  ((ReportForm.text { s with painted := true }).render true r).toList

def TextSettings.plainReport (s : TextSettings) (r : Report) : List Char :=
  ((ReportForm.text { s with painted := false }).render true r).toList

theorem TextSettings.toList_render (s : TextSettings) (r : Report) :
    (s.render r).toList = (s.layout r).flatMap fun f => (f.draw s).toList := by
  rw [s.render_eq_layout]
  induction s.layout r with
  | nil => rfl
  | cons f fs ih =>
    rw [List.map_cons, String.join_cons, String.toList_append, ih, List.flatMap_cons]

/-- Without its escape sequences a painted report has the fragments of the plain one, but none of
the blanks that the plain one puts before the places of issues. The two agree exactly if there are
no such blanks, since each line in writing fills its place. -/
theorem unpainted_report (s : TextSettings) (r : Report) (unescaped : r.Unescaped) :
    unpainted (s.paintedReport r) = ((s.layout r).flatMap fun f => f.text.toList) ∧
      s.plainReport r = ((s.layout r).flatMap fun f => f.padded.toList) ∧
      (unpainted (s.paintedReport r) = s.plainReport r ↔ ∀ line ∈ r.lines, line.FillsPlace) := by
  have painted : unpainted (s.paintedReport r) = (s.layout r).flatMap fun f => f.text.toList := by
    have all : Fragment.Unescaped (TextSettings.layout { s with painted := true } r) :=
      TextSettings.layout_unescaped _ unescaped
    rw [TextSettings.paintedReport, ReportForm.render, TextSettings.toList_render]
    exact Fragment.unpainted_draws rfl all
  have plain : s.plainReport r = (s.layout r).flatMap fun f => f.padded.toList := by
    rw [TextSettings.plainReport, ReportForm.render, TextSettings.toList_render]
    exact List.flatMap_congr fun f _ => congrArg String.toList (f.draw_plain rfl)
  refine ⟨painted, plain, ?_⟩
  rw [painted, plain, Fragment.text_eq_padded_iff, s.flush_layout]

/-- A report on a page whose language is not known, and neither is the line that it should stand on. -/
def lineless : Report where
  markup := [⟨"html-lang", "Missing lang attribute", "<html>", .unknown, "Add lang=\"en\""⟩]

theorem unpainted_report_lineless :
    lineless.Unescaped ∧
      unpainted (TextSettings.paintedReport { ruleIds := true } lineless) =
        TextSettings.plainReport { ruleIds := true } lineless := by
  have unescaped : lineless.Unescaped := ⟨by decide, by decide⟩
  refine ⟨unescaped, (unpainted_report { ruleIds := true } lineless unescaped).2.2.mpr ?_⟩
  intro line member
  obtain rfl := List.mem_singleton.mp member
  trivial

def thirdLine : Report where
  markup := [⟨"html-img-alt", "Missing alt attribute", "<img>", .known 3, "Add alt=\"...\""⟩]

def issuesOnly : TextSettings where
  solutions := false
  summary := false

/-- The place of the image is flush in the painted report, and stands to the right in the plain one. -/
theorem unpainted_thirdLine :
    thirdLine.Unescaped ∧
      unpainted (issuesOnly.paintedReport thirdLine) =
        "HTML (1)\n  line 3  Missing alt attribute <img>\n\n".toList ∧
      issuesOnly.plainReport thirdLine =
        "HTML (1)\n        line 3  Missing alt attribute <img>\n\n".toList ∧
      unpainted (issuesOnly.paintedReport thirdLine) ≠ issuesOnly.plainReport thirdLine := by
  have painted : unpainted (issuesOnly.paintedReport thirdLine) =
      "HTML (1)\n  line 3  Missing alt attribute <img>\n\n".toList := by decide +kernel
  have plain : issuesOnly.plainReport thirdLine =
      "HTML (1)\n        line 3  Missing alt attribute <img>\n\n".toList := by decide +kernel
  refine ⟨⟨by decide, by decide⟩, painted, plain, ?_⟩
  rw [painted, plain]
  decide

end PageLint
