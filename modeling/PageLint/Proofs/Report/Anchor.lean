import PageLint.Proofs.Markup.Sighting
import PageLint.Report.Basic

/-!
# Where issues stand

Every issue of a page names a start tag that the source really has, and its line is the line of that
tag. `issues_anchored` says so for both passes of the analysis, whatever the configuration.
-/

namespace PageLint.Markup

open Text

variable {c : Config} {text : List Char}

/-- Whether an opening tag of an element that should be closed stands at a byte of a source: its
name, in any case, with a blank or `>` after it. -/
def OpensAt (text name : List Char) (p : Nat) : Prop :=
  ∃ front spelled d back, text = front ++ '<' :: (spelled ++ d :: back) ∧ p = byteLength front ∧
    SameName name spelled ∧ (Text.isBlank d = true ∨ d = '>')

theorem Balance.opens_iff {name text : List Char} : opens name text = true ↔
    ∃ spelled d back, text = '<' :: (spelled ++ d :: back) ∧ SameName name spelled ∧
      (Text.isBlank d = true ∨ d = '>') := by
  constructor
  · intro passes
    unfold opens at passes
    split at passes
    · split at passes
      · rename_i found
        obtain ⟨spelled, rfl, same⟩ := afterPrefixFolded?_eq_some_iff.mp found
        exact ⟨spelled, _, _, rfl, same, by simpa using passes⟩
      · cases passes
    · cases passes
  · rintro ⟨spelled, d, back, rfl, same, ends⟩
    have found : afterPrefixFolded? name (spelled ++ d :: back) = some (d :: back) :=
      afterPrefixFolded?_eq_some_iff.mpr ⟨spelled, rfl, same⟩
    simpa [opens, found] using ends

theorem mem_places_opens {name : List Char} {p : Nat} :
    p ∈ places (Balance.opens name) text ↔ OpensAt text name p := by
  rw [mem_places]
  constructor
  · rintro ⟨front, e, rest, rfl, place, opens⟩
    obtain ⟨spelled, d, back, split, same, ends⟩ := Balance.opens_iff.mp opens
    exact ⟨front, spelled, d, back, by rw [split], place, same, ends⟩
  · rintro ⟨front, spelled, d, back, rfl, place, same, ends⟩
    exact ⟨front, '<', _, rfl, place, Balance.opens_iff.mpr ⟨spelled, d, back, rfl, same, ends⟩⟩

inductive AnchoredAt (c : Config) (text : List Char) (i : MarkupIssue) (p : Nat) : Prop
  /-- an issue about closing tags stands at the first opening tag of its element -/
  | closing {element : String} (listed : element ∈ Balance.elements)
    (rule : i.ruleId = Balance.rule.id) (tag : i.tag = "<" ++ element ++ ">")
    (first : IsLeast {q | OpensAt text element.toList q} p)
  /-- an issue of an element stands at a visible start tag of its name -/
  | element {name : String} {r : ElementRule} (selected : r ∈ ElementRule.selected c)
    (rule : i.ruleId = r.id) (tag : i.tag = "<" ++ name ++ ">")
    (place : TagAt text name.toList p)

theorem head?_sorted_isLeast {xs : List Nat} {p : Nat} (sorted : xs.Pairwise (· < ·))
    (first : xs.head? = some p) : IsLeast {q | q ∈ xs} p := by
  cases xs with
  | nil => cases first
  | cons q rest =>
    obtain rfl := Option.some.inj first
    refine ⟨List.mem_cons_self, ?_⟩
    intro other member
    rcases List.mem_cons.mp member with rfl | later
    · exact Nat.le_refl _
    · exact Nat.le_of_lt ((List.pairwise_cons.mp sorted).1 other later)

theorem Balance.isLeast_of_firstOpen {name : List Char} {p : Nat}
    (first : (Balance.ofText name text).firstOpen = some p) :
    IsLeast {q | OpensAt text name q} p := by
  have least := head?_sorted_isLeast (places_sorted _ text) first
  simpa only [mem_places_opens] using least

/-- An element that is opened more often than it is closed is opened somewhere. -/
theorem firstOpen_of_isUnclosed {name : List Char}
    (unclosed : (Balance.ofText name text).isUnclosed) :
    ∃ p, (Balance.ofText name text).firstOpen = some p ∧ IsLeast {q | OpensAt text name q} p := by
  have some_open : 0 < (places (Balance.opens name) text).length := by
    have more : (Balance.ofText name text).closed < (Balance.ofText name text).opened := by
      simpa [Balance.isUnclosed] using unclosed
    exact Nat.lt_of_le_of_lt (Nat.zero_le _) more
  obtain ⟨p, first⟩ := Option.isSome_iff_exists.mp (List.isSome_head?.mpr
    (List.ne_nil_of_length_pos some_open))
  exact ⟨p, first, Balance.isLeast_of_firstOpen first⟩

theorem check_anchored {i : MarkupIssue} (member : i ∈ Balance.check text) :
    ∃ p, i.line = .known (lineOf (some p) text) ∧ AnchoredAt c text i p := by
  obtain ⟨_, found, rfl⟩ := List.mem_map.mp member
  obtain ⟨counted, unclosed⟩ := List.mem_filter.mp found
  obtain ⟨element, listed, rfl⟩ := List.mem_map.mp counted
  obtain ⟨p, first, least⟩ := firstOpen_of_isUnclosed unclosed
  refine ⟨p, ?_, .closing listed rfl rfl least⟩
  show Line.resolve .firstLine (Balance.ofText element.toList text).firstOpen text = _
  rw [first]
  rfl

theorem inspect_anchored [PatternEngine] {i : MarkupIssue}
    (member : i ∈ inspect (ElementRule.selected c) text (parse text)) :
    ∃ p, i.line = .known (lineOf (some p) text) ∧ AnchoredAt c text i p := by
  obtain ⟨e, present, flagged⟩ := List.mem_flatMap.mp member
  obtain ⟨r, chosen, rfl⟩ := List.mem_map.mp flagged
  obtain ⟨p, offset, place⟩ := tagAt_of_mem_elements present
  refine ⟨p, ?_, .element (List.mem_filter.mp chosen).1 rfl rfl place⟩
  show Line.resolve .unknown (e.offset.or (findTag e.name.toList text)) text = _
  rw [offset]
  rfl

theorem AnchoredAt.split {i : MarkupIssue} {p : Nat} (anchored : AnchoredAt c text i p) :
    ∃ front back, text = front ++ back ∧ p = byteLength front := by
  cases anchored with
  | closing _ _ _ first =>
    obtain ⟨front, _, _, _, split, place, _⟩ := first.1
    exact ⟨front, _, split, place⟩
  | element _ _ _ place =>
    obtain ⟨front, _, _, split, place, _⟩ := place.written
    exact ⟨front, _, split, place⟩

/-- Every issue of a page has a line, that of the tag which `AnchoredAt` names: one more than the
line feeds before it. -/
theorem issues_anchored [PatternEngine] (c : Config) (text : List Char) :
    ∀ i ∈ analyzeMarkup c text, ∃ front back n, text = front ++ back ∧
      AnchoredAt c text i (byteLength front) ∧ i.line = .known n ∧ n = 1 + front.count '\n' ∧
      1 ≤ n ∧ n ≤ 1 + text.count '\n' := by
  intro i member
  have found : ∃ p, i.line = .known (lineOf (some p) text) ∧ AnchoredAt c text i p := by
    rw [analyzeMarkup] at member
    rcases List.mem_append.mp member with closing | element
    · split at closing
      · exact check_anchored closing
      · cases closing
    · exact inspect_anchored element
  obtain ⟨p, line, anchored⟩ := found
  obtain ⟨front, back, split, rfl⟩ := anchored.split
  have number : lineOf (some (byteLength front)) text = 1 + front.count '\n' := by
    rw [lineOf, split, newlinesBefore_byteLength]
  have inside : front.count '\n' ≤ text.count '\n' := by
    rw [split, List.count_append]
    exact Nat.le_add_right _ _
  exact ⟨front, back, _, split, anchored, line, number, by omega, by omega⟩

def blockAndImage : List Char := "<div><!-- <img> -->\n<IMG src=a>".toList

def imageIssue : MarkupIssue where
  ruleId := "html-img-alt"
  kind := "Missing alt attribute"
  tag := "<img>"
  line := .known 2
  solution := "Add alt=\"...\" attribute in <img>"

theorem issues_anchored_image : imageIssue ∈ analyzeMarkup {} blockAndImage ∧
    ∃ front back n, blockAndImage = front ++ back ∧
      AnchoredAt {} blockAndImage imageIssue (byteLength front) ∧ imageIssue.line = .known n ∧
      n = 1 + front.count '\n' ∧ 1 ≤ n ∧ n ≤ 1 + blockAndImage.count '\n' :=
  have reported : imageIssue ∈ analyzeMarkup {} blockAndImage := by decide +kernel
  ⟨reported, issues_anchored {} blockAndImage imageIssue reported⟩

end PageLint.Markup
