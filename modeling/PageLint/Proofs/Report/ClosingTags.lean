import Mathlib.Data.Set.Card
import PageLint.Proofs.Report.Anchor
import PageLint.Proofs.Report.Returns

/-!
# Counting tags

Opening and closing tags may be counted one after the other, each search going on behind the last
match: no tag stands in another, so none is missed (`found_eq_places`). For the same reason the tags
of two texts add up where the second starts with `<`. `closing_tags_counted` says so of every
element that should be closed, and that adding the closing tags that are missing leaves none to
report.
-/

namespace PageLint.Markup

open Text

namespace Balance

/-- The offsets of the matches of a test in a text that starts at `start`, found one after the other.
A match takes `size` characters, and the search goes on behind it; `skip` of them are still to pass. -/
def foundFrom (test : List Char → Bool) (size : Nat) (start skip : Nat) : List Char → List Nat
  | [] => []
  | c :: rest =>
    match skip with
    | skip + 1 => foundFrom test size (start + c.utf8Size) skip rest
    | 0 =>
      if test (c :: rest) then start :: foundFrom test size (start + c.utf8Size) (size - 1) rest
      else foundFrom test size (start + c.utf8Size) 0 rest

def found (test : List Char → Bool) (size : Nat) (text : List Char) : List Nat :=
  foundFrom test size 0 0 text

/-- The balance of an element, with its tags found one after the other: the first opening tag, and
how many follow it. -/
def scanned (name text : List Char) : Balance :=
  let closed := (found (closes name) (name.length + 3) text).length
  match found (opens name) (name.length + 2) text with
  | [] => ⟨0, closed, none⟩
  | first :: others => ⟨1 + others.length, closed, some first⟩

/-- Whether a closing tag of an element stands at a byte of a text: its name, in any case, between
`</` and `>`. -/
def ClosesAt (text name : List Char) (p : Nat) : Prop :=
  ∃ front spelled back, text = front ++ '<' :: '/' :: (spelled ++ '>' :: back) ∧
    p = byteLength front ∧ SameName name spelled

def closingTag (element : String) : List Char :=
  '<' :: '/' :: (element.toList ++ ['>'])

def Angled (text : List Char) : Prop :=
  text = [] ∨ ∃ rest, text = '<' :: rest

/-- A test passes where one of certain words of one size follows `<`. None of them holds a `<`. -/
structure FindsTags (test : List Char → Bool) (size : Nat) (word : List Char → Prop) : Prop where
  passes_iff : ∀ text, test text = true ↔ ∃ w back, text = '<' :: (w ++ back) ∧ word w
  size_eq : ∀ w, word w → w.length + 1 = size
  clean : ∀ w, word w → '<' ∉ w

namespace FindsTags

variable {test : List Char → Bool} {size : Nat} {word : List Char → Prop}
  (finds : FindsTags test size word)
include finds

theorem found_eq_places (start skip : Nat) (text : List Char) (clean : '<' ∉ text.take skip) :
    foundFrom test size start skip text = placesFrom start test text := by
  induction text generalizing start skip with
  | nil => rfl
  | cons c rest ih =>
    rw [placesFrom]
    cases skip with
    | succ skip =>
      rw [List.take_succ_cons, List.mem_cons, not_or] at clean
      have fails : ¬ test (c :: rest) = true := by
        intro passes
        obtain ⟨w, back, split, _⟩ := (finds.passes_iff _).mp passes
        exact clean.1 (List.cons.inj split).1.symm
      rw [foundFrom, ih _ _ clean.2, if_neg fails]
    | zero =>
      rw [foundFrom]
      split
      · rename_i passes
        obtain ⟨w, back, split, is_word⟩ := (finds.passes_iff _).mp passes
        obtain ⟨rfl, rfl⟩ := List.cons.inj split
        have inside : (w ++ back).take (size - 1) = w := by
          rw [← finds.size_eq w is_word, Nat.add_sub_cancel, List.take_left]
        rw [ih]
        rw [inside]
        exact finds.clean w is_word
      · exact ih _ _ (by simp)

/-- A tag does not reach into what starts with another. -/
theorem passes_append {s d : List Char} (nonempty : s ≠ []) (angled : Angled d) :
    test (s ++ d) = test s := by
  rw [Bool.eq_iff_iff, finds.passes_iff, finds.passes_iff]
  obtain ⟨c, s, rfl⟩ := List.exists_cons_of_ne_nil nonempty
  constructor
  · rintro ⟨w, back, split, is_word⟩
    obtain ⟨rfl, tails⟩ := List.cons.inj split
    rcases List.append_eq_append_iff.mp tails with ⟨more, rfl, rest⟩ | ⟨more, rfl, _⟩
    · cases more with
      | nil => exact ⟨s, [], by simp, by simpa using is_word⟩
      | cons e more =>
        rcases angled with rfl | ⟨d, rfl⟩
        · cases rest
        · obtain ⟨rfl, _⟩ := List.cons.inj rest
          exact absurd (by simp) (finds.clean _ is_word)
    · exact ⟨w, more, rfl, is_word⟩
  · rintro ⟨w, back, split, is_word⟩
    obtain ⟨rfl, rfl⟩ := List.cons.inj split
    exact ⟨w, back ++ d, by simp, is_word⟩

theorem placesFrom_append {d : List Char} (angled : Angled d) (start : Nat) (s : List Char) :
    placesFrom start test (s ++ d) =
      placesFrom start test s ++ placesFrom (start + byteLength s) test d := by
  induction s generalizing start with
  | nil => rfl
  | cons c s ih =>
    have same := finds.passes_append (List.cons_ne_nil c s) angled
    rw [List.cons_append] at same
    rw [List.cons_append, placesFrom, placesFrom, same, ih, byteLength_cons, Nat.add_assoc]
    split <;> rfl

end FindsTags

theorem length_placesFrom (test : List Char → Bool) (start start' : Nat) (text : List Char) :
    (placesFrom start test text).length = (placesFrom start' test text).length := by
  induction text generalizing start start' with
  | nil => rfl
  | cons c rest ih =>
    rw [placesFrom, placesFrom]
    split
    · exact congrArg Nat.succ (ih _ _)
    · exact ih _ _

/-- Where no tag reaches over the border, the tags of two texts add up. -/
theorem FindsTags.count_append {test : List Char → Bool} {size : Nat} {word : List Char → Prop}
    (finds : FindsTags test size word) {d : List Char} (angled : Angled d) (s : List Char) :
    (places test (s ++ d)).length = (places test s).length + (places test d).length := by
  rw [places, finds.placesFrom_append angled, List.length_append,
    length_placesFrom test (0 + byteLength s) 0, places, places]

/-! ### The tags of an element -/

theorem closes_iff {name text : List Char} : closes name text = true ↔
    ∃ spelled back, text = '<' :: '/' :: (spelled ++ '>' :: back) ∧ SameName name spelled := by
  constructor
  · intro passes
    unfold closes at passes
    split at passes
    · split at passes
      · rename_i found
        obtain ⟨spelled, rfl, same⟩ := afterPrefixFolded?_eq_some_iff.mp found
        exact ⟨spelled, _, rfl, same⟩
      · cases passes
    · cases passes
  · rintro ⟨spelled, back, rfl, same⟩
    have found : afterPrefixFolded? name (spelled ++ '>' :: back) = some ('>' :: back) :=
      afterPrefixFolded?_eq_some_iff.mpr ⟨spelled, rfl, same⟩
    simp [closes, found]

theorem mem_places_closes {text name : List Char} {p : Nat} :
    p ∈ places (closes name) text ↔ ClosesAt text name p := by
  rw [mem_places]
  constructor
  · rintro ⟨front, e, rest, rfl, place, passes⟩
    obtain ⟨spelled, back, split, same⟩ := closes_iff.mp passes
    exact ⟨front, spelled, back, by rw [split], place, same⟩
  · rintro ⟨front, spelled, back, rfl, place, same⟩
    exact ⟨front, '<', _, rfl, place, closes_iff.mpr ⟨spelled, back, rfl, same⟩⟩

theorem length_eq_of_sameName {a b : List Char} (same : SameName a b) : b.length = a.length := by
  have lengths := congrArg List.length same
  rw [List.length_map, List.length_map] at lengths
  exact lengths.symm

theorem findsTags_opens {name : List Char} (clean : '<' ∉ name) :
    FindsTags (opens name) (name.length + 2) fun w =>
      ∃ spelled d, w = spelled ++ [d] ∧ SameName name spelled ∧ (isBlank d = true ∨ d = '>') where
  passes_iff text := by
    rw [opens_iff]
    constructor
    · rintro ⟨spelled, d, back, rfl, same, ends⟩
      exact ⟨spelled ++ [d], back, by simp, spelled, d, rfl, same, ends⟩
    · rintro ⟨_, back, rfl, spelled, d, rfl, same, ends⟩
      exact ⟨spelled, d, back, by simp, same, ends⟩
  size_eq := by
    rintro _ ⟨spelled, d, rfl, same, _⟩
    rw [List.length_append, length_eq_of_sameName same, List.length_singleton]
  clean := by
    rintro _ ⟨spelled, d, rfl, same, ends⟩ member
    rcases List.mem_append.mp member with inside | last
    · exact same.not_mem (by decide) clean inside
    · obtain rfl := List.mem_singleton.mp last
      revert ends
      decide

theorem findsTags_closes {name : List Char} (clean : '<' ∉ name) :
    FindsTags (closes name) (name.length + 3) fun w =>
      ∃ spelled, w = '/' :: (spelled ++ ['>']) ∧ SameName name spelled where
  passes_iff text := by
    rw [closes_iff]
    constructor
    · rintro ⟨spelled, back, rfl, same⟩
      exact ⟨'/' :: (spelled ++ ['>']), back, by simp, spelled, rfl, same⟩
    · rintro ⟨_, back, rfl, spelled, rfl, same⟩
      exact ⟨spelled, back, by simp, same⟩
  size_eq := by
    rintro _ ⟨spelled, rfl, same⟩
    rw [List.length_cons, List.length_append, length_eq_of_sameName same, List.length_singleton]
  clean := by
    rintro _ ⟨spelled, rfl, same⟩ member
    have inside : '<' ∈ spelled := by simpa using member
    exact same.not_mem (by decide) clean inside

/-- The search that goes on behind each tag finds all tags. -/
theorem scanned_eq_ofText {name : List Char} (clean : '<' ∉ name) (text : List Char) :
    scanned name text = ofText name text := by
  have opened : found (opens name) (name.length + 2) text = places (opens name) text :=
    (findsTags_opens clean).found_eq_places 0 0 text (by simp)
  have closed : found (closes name) (name.length + 3) text = places (closes name) text :=
    (findsTags_closes clean).found_eq_places 0 0 text (by simp)
  rw [scanned, ofText, opened, closed]
  cases places (opens name) text with
  | nil => rfl
  | cons first others =>
    rw [List.length_cons, List.head?_cons, Nat.add_comm]

theorem length_places (test : List Char → Bool) (text : List Char) :
    (places test text).length = Set.ncard {p | p ∈ places test text} := by
  have distinct : (places test text).Nodup :=
    (places_sorted test text).imp Nat.ne_of_lt
  rw [← List.toFinset_card_of_nodup distinct, ← Set.ncard_coe_finset, List.coe_toFinset]

theorem opened_ofText (name text : List Char) :
    (ofText name text).opened = Set.ncard {p | OpensAt text name p} := by
  show (places (opens name) text).length = _
  rw [length_places]
  simp only [mem_places_opens]

theorem closed_ofText (name text : List Char) :
    (ofText name text).closed = Set.ncard {p | ClosesAt text name p} := by
  show (places (closes name) text).length = _
  rw [length_places]
  simp only [mem_places_closes]

theorem firstOpen_ofText_eq_none_iff (name text : List Char) :
    (ofText name text).firstOpen = none ↔ (ofText name text).opened = 0 := by
  rw [ofText, List.head?_eq_none_iff, List.length_eq_zero_iff]

/-! ### Adding closing tags -/

theorem angled_closingTags (tags : List String) : Angled (tags.flatMap closingTag) := by
  cases tags with
  | nil => exact .inl rfl
  | cons t tags => exact .inr ⟨_, rfl⟩

theorem not_mem_elements : ∀ e ∈ elements, '<' ∉ e.toList := by
  decide +kernel

/-- A closing tag opens no element, and closes its own one only. -/
theorem counts_closingTag : ∀ e ∈ elements, ∀ t ∈ elements,
    (ofText e.toList (closingTag t)).opened = 0 ∧
      (ofText e.toList (closingTag t)).closed = if t = e then 1 else 0 := by
  decide +kernel

theorem counts_append {name d : List Char} (clean : '<' ∉ name) (angled : Angled d)
    (text : List Char) :
    (ofText name (text ++ d)).opened = (ofText name text).opened + (ofText name d).opened ∧
      (ofText name (text ++ d)).closed = (ofText name text).closed + (ofText name d).closed :=
  ⟨(findsTags_opens clean).count_append angled text,
    (findsTags_closes clean).count_append angled text⟩

theorem counts_closingTags {e : String} (listed : e ∈ elements) {tags : List String}
    (known : ∀ t ∈ tags, t ∈ elements) :
    (ofText e.toList (tags.flatMap closingTag)).opened = 0 ∧
      (ofText e.toList (tags.flatMap closingTag)).closed = tags.count e := by
  induction tags with
  | nil => exact ⟨rfl, rfl⟩
  | cons t tags ih =>
    obtain ⟨opened, closed⟩ := ih fun t member => known t (List.mem_cons_of_mem _ member)
    obtain ⟨own_opened, own_closed⟩ := counts_closingTag e listed t (known t List.mem_cons_self)
    obtain ⟨all_opened, all_closed⟩ :=
      counts_append (not_mem_elements e listed) (angled_closingTags tags) (closingTag t)
    rw [List.flatMap_cons, all_opened, all_closed, opened, closed, own_opened, own_closed,
      List.count_cons]
    refine ⟨rfl, ?_⟩
    simp only [beq_iff_eq]
    exact Nat.add_comm _ _

/-- The closing tags that are missing close what is open. -/
theorem check_closingTags {text : List Char} {tags : List String}
    (missing : tags.Perm (elements.flatMap fun e =>
      List.replicate ((ofText e.toList text).opened - (ofText e.toList text).closed) e)) :
    check (text ++ tags.flatMap closingTag) = [] := by
  have known : ∀ t ∈ tags, t ∈ elements := by
    intro t member
    obtain ⟨e, listed, copy⟩ := List.mem_flatMap.mp (missing.mem_iff.mp member)
    exact List.eq_of_mem_replicate copy ▸ listed
  have enough : ∀ e ∈ elements,
      (ofText e.toList text).opened - (ofText e.toList text).closed ≤ tags.count e := by
    intro e listed
    rw [missing.count_eq, List.flatMap_def]
    refine List.replicate_sublist_iff.mp ?_
    exact List.sublist_flatten_of_mem (List.mem_map_of_mem listed)
  rw [check_eq, List.map_eq_nil_iff, List.filter_eq_nil_iff]
  intro e listed
  obtain ⟨opened, closed⟩ := counts_closingTags listed known
  obtain ⟨all_opened, all_closed⟩ :=
    counts_append (not_mem_elements e listed) (angled_closingTags tags) text
  have copies := enough e listed
  rw [isUnclosed, decide_eq_true_eq]
  omega

theorem of_eq_ofText : ∀ e ∈ elements, ∀ text, of e text = ofText e.toList text := by
  intro e listed text
  have found : ∀ e ∈ elements, (elements.find? fun x => agree x.toList e.toList) = some e := by
    decide +kernel
  rw [of, found e listed]

/-- What is counted of an element that should be closed is every tag of it, and the first opening
tag is the one that is kept. The counts of two texts add up if the second is empty or starts with
`<`. The elements that are opened more often than they are closed are reported, each once and in
their order, and none is left to report once their closing tags are added. -/
theorem closing_tags_counted (text : List Char) :
    (∀ e ∈ elements,
      of e text = scanned e.toList text ∧
      (of e text).opened = Set.ncard {p | OpensAt text e.toList p} ∧
      (of e text).closed = Set.ncard {p | ClosesAt text e.toList p} ∧
      ((of e text).firstOpen = none ↔ (of e text).opened = 0) ∧
      (∀ p, (of e text).firstOpen = some p → IsLeast {q | OpensAt text e.toList q} p) ∧
      ∀ d, Angled d →
        (of e (text ++ d)).opened = (of e text).opened + (of e d).opened ∧
          (of e (text ++ d)).closed = (of e text).closed + (of e d).closed) ∧
    elements.Nodup ∧
    check text = (elements.filter fun e => decide ((of e text).closed < (of e text).opened)).map
      (fun e => issue text e (of e text)) ∧
    ∀ tags : List String, tags.Perm (elements.flatMap fun e =>
        List.replicate ((of e text).opened - (of e text).closed) e) →
      check (text ++ tags.flatMap closingTag) = [] := by
  refine ⟨fun e listed => ?_, by decide +kernel, ?_, fun tags missing => ?_⟩
  · have clean := not_mem_elements e listed
    simp only [of_eq_ofText e listed]
    exact ⟨(scanned_eq_ofText clean text).symm, opened_ofText _ _, closed_ofText _ _,
      firstOpen_ofText_eq_none_iff _ _, fun p => isLeast_of_firstOpen,
      fun d angled => counts_append clean angled text⟩
  · rw [check_eq]
    have same : ∀ e ∈ elements, (ofText e.toList text).isUnclosed =
        decide ((of e text).closed < (of e text).opened) := by
      intro e listed
      rw [of_eq_ofText e listed]
      rfl
    rw [List.filter_congr same]
    refine List.map_congr_left fun e reported => ?_
    rw [of_eq_ofText e (List.mem_filter.mp reported).1]
  · refine check_closingTags (missing.trans (List.Perm.of_eq ?_))
    refine List.flatMap_congr fun e listed => ?_
    rw [of_eq_ofText e listed]

def openBlock : List Char := "<p>intro</p>\n<div>\n<DIV >\n</div>".toList

theorem closing_tags_counted_openBlock :
    (of "div" openBlock = ⟨2, 1, some 13⟩ ∧ of "div" openBlock = scanned "div".toList openBlock) ∧
      check openBlock = [issue openBlock "div" (of "div" openBlock)] ∧
      check (openBlock ++ "</div>".toList) = [] := by
  obtain ⟨counted, _, _, closed⟩ := closing_tags_counted openBlock
  have listed : "div" ∈ elements := by decide +kernel
  refine ⟨⟨by decide +kernel, (counted "div" listed).1⟩, by decide +kernel, ?_⟩
  exact closed ["div"] (List.Perm.of_eq (by decide +kernel))

end Balance

end PageLint.Markup
