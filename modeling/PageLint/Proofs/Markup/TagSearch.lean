import Mathlib.Order.Bounds.Basic
import PageLint.Markup.Locator
import PageLint.Proofs.Markup.HiddenSpan

/-!
# Where tags are found

A locator answers with the places of tags, `TagAt`. `calls_right` says what every call of a run
answers: the first tag ahead of the cursor, else the first of the source, else nothing. For a name
that no pattern can be made for it answers nothing, whatever the source holds. The answers are those
of `seek`, which keeps no patterns and tries one match of the source after the other.
-/

namespace PageLint.Markup

open Text
open PatternEngine (compiles)

/-! ### Names in any case -/

def SameName (a b : List Char) : Prop :=
  a.map foldedCode = b.map foldedCode

theorem foldedCode_toLower (c : Char) : foldedCode c.toLower = foldedCode c := by
  by_cases capital : 'A' ≤ c ∧ c ≤ 'Z'
  · have table : ∀ n : Fin 26,
        foldedCode (Char.ofNat (65 + n)).toLower = foldedCode (Char.ofNat (65 + n)) := by
      decide
    have low : 65 ≤ c.toNat := capital.1
    have high : c.toNat ≤ 90 := capital.2
    have entry := table ⟨c.toNat - 65, by omega⟩
    have code : 65 + (c.toNat - 65) = c.toNat := by omega
    simp only [code, Char.ofNat_toNat] at entry
    exact entry
  · have same : c.toLower = c := dif_neg capital
    rw [same]

theorem sameName_of_lower_eq {a b : List Char} (same : lower a = lower b) : SameName a b := by
  have fold (name : List Char) : (lower name).map foldedCode = name.map foldedCode := by
    rw [lower, List.map_map]
    exact List.map_congr_left fun c _ => foldedCode_toLower c
  rw [SameName, ← fold a, ← fold b, same]

theorem afterPrefixFolded?_eq_some_iff {name text back : List Char} :
    afterPrefixFolded? name text = some back ↔
      ∃ spelled, text = spelled ++ back ∧ SameName name spelled := by
  induction name generalizing text with
  | nil =>
    rw [afterPrefixFolded?]
    constructor
    · intro same
      exact ⟨[], Option.some.inj same, rfl⟩
    · rintro ⟨spelled, rfl, same⟩
      rw [List.map_eq_nil_iff.mp same.symm, List.nil_append]
  | cons s name ih =>
    cases text with
    | nil =>
      refine ⟨fun h => (by cases h), ?_⟩
      rintro ⟨spelled, split, same⟩
      rw [(List.append_eq_nil_iff.mp split.symm).1] at same
      cases same
    | cons c text =>
      rw [afterPrefixFolded?, sameLetter]
      constructor
      · intro h
        split at h
        · rename_i letter
          obtain ⟨spelled, rfl, same⟩ := ih.mp h
          refine ⟨c :: spelled, rfl, ?_⟩
          rw [SameName, List.map_cons, List.map_cons, eq_of_beq letter, same]
        · cases h
      · rintro ⟨spelled, split, same⟩
        cases spelled with
        | nil => cases same
        | cons d spelled =>
          cases split
          obtain ⟨letter, rest⟩ := List.cons.inj same
          rw [if_pos (beq_iff_eq.mpr letter)]
          exact ih.mpr ⟨spelled, rfl, rest⟩

/-- A character before the letters is folded to by no other. -/
theorem eq_of_foldedCode_eq {c d : Char} (low : d.toNat < 65)
    (same : foldedCode c = foldedCode d) : c = d := by
  have high : ∀ r ∈ foldRuns, 64 < (r.first : Int) + r.shift := by decide +kernel
  have code : foldedCode d = d.toNat := by
    unfold foldedCode
    dsimp only
    rw [if_pos (by omega), if_neg]
    rw [Bool.and_eq_true, decide_eq_true_eq]
    rintro ⟨capital, _⟩
    exact absurd capital (Nat.not_le_of_lt low)
  rw [code] at same
  unfold foldedCode at same
  dsimp only at same
  split at same
  · split at same
    · rename_i capital
      rw [Bool.and_eq_true, decide_eq_true_eq, decide_eq_true_eq] at capital
      have letter : 65 ≤ c.toNat := capital.1
      omega
    · rw [← Char.ofNat_toNat c, same, Char.ofNat_toNat]
  · split at same
    · rename_i r found
      have inside := List.find?_some found
      simp only [Bool.and_eq_true, decide_eq_true_eq] at inside
      have above := high r (List.mem_of_find?_eq_some found)
      omega
    · omega

theorem SameName.not_mem {a b : List Char} (same : SameName a b) {d : Char} (low : d.toNat < 65)
    (clean : d ∉ a) : d ∉ b := by
  intro member
  have folded := List.mem_map_of_mem (f := foldedCode) member
  rw [← same] at folded
  obtain ⟨c, inside, code⟩ := List.mem_map.mp folded
  exact clean (eq_of_foldedCode_eq low code ▸ inside)

def EndsName (text : List Char) : Prop :=
  text = [] ∨ ∃ c rest, text = c :: rest ∧ (Text.isBlank c = true ∨ c = '/' ∨ c = '>')

theorem endsName_iff {text : List Char} : endsName text = true ↔ EndsName text := by
  cases text with
  | nil => exact ⟨fun _ => .inl rfl, fun _ => rfl⟩
  | cons c rest => simp [endsName, EndsName, or_assoc]

theorem opensTag_iff {name text : List Char} :
    opensTag name text = true ↔
      ∃ spelled back, text = '<' :: (spelled ++ back) ∧ SameName name spelled ∧ EndsName back := by
  constructor
  · intro opens
    unfold opensTag at opens
    split at opens
    · rename_i rest
      obtain ⟨back, found, ends⟩ := (Option.any_eq_true _ _).mp opens
      obtain ⟨spelled, rfl, same⟩ := afterPrefixFolded?_eq_some_iff.mp found
      exact ⟨spelled, back, rfl, same, endsName_iff.mp ends⟩
    · cases opens
  · rintro ⟨spelled, back, rfl, same, ends⟩
    have found : afterPrefixFolded? name (spelled ++ back) = some back :=
      afterPrefixFolded?_eq_some_iff.mpr ⟨spelled, rfl, same⟩
    rw [opensTag, found, Option.any_some]
    exact endsName_iff.mpr ends

theorem opensTag_congr {a b text : List Char} (same : SameName a b) :
    opensTag a text = opensTag b text := by
  have names (spelled : List Char) : SameName a spelled ↔ SameName b spelled := by
    unfold SameName at *
    rw [same]
  rw [Bool.eq_iff_iff, opensTag_iff, opensTag_iff]
  simp only [names]

section Patterns

variable [PatternEngine]

theorem Patterns.exists_find (ps : Patterns) (name : List Char) :
    ∃ spelling, lower spelling = lower name ∧ (ps.find name).1 = compile? spelling := by
  rw [find]
  split
  · rename_i pattern found
    obtain ⟨front, back, entries, _⟩ := List.lookup_eq_some_iff.mp found
    have member : (lower name, pattern) ∈ ps.entries := by rw [entries]; simp
    obtain ⟨spelling, same, made⟩ := ps.keyed _ member
    exact ⟨spelling, same, made.symm⟩
  · exact ⟨name, rfl, rfl⟩

theorem Patterns.find_eq_none (ps : Patterns) {name : List Char}
    (refused : compiles (.tag name) = false) : (ps.find name).1 = none := by
  obtain ⟨spelling, same, made⟩ := ps.exists_find name
  have tooLong : compiles (.tag spelling) = false :=
    (PatternEngine.compiles_tag_congr same).trans refused
  rw [made, compile?, tooLong]
  rfl

/-- Making a pattern from another spelling of a name changes nothing. -/
theorem Patterns.find_eq_some (ps : Patterns) {name : List Char}
    (made : compiles (.tag name) = true) :
    ∃ spelling, (ps.find name).1 = some spelling ∧
      ∀ text, opensTag spelling text = opensTag name text := by
  obtain ⟨spelling, same, found⟩ := ps.exists_find name
  have fits : compiles (.tag spelling) = true :=
    (PatternEngine.compiles_tag_congr same).trans made
  refine ⟨spelling, ?_, fun text => opensTag_congr (sameName_of_lower_eq same)⟩
  rw [found, compile?, if_pos fits]

end Patterns

/-! ### Places of tags -/

/-- Whether the start tag of a name stands at a byte of a source, in any case and visible. -/
structure TagAt (text name : List Char) (p : Nat) : Prop where
  written : ∃ front spelled back, text = front ++ '<' :: (spelled ++ back) ∧
    p = byteLength front ∧ SameName name spelled ∧ EndsName back
  visible : ∀ s ∈ hiddenSpans text, ¬ (s.start ≤ p ∧ p < s.stop)

theorem TagAt.lt_byteLength {text name : List Char} {p : Nat} (tag : TagAt text name p) :
    p < byteLength text := by
  obtain ⟨front, spelled, back, rfl, rfl, _⟩ := tag.written
  have size : '<'.utf8Size = 1 := rfl
  rw [byteLength_append, byteLength_cons, size]
  omega

theorem visible_iff {text : List Char} {p : Nat} :
    (∀ s ∈ hiddenSpans text, ¬ (s.start ≤ p ∧ p < s.stop)) ↔
      isHidden (hiddenSpans text).toArray p = false := by
  rw [← Bool.not_eq_true, isHidden_hiddenSpans]
  push Not
  rfl

theorem mem_places_opensTag {text name : List Char} {p : Nat} :
    p ∈ places (opensTag name) text ↔
      ∃ front spelled back, text = front ++ '<' :: (spelled ++ back) ∧ p = byteLength front ∧
        SameName name spelled ∧ EndsName back := by
  rw [mem_places]
  constructor
  · rintro ⟨front, c, rest, rfl, place, opens⟩
    obtain ⟨spelled, back, split, same, ends⟩ := opensTag_iff.mp opens
    exact ⟨front, spelled, back, by rw [split], place, same, ends⟩
  · rintro ⟨front, spelled, back, rfl, place, same, ends⟩
    exact ⟨front, '<', _, rfl, place, opensTag_iff.mpr ⟨spelled, back, rfl, same, ends⟩⟩

theorem tagAt_iff {text wanted : List Char} {p : Nat} :
    TagAt text wanted p ↔
      (∃ front back, text = front ++ '<' :: back ∧ p = byteLength front ∧
        opensTag wanted ('<' :: back) = true) ∧
      ∀ s ∈ hiddenSpans text, ¬ (s.start ≤ p ∧ p < s.stop) := by
  constructor
  · rintro ⟨⟨front, spelled, back, split, place, same, ends⟩, visible⟩
    exact ⟨⟨front, _, split, place, opensTag_iff.mpr ⟨spelled, back, rfl, same, ends⟩⟩, visible⟩
  · rintro ⟨⟨front, back, split, place, opens⟩, visible⟩
    obtain ⟨spelled, after, same, named, ends⟩ := opensTag_iff.mp opens
    exact ⟨⟨front, spelled, after, by rw [split, same], place, named, ends⟩, visible⟩

theorem tagAt_iff_places {text name : List Char} {p : Nat} :
    TagAt text name p ↔
      p ∈ places (opensTag name) text ∧ isHidden (hiddenSpans text).toArray p = false := by
  rw [mem_places_opensTag, ← visible_iff]
  exact ⟨fun tag => ⟨tag.written, tag.visible⟩, fun h => ⟨h.1, h.2⟩⟩

theorem mem_openingsFrom {spans : Array Span} {start : Nat} {text : List Char} {o : Opening} :
    o ∈ openingsFrom spans start text ↔
      ∃ front back, text = front ++ '<' :: back ∧ o = ⟨start + byteLength front, '<' :: back⟩ ∧
        isHidden spans o.offset = false := by
  induction text generalizing start with
  | nil => simp [openingsFrom]
  | cons c rest ih =>
    have later : o ∈ openingsFrom spans (start + c.utf8Size) rest ↔
        ∃ front back, rest = front ++ '<' :: back ∧
          o = ⟨start + byteLength (c :: front), '<' :: back⟩ ∧ isHidden spans o.offset = false := by
      rw [ih]
      simp only [byteLength_cons, Nat.add_assoc]
    have split : o ∈ openingsFrom spans start (c :: rest) ↔
        (c = '<' ∧ isHidden spans start = false ∧ o = ⟨start, c :: rest⟩) ∨
          o ∈ openingsFrom spans (start + c.utf8Size) rest := by
      rw [openingsFrom]
      by_cases found : c = '<' ∧ isHidden spans start = false
      · simp [found]
      · rw [if_neg (by simpa using found)]
        constructor
        · exact Or.inr
        · rintro (⟨angle, visible, _⟩ | member)
          · exact absurd ⟨angle, visible⟩ found
          · exact member
    rw [split, later]
    constructor
    · rintro (⟨rfl, visible, rfl⟩ | ⟨front, back, rfl, place, visible⟩)
      · exact ⟨[], rest, rfl, rfl, visible⟩
      · exact ⟨c :: front, back, rfl, place, visible⟩
    · rintro ⟨front, back, eq, place, visible⟩
      cases front with
      | nil =>
        cases eq
        rw [place] at visible
        exact .inl ⟨rfl, visible, place⟩
      | cons d front =>
        cases eq
        exact .inr ⟨front, back, rfl, place, visible⟩

theorem openingsFrom_sorted (spans : Array Span) (start : Nat) (text : List Char) :
    (openingsFrom spans start text).Pairwise fun a b => a.offset < b.offset := by
  induction text generalizing start with
  | nil => exact List.Pairwise.nil
  | cons c rest ih =>
    rw [openingsFrom]
    split
    · refine List.pairwise_cons.mpr ⟨?_, ih _⟩
      intro o member
      obtain ⟨front, back, _, rfl, _⟩ := mem_openingsFrom.mp member
      have size := c.utf8Size_pos
      show start < start + c.utf8Size + byteLength front
      omega
    · exact ih _

theorem tagAt_iff_opening {text name : List Char} {p : Nat} :
    TagAt text name p ↔ ∃ o ∈ openings text, o.offset = p ∧ opensTag name o.text = true := by
  constructor
  · rintro ⟨⟨front, spelled, back, split, place, same, ends⟩, visible⟩
    refine ⟨⟨p, '<' :: (spelled ++ back)⟩, ?_, rfl, opensTag_iff.mpr ⟨_, _, rfl, same, ends⟩⟩
    refine mem_openingsFrom.mpr ⟨front, _, split, ?_, visible_iff.mp visible⟩
    rw [place, Nat.zero_add]
  · rintro ⟨o, member, rfl, opens⟩
    obtain ⟨front, back, split, rfl, visible⟩ := mem_openingsFrom.mp member
    obtain ⟨spelled, after, eq, same, ends⟩ := opensTag_iff.mp opens
    refine ⟨⟨front, spelled, after, ?_, ?_, same, ends⟩, visible_iff.mpr visible⟩
    · rw [split, ← eq]
    · rw [Nat.zero_add]

/-- In a source that is one start tag without attributes no other tag is found. -/
theorem tagAt_bareTag {name wanted : List Char} {p : Nat}
    (letter : name.head?.any isLetter = true) (plain : name.all isNameChar = true) :
    TagAt ('<' :: (name ++ ['>'])) wanted p ↔
      p = 0 ∧ opensTag wanted ('<' :: (name ++ ['>'])) = true := by
  rw [tagAt_iff, hiddenSpans_bareTag letter plain, and_iff_left (fun _ member => by cases member)]
  constructor
  · rintro ⟨front, back, split, rfl, opens⟩
    cases front with
    | nil => exact ⟨rfl, split ▸ opens⟩
    | cons c front =>
      -- A second `<` would stand in the name or be the `>` after it.
      have inside : '<' ∈ name ++ ['>'] := by
        rw [(List.cons.inj split).2]
        exact List.mem_append_right _ List.mem_cons_self
      rcases List.mem_append.mp inside with inName | last
      · cases List.all_eq_true.mp plain _ inName
      · cases List.mem_singleton.mp last
  · rintro ⟨rfl, opens⟩
    exact ⟨[], _, rfl, rfl, opens⟩

/-! ### The first tag from a byte on -/

def tagsFrom (text name : List Char) (n : Nat) : Set Nat :=
  {p | TagAt text name p ∧ n ≤ p}

def IsFirst (text name : List Char) (n : Nat) : Option Nat → Prop
  | some p => IsLeast (tagsFrom text name n) p
  | none => ∀ p, p ∉ tagsFrom text name n

theorem isFirst_unique {text name : List Char} {n : Nat} {a b : Option Nat}
    (ha : IsFirst text name n a) (hb : IsFirst text name n b) : a = b := by
  cases a with
  | none =>
    cases b with
    | none => rfl
    | some q => exact absurd hb.1 (ha q)
  | some p =>
    cases b with
    | none => exact absurd ha.1 (hb p)
    | some q => rw [IsLeast.unique ha hb]

/-- A search of a list in increasing order finds the least place that passes. -/
theorem find?_le {α : Type} {place : α → Nat} {test : α → Bool} {xs : List α} {a b : α}
    (sorted : xs.Pairwise fun x y => place x < place y) (found : xs.find? test = some a)
    (member : b ∈ xs) (passes : test b = true) : place a ≤ place b := by
  obtain ⟨_, before, after, split, fail⟩ := List.find?_eq_some_iff_append.mp found
  rw [split] at member sorted
  rcases List.mem_append.mp member with earlier | later
  · have failed := fail b earlier
    rw [passes] at failed
    cases failed
  · rcases List.mem_cons.mp later with rfl | later
    · exact Nat.le_refl _
    · obtain ⟨_, back, _⟩ := List.pairwise_append.mp sorted
      exact Nat.le_of_lt ((List.pairwise_cons.mp back).1 b later)

variable [PatternEngine] in
theorem firstFrom_isFirst {text : List Char} {l : Locator} (same : l.openings = openings text)
    (name : List Char) (n : Nat) : IsFirst text name n (l.firstFrom name n) := by
  rw [Locator.firstFrom, same]
  cases found : (openings text).find? fun o => n ≤ o.offset && opensTag name o.text with
  | none =>
    rintro p ⟨tag, ahead⟩
    obtain ⟨o, member, rfl, opens⟩ := tagAt_iff_opening.mp tag
    have fails := List.find?_eq_none.mp found o member
    exact fails (by simp [ahead, opens])
  | some o =>
    have passes := List.find?_some found
    rw [Bool.and_eq_true, decide_eq_true_eq] at passes
    have member : o ∈ openings text := List.mem_of_find?_eq_some found
    refine ⟨⟨tagAt_iff_opening.mpr ⟨o, member, rfl, passes.2⟩, passes.1⟩, ?_⟩
    rintro q ⟨tag, ahead⟩
    obtain ⟨other, present, rfl, opens⟩ := tagAt_iff_opening.mp tag
    have sorted := openingsFrom_sorted (hiddenSpans text).toArray 0 text
    exact find?_le sorted found present (by simp [ahead, opens])

/-! ### Search without patterns -/

/-- The first visible match of a name from a byte on, found by trying one match after the other. -/
def seekFrom (text name : List Char) (n : Nat) : Option Nat :=
  match found : (places (opensTag name) text).find? (n ≤ ·) with
  | none => none
  | some p =>
    if isHidden (hiddenSpans text).toArray p then seekFrom text name (p + 1) else some p
termination_by byteLength text - n
decreasing_by
  have ahead : n ≤ p := by simpa using List.find?_some found
  have inside := lt_byteLength_of_mem_places (List.mem_of_find?_eq_some found)
  omega

theorem seekFrom_isFirst (text name : List Char) (n : Nat) :
    IsFirst text name n (seekFrom text name n) := by
  fun_induction seekFrom text name n with
  | case1 n found =>
    rintro p ⟨tag, ahead⟩
    have fails := List.find?_eq_none.mp found p (tagAt_iff_places.mp tag).1
    exact fails (by simpa using ahead)
  | case2 n p found hidden ih =>
    have start : n ≤ p := by simpa using List.find?_some found
    -- No tag stands between `n` and the hidden match, nor at that match.
    have skip : tagsFrom text name n = tagsFrom text name (p + 1) := by
      ext q
      constructor
      · rintro ⟨tag, ahead⟩
        obtain ⟨place, visible⟩ := tagAt_iff_places.mp tag
        have least : p ≤ q := find?_le (places_sorted _ text) found place (by simpa using ahead)
        have other : q ≠ p := by
          rintro rfl
          rw [hidden] at visible
          cases visible
        exact ⟨tag, by omega⟩
      · rintro ⟨tag, ahead⟩
        exact ⟨tag, by omega⟩
    unfold IsFirst at ih ⊢
    rw [skip]
    exact ih
  | case3 n p found visible =>
    have start : n ≤ p := by simpa using List.find?_some found
    have place := List.mem_of_find?_eq_some found
    refine ⟨⟨tagAt_iff_places.mpr ⟨place, by simpa using visible⟩, start⟩, ?_⟩
    rintro q ⟨tag, ahead⟩
    exact find?_le (places_sorted _ text) found (tagAt_iff_places.mp tag).1 (by simpa using ahead)

section Engine

variable [PatternEngine]

theorem firstFrom_eq_seekFrom {text : List Char} {l : Locator} (same : l.openings = openings text)
    (name : List Char) (n : Nat) : l.firstFrom name n = seekFrom text name n :=
  isFirst_unique (firstFrom_isFirst same name n) (seekFrom_isFirst text name n)

def seek (text : List Char) (cursor : Nat) (name : List Char) : Option Nat × Nat :=
  if compiles (.tag name) then
    match seekFrom text name cursor with
    | some offset => (some offset, offset + 1)
    | none => (seekFrom text name 0, cursor)
  else (none, cursor)

@[simp] theorem locate_openings (l : Locator) (name : List Char) :
    (l.locate name).2.openings = l.openings := by
  unfold Locator.locate
  split
  · rfl
  · split <;> rfl

theorem locate_eq_seek {text : List Char} {l : Locator} (same : l.openings = openings text)
    (name : List Char) :
    ((l.locate name).1, (l.locate name).2.cursor) = seek text l.cursor name := by
  rw [Locator.locate, seek]
  cases made : compiles (.tag name) with
  | false =>
    have refused := l.patterns.find_eq_none made
    generalize l.patterns.find name = found at refused ⊢
    obtain ⟨pattern, patterns⟩ := found
    cases refused
    rfl
  | true =>
    obtain ⟨spelling, kept, opens⟩ := l.patterns.find_eq_some made
    have first (n : Nat) : l.firstFrom spelling n = seekFrom text name n := by
      rw [← firstFrom_eq_seekFrom same name n]
      simp only [Locator.firstFrom, opens]
    generalize l.patterns.find name = found at kept ⊢
    obtain ⟨pattern, patterns⟩ := found
    cases kept
    simp only [first, if_true]
    cases seekFrom text name l.cursor <;> rfl

/-! ### Runs -/

structure Call where
  name : List Char
  cursor : Nat
  answer : Option Nat
  after : Nat

def Call.advance? (c : Call) : Option Nat :=
  if c.cursor < c.after then c.answer else none

def Locator.calls (l : Locator) : List (List Char) → List Call
  | [] => []
  | name :: rest =>
    ⟨name, l.cursor, (l.locate name).1, (l.locate name).2.cursor⟩ :: (l.locate name).2.calls rest

def seekCalls (text : List Char) (cursor : Nat) : List (List Char) → List Call
  | [] => []
  | name :: rest =>
    ⟨name, cursor, (seek text cursor name).1, (seek text cursor name).2⟩ ::
      seekCalls text (seek text cursor name).2 rest

/-- What a call answers in a source. -/
structure Call.Right (text : List Char) (c : Call) : Prop where
  /-- nothing exactly if the name has no pattern or the source has no tag of it at all -/
  none_iff : c.answer = none ↔ compiles (.tag c.name) = false ∨ ∀ p, ¬ TagAt text c.name p
  /-- the first tag from the cursor on, after which the cursor goes -/
  ahead : compiles (.tag c.name) = true → (∃ p, TagAt text c.name p ∧ c.cursor ≤ p) →
    ∃ p, IsLeast {p | TagAt text c.name p ∧ c.cursor ≤ p} p ∧ c.answer = some p ∧ c.after = p + 1
  /-- else the first tag of the source, and the cursor stays -/
  restart : compiles (.tag c.name) = true → (∃ p, TagAt text c.name p) →
    (∀ p, TagAt text c.name p → p < c.cursor) →
    ∃ p, IsLeast {p | TagAt text c.name p} p ∧ c.answer = some p ∧ c.after = c.cursor
  /-- the cursor stays if nothing is answered -/
  stays : c.answer = none → c.after = c.cursor

theorem calls_eq_seekCalls {text : List Char} {l : Locator} (same : l.openings = openings text)
    (names : List (List Char)) : l.calls names = seekCalls text l.cursor names := by
  induction names generalizing l with
  | nil => rfl
  | cons name rest ih =>
    have later := ih (l := (l.locate name).2) (by rw [locate_openings, same])
    rw [Locator.calls, seekCalls, later, ← locate_eq_seek same name]

namespace Call.Right

variable {text name : List Char} {cursor p : Nat}

theorem of_refused (refused : compiles (.tag name) = false) :
    Right text ⟨name, cursor, none, cursor⟩ where
  none_iff := ⟨fun _ => .inl refused, fun _ => rfl⟩
  ahead made := by cases refused.symm.trans made
  restart made := by cases refused.symm.trans made
  stays _ := rfl

theorem of_absent (absent : ∀ p, ¬ TagAt text name p) :
    Right text ⟨name, cursor, none, cursor⟩ where
  none_iff := ⟨fun _ => .inr absent, fun _ => rfl⟩
  ahead := fun _ ⟨q, tag, _⟩ => (absent q tag).elim
  restart := fun _ ⟨q, tag⟩ => (absent q tag).elim
  stays _ := rfl

theorem of_ahead (made : compiles (.tag name) = true)
    (first : IsLeast {p | TagAt text name p ∧ cursor ≤ p} p) :
    Right text ⟨name, cursor, some p, p + 1⟩ where
  none_iff := by simpa [made] using ⟨p, first.1.1⟩
  ahead _ _ := ⟨p, first, rfl, rfl⟩
  restart _ _ behind := absurd first.1.2 (Nat.not_le_of_lt (behind p first.1.1))
  stays none := by cases none

theorem of_behind (made : compiles (.tag name) = true)
    (behind : ∀ p, TagAt text name p → p < cursor) (first : IsLeast {p | TagAt text name p} p) :
    Right text ⟨name, cursor, some p, cursor⟩ where
  none_iff := by simpa [made] using ⟨p, first.1⟩
  ahead := fun _ ⟨q, tag, later⟩ => absurd later (Nat.not_le_of_lt (behind q tag))
  restart _ _ _ := ⟨p, first, rfl, rfl⟩
  stays none := by cases none

end Call.Right

theorem seek_right (text : List Char) (cursor : Nat) (name : List Char) :
    Call.Right text ⟨name, cursor, (seek text cursor name).1, (seek text cursor name).2⟩ := by
  rw [seek]
  cases made : compiles (.tag name) with
  | false => exact .of_refused made
  | true =>
    rw [if_pos rfl]
    have ahead := seekFrom_isFirst text name cursor
    have again := seekFrom_isFirst text name 0
    have whole : tagsFrom text name 0 = {p | TagAt text name p} := by
      ext p
      simp [tagsFrom]
    cases found : seekFrom text name cursor with
    | some p =>
      rw [found] at ahead
      exact .of_ahead made ahead
    | none =>
      rw [found] at ahead
      cases first : seekFrom text name 0 with
      | none =>
        rw [first] at again
        exact .of_absent fun p tag => again p ⟨tag, Nat.zero_le p⟩
      | some p =>
        rw [first, IsFirst, whole] at again
        have behind (q : Nat) (tag : TagAt text name q) : q < cursor :=
          Nat.lt_of_not_le fun later => ahead q ⟨tag, later⟩
        exact .of_behind made behind again

variable {text : List Char} {c : Call} {p : Nat}

/-- A call that answers is for a name that has a pattern and a tag. -/
theorem Call.Right.of_answer (right : c.Right text) (answer : c.answer = some p) :
    compiles (.tag c.name) = true ∧ ∃ q, TagAt text c.name q := by
  have present : ¬ (compiles (.tag c.name) = false ∨ ∀ q, ¬ TagAt text c.name q) := by
    rw [← right.none_iff, answer]
    exact Option.some_ne_none p
  simpa using present

/-- A call that answers either has moved on to the first tag ahead, or has found all tags behind and
started over. -/
theorem Call.Right.found (right : c.Right text) (answer : c.answer = some p) :
    (IsLeast {q | TagAt text c.name q ∧ c.cursor ≤ q} p ∧ c.after = p + 1) ∨
      (∀ q, TagAt text c.name q → q < c.cursor) ∧ IsLeast {q | TagAt text c.name q} p ∧
        c.after = c.cursor := by
  obtain ⟨made, somewhere⟩ := right.of_answer answer
  by_cases ahead : ∃ q, TagAt text c.name q ∧ c.cursor ≤ q
  · obtain ⟨q, least, same, after⟩ := right.ahead made ahead
    obtain rfl := Option.some.inj (answer.symm.trans same)
    exact .inl ⟨least, after⟩
  · have behind : ∀ q, TagAt text c.name q → q < c.cursor := by
      intro q tag
      by_contra later
      exact ahead ⟨q, tag, Nat.le_of_not_lt later⟩
    obtain ⟨q, least, same, after⟩ := right.restart made somewhere behind
    obtain rfl := Option.some.inj (answer.symm.trans same)
    exact .inr ⟨behind, least, after⟩

theorem Call.Right.tagAt (right : c.Right text) (answer : c.answer = some p) :
    TagAt text c.name p := by
  rcases right.found answer with ⟨least, _⟩ | ⟨_, least, _⟩
  · exact least.1.1
  · exact least.1

/-- A call that moves the cursor moves it from before the tag that it answers to right after. -/
theorem Call.Right.moved_or_stays (right : c.Right text) :
    (∃ p, TagAt text c.name p ∧ c.cursor ≤ p ∧ c.answer = some p ∧ c.after = p + 1) ∨
      c.after = c.cursor := by
  cases answer : c.answer with
  | none => exact .inr (right.stays answer)
  | some p =>
    rcases right.found answer with ⟨least, after⟩ | ⟨_, _, after⟩
    · exact .inl ⟨p, least.1.1, least.1.2, rfl, after⟩
    · exact .inr after

theorem Call.Right.cursor_le (right : c.Right text) :
    c.cursor ≤ c.after := by
  rcases right.moved_or_stays with ⟨p, _, start, _, after⟩ | after
  · omega
  · omega

theorem Call.Right.after_le (right : c.Right text)
    (inside : c.cursor ≤ byteLength text) : c.after ≤ byteLength text := by
  rcases right.moved_or_stays with ⟨p, tag, _, _, after⟩ | after
  · have := tag.lt_byteLength
    omega
  · omega

theorem Call.Right.advance (right : c.Right text)
    (moves : c.advance? = some p) : c.cursor ≤ p ∧ c.after = p + 1 := by
  unfold Call.advance? at moves
  split at moves
  · rename_i moved
    rcases right.moved_or_stays with ⟨q, _, start, answer, after⟩ | after
    · obtain rfl := Option.some.inj (moves.symm.trans answer)
      exact ⟨start, after⟩
    · omega
  · cases moves

theorem seekCalls_right {cursor : Nat} {names : List (List Char)}
    (member : c ∈ seekCalls text cursor names) : c.Right text := by
  induction names generalizing cursor with
  | nil => cases member
  | cons name rest ih =>
    rcases List.mem_cons.mp member with rfl | later
    · exact seek_right text cursor name
    · exact ih later

theorem seekCalls_bounds {cursor : Nat} {names : List (List Char)}
    (member : c ∈ seekCalls text cursor names) :
    cursor ≤ c.cursor ∧ (cursor ≤ byteLength text → c.cursor ≤ byteLength text) := by
  induction names generalizing cursor with
  | nil => cases member
  | cons name rest ih =>
    rcases List.mem_cons.mp member with rfl | later
    · exact ⟨Nat.le_refl _, id⟩
    · have right := seek_right text cursor name
      obtain ⟨before, bound⟩ := ih later
      exact ⟨Nat.le_trans right.cursor_le before, fun inside => bound (right.after_le inside)⟩

theorem seekCalls_ordered (text : List Char) (cursor : Nat) (names : List (List Char)) :
    (seekCalls text cursor names).Pairwise fun a b => a.after ≤ b.cursor := by
  induction names generalizing cursor with
  | nil => exact List.Pairwise.nil
  | cons name rest ih =>
    refine List.pairwise_cons.mpr ⟨?_, ih _⟩
    intro c later
    exact (seekCalls_bounds later).1

theorem seekCalls_advance (text : List Char) (cursor : Nat) (names : List (List Char)) :
    ((seekCalls text cursor names).filterMap Call.advance?).Pairwise (· < ·) := by
  rw [List.pairwise_filterMap]
  refine List.Pairwise.imp_of_mem ?_ (seekCalls_ordered text cursor names)
  intro a b first second order p moves q moved
  have before := (seekCalls_right first).advance moves
  have after := (seekCalls_right second).advance moved
  omega

/-- In a run over any source and any names every call answers as `Call.Right` says. The cursor
never goes back nor past the end, the answers that move it increase, and patterns change nothing. -/
theorem calls_right (text : List Char) (names : List (List Char)) :
    (∀ c ∈ (Locator.ofText text).calls names, c.Right text) ∧
      (∀ c ∈ (Locator.ofText text).calls names,
        c.cursor ≤ c.after ∧ c.after ≤ byteLength text) ∧
      ((Locator.ofText text).calls names).Pairwise (fun a b => a.after ≤ b.cursor) ∧
      (((Locator.ofText text).calls names).filterMap Call.advance?).Pairwise (· < ·) ∧
      (Locator.ofText text).calls names = seekCalls text 0 names := by
  have same : (Locator.ofText text).calls names = seekCalls text 0 names :=
    calls_eq_seekCalls rfl names
  rw [same]
  refine ⟨fun c => seekCalls_right, ?_, seekCalls_ordered text 0 names,
    seekCalls_advance text 0 names, rfl⟩
  intro c member
  have right := seekCalls_right member
  exact ⟨right.cursor_le, right.after_le ((seekCalls_bounds member).2 (Nat.zero_le _))⟩

end Engine

/-! ### A name that is too long -/

def longName : List Char :=
  List.replicate 200000 'a'

def longTag : List Char :=
  '<' :: (longName ++ ['>'])

theorem PatternEngine.foldl_bytesFor (c : Char) (n bytes : Nat) :
    (List.replicate n c).foldl (fun bytes c => bytes + bytesFor c) bytes =
      bytes + n * bytesFor c := by
  induction n generalizing bytes with
  | zero => simp
  | succ n ih =>
    rw [List.replicate_succ, List.foldl_cons, ih, Nat.succ_mul]
    omega

theorem compiles_longName : compiles (.tag longName) = false := by
  have long : PatternEngine.fits longName = false := by
    have bytes : PatternEngine.bytesFor 'a'.toLower = 80 := rfl
    rw [PatternEngine.fits, longName, lower, List.map_replicate, PatternEngine.foldl_bytesFor,
      bytes]
    rfl
  exact long

theorem head?_longName {p : Char → Bool} (holds : p 'a' = true) : longName.head?.any p = true := by
  rw [longName, List.head?_replicate]
  exact holds

theorem all_longName {p : Char → Bool} (holds : p 'a' = true) : longName.all p = true := by
  rw [longName, List.all_replicate]
  exact holds

theorem tagAt_longTag {wanted : List Char} {p : Nat} :
    TagAt longTag wanted p ↔ p = 0 ∧ opensTag wanted longTag = true :=
  tagAt_bareTag (head?_longName rfl) (all_longName rfl)

theorem tagAt_longName : TagAt longTag longName 0 := by
  have ends : EndsName ['>'] := .inr ⟨'>', [], rfl, .inr (.inr rfl)⟩
  exact tagAt_longTag.mpr ⟨rfl, opensTag_iff.mpr ⟨longName, ['>'], rfl, rfl, ends⟩⟩

/-- The tag is not found, though it is visible. -/
theorem long_tag_missed :
    TagAt longTag longName 0 ∧
      ((Locator.ofText longTag).calls [longName]).map Call.answer = [none] := by
  refine ⟨tagAt_longName, ?_⟩
  rw [calls_eq_seekCalls rfl, seekCalls, seekCalls, seek, compiles_longName]
  rfl

end PageLint.Markup
