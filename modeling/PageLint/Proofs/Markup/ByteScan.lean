import PageLint.Proofs.Markup.HiddenSpan
import PageLint.Proofs.Markup.Segmentation
import PageLint.Proofs.Text.BytePosition
import PageLint.Proofs.Text.LowerCase

/-!
# Hidden spans by bytes

`byteScan?` looks for hidden spans with an index into the bytes of the source in lower case. It has
no answer if it cuts the source within a character or past its end, or if one of its loops takes
more than one turn for each byte and one at the end. By `byteScan?_eq` it always has an answer, and
that is `hiddenSpans`.
-/

namespace PageLint.Markup

open Text

/-- Goes through a start tag from byte `n` on, behind its name. The answer is the quoted values in it
and the byte at which it ends. -/
def scanTag? (text : List Char) : (turns : Nat) → (afterEquals : Bool) → (n : Nat) →
    Option (List Span × Nat)
  | 0, _, _ => none
  | turns + 1, afterEquals, n =>
    if n < byteLength text then do
      let c ← byteAt? text n
      if c = '>' then return ([], n + 1)
      else if (c = '"' || c = '\'') && afterEquals then
        let value ← fromByte? (n + 1) text
        let close := ((findByte? [c] value).map (n + 1 + ·)).getD (byteLength text)
        let (spans, stop) ← scanTag? text turns false (close + 1)
        return (⟨n, min (close + 1) (byteLength text)⟩ :: spans, stop)
      else if c = '=' then scanTag? text turns true (n + 1)
      else if isAsciiBlank c then scanTag? text turns afterEquals (n + 1)
      else scanTag? text turns false (n + 1)
    else return ([], byteLength text)

/-- What is hidden by what begins with the `<` at byte `start`, and the byte from which the search
for the next one goes on. -/
def scanMarkup? (text : List Char) (start : Nat) : Option (List Span × Nat) := do
  let rest ← fromByte? start text
  if commentStart.isPrefixOf rest then
    let inside ← fromByte? 4 rest
    let stop := ((findByte? commentEnd inside).map (start + 4 + · + 3)).getD (byteLength text)
    return ([⟨start, stop⟩], stop)
  else
    let name := (← fromByte? 1 rest).takeWhile isNameChar
    if name.head?.any isLetter then
      let (spans, stop) ← scanTag? text (byteLength text + 1) false (start + 1 + byteLength name)
      if stop < byteLength text ∧ name ∈ rawTextElements then
        let body ← fromByte? stop text
        let bodyStop := ((findByte? ('<' :: '/' :: name) body).map (stop + ·)).getD (byteLength text)
        return (spans ++ [⟨stop, bodyStop⟩], bodyStop)
      else return (spans, stop)
    else return ([], start + 1)

def scanFrom? (text : List Char) : (turns : Nat) → (n : Nat) → Option (List Span)
  | 0, _ => none
  | turns + 1, n => do
    match findByte? ['<'] (← fromByte? n text) with
    | none => return []
    | some ahead =>
      let (spans, next) ← scanMarkup? text (n + ahead)
      return spans ++ (← scanFrom? text turns next)

/-- The hidden spans of a source, whose letters are put in lower case first. -/
def byteScan? (text : List Char) : Option (List Span) :=
  scanFrom? (lower text) (byteLength text + 1) 0

variable {text front back : List Char} {turns : Nat} {c : Char} {afterEquals : Bool}

/-! ### Start tags -/

theorem scanTag?_ended (turns : Nat) (afterEquals : Bool) {n : Nat} (past : byteLength text ≤ n) :
    scanTag? text (turns + 1) afterEquals n = some ([], byteLength text) := by
  rw [scanTag?, if_neg (Nat.not_lt.mpr past)]
  rfl

theorem scanTag?_step {n : Nat} (inside : n < byteLength text) (here : byteAt? text n = some c)
    (other : c ≠ '>') (unopened : ¬ OpensValue afterEquals c) :
    scanTag? text (turns + 1) afterEquals n =
      scanTag? text turns (c = '=' || (afterEquals && isAsciiBlank c)) (n + 1) := by
  have unquoted : ¬ ((c = '"' || c = '\'') && afterEquals) = true := by
    rw [Bool.and_comm]
    exact unopened
  simp only [scanTag?, if_pos inside, here, Option.bind_eq_bind, Option.bind_some, if_neg other,
    if_neg unquoted]
  by_cases equals : c = '='
  · simp [equals]
  · by_cases blank : isAsciiBlank c = true
    · simp [equals, blank]
    · simp [equals, blank]

theorem utf8Size_le_of_split (whole : text = front ++ c :: back) :
    byteLength front + c.utf8Size ≤ byteLength text := by
  rw [whole, byteLength_append, byteLength_cons]
  omega

theorem fromByte?_of_split (whole : text = front ++ back) :
    fromByte? (byteLength front) text = some back := by
  rw [whole, fromByte?_append]

theorem byteAt?_of_split (whole : text = front ++ c :: back) (i : Nat) :
    byteAt? text (byteLength front + i) = byteAt? (c :: back) i := by
  rw [whole, byteAt?_append]

theorem ne_of_high (high : 128 ≤ c.toNat) {d : Char} (low : d.toNat < 128) : c ≠ d := by
  rintro rfl
  omega

theorem isAsciiBlank_high (high : 128 ≤ c.toNat) : isAsciiBlank c = false := by
  simp [isAsciiBlank, ne_of_high high]

/-- The bytes of a character that is not ASCII are passed one after the other. -/
theorem scanTag?_high (whole : text = front ++ c :: back) (high : 128 ≤ c.toNat)
    (turns left : Nat) :
    ∀ (i : Nat) (afterEquals : Bool), i + (left + 1) = c.utf8Size →
      scanTag? text (left + 1 + turns) afterEquals (byteLength front + i) =
        scanTag? text turns false (byteLength front + c.utf8Size) := by
  have fits := utf8Size_le_of_split whole
  have step (i turns : Nat) (afterEquals : Bool) (inside : i < c.utf8Size) :
      scanTag? text (turns + 1) afterEquals (byteLength front + i) =
        scanTag? text turns false (byteLength front + (i + 1)) := by
    obtain ⟨d, here, high'⟩ := byteAt?_high high back inside
    rw [← byteAt?_of_split whole] at here
    have unopened : ¬ OpensValue afterEquals d := by
      simp [OpensValue, ne_of_high high']
    rw [scanTag?_step (by omega) here (ne_of_high high' (by decide)) unopened,
      isAsciiBlank_high high', decide_eq_false (ne_of_high high' (by decide)), Bool.and_false]
    rfl
  induction left with
  | zero =>
    intro i afterEquals last
    rw [Nat.add_comm (0 + 1), step i turns afterEquals (by omega), ← last]
  | succ left ih =>
    intro i afterEquals here
    rw [Nat.add_right_comm, step i _ afterEquals (by omega), ih (i + 1) false (by omega)]

/-- A character that neither ends the tag nor opens a value is passed. -/
theorem scanTag?_plain (whole : text = front ++ c :: back) (other : c ≠ '>')
    (unopened : ¬ OpensValue afterEquals c) :
    scanTag? text (c.utf8Size + turns) afterEquals (byteLength front) =
      scanTag? text turns (c = '=' || (afterEquals && isAsciiBlank c))
        (byteLength front + c.utf8Size) := by
  have fits := utf8Size_le_of_split whole
  have size := c.utf8Size_pos
  by_cases ascii : c.toNat < 128
  · have here : byteAt? text (byteLength front) = some c :=
      (byteAt?_of_split whole 0).trans (byteAt?_ascii ascii back)
    rw [utf8Size_ascii ascii, Nat.add_comm, scanTag?_step (by omega) here other unopened]
  · have high := Nat.le_of_not_lt ascii
    obtain ⟨left, length⟩ : ∃ left, c.utf8Size = left + 1 := ⟨c.utf8Size - 1, by omega⟩
    rw [isAsciiBlank_high high, decide_eq_false (ne_of_high high (by decide)), Bool.and_false]
    have passed := scanTag?_high whole high turns left 0 afterEquals (by omega)
    rw [← length] at passed
    exact passed

/-! ### Searches -/

theorem Reaches.lower {mark run rest : List Char}
    (reaches : Reaches (mark <+: Text.lower ·) run rest) :
    Reaches (mark <+: ·) (Text.lower run) (Text.lower rest) := by
  constructor
  · intro front back split nonempty
    obtain ⟨front', back', rfl, -, rfl⟩ := List.map_eq_append_iff.mp split
    have unmarked := reaches.unmarked front' back' rfl fun empty => nonempty (by rw [empty]; rfl)
    rwa [lower_append] at unmarked
  · rcases reaches.stops with rfl | marked
    · exact .inl rfl
    · exact .inr marked

theorem findByte?_marked (mark : List Char) {run rest : List Char} (nonempty : mark ≠ [])
    (more : rest ≠ []) (reaches : Reaches (mark <+: lower ·) run rest) :
    findByte? mark (lower (run ++ rest)) = some (byteLength run) := by
  obtain ⟨behind, split⟩ := reaches.stops.resolve_left more
  have lowered := reaches.lower
  rw [← split] at lowered
  rw [findByte?, lower_append, ← split, splitAtFirst?_marked nonempty lowered, Option.map_some,
    byteLength_lower]

theorem findByte?_unmarked (mark : List Char) {run : List Char} (nonempty : mark ≠ [])
    (reaches : Reaches (mark <+: lower ·) run []) : findByte? mark (lower run) = none := by
  rw [findByte?, splitAtFirst?_unmarked nonempty reaches.lower]
  rfl

/-! ### What a start tag hides -/

theorem opensValue_toLower : OpensValue afterEquals c.toLower ↔ OpensValue afterEquals c := by
  simp [OpensValue, toLower_eq_iff (c := c) (d := '"') (by decide),
    toLower_eq_iff (c := c) (d := '\'') (by decide)]

theorem OpensValue.low (opens : OpensValue afterEquals c) : c.toNat < 65 := by
  obtain ⟨_, quote⟩ := Bool.and_eq_true_iff.mp opens
  have quote : c = '"' ∨ c = '\'' := by simpa using quote
  rcases quote with rfl | rfl <;> decide

theorem fromByte?_behind (whole : text = front ++ c :: back) (ascii : c.toNat < 128) :
    fromByte? (byteLength front + 1) text = some back := by
  have split : text = (front ++ [c]) ++ back := by
    rw [whole, List.append_assoc]
    rfl
  have cut := fromByte?_of_split split
  rwa [byteLength_append, byteLength_cons, byteLength_nil, utf8Size_ascii ascii] at cut

theorem scanTag?_open (whole : text = front ++ c :: back) (opens : OpensValue afterEquals c) :
    scanTag? text (turns + 1) afterEquals (byteLength front) =
      let close := ((findByte? [c] back).map (byteLength front + 1 + ·)).getD (byteLength text)
      (scanTag? text turns false (close + 1)).map fun (spans, stop) =>
        (⟨byteLength front, min (close + 1) (byteLength text)⟩ :: spans, stop) := by
  have fits := utf8Size_le_of_split whole
  have size := c.utf8Size_pos
  have ascii : c.toNat < 128 := Nat.lt_trans opens.low (by decide)
  have here : byteAt? text (byteLength front) = some c :=
    (byteAt?_of_split whole 0).trans (byteAt?_ascii ascii back)
  have other : c ≠ '>' := opens.ne (by decide)
  have quoted : ((c = '"' || c = '\'') && afterEquals) = true := by
    rw [Bool.and_comm]
    exact opens
  simp only [scanTag?, if_pos (show byteLength front < byteLength text by omega), here,
    Option.bind_eq_bind, Option.bind_some, if_neg other, if_pos quoted,
    fromByte?_behind whole ascii, Option.map_eq_bind]
  rfl

/-- A value that is closed is passed up to and with its closing quote. -/
theorem scanTag?_closed {value : List Char}
    (whole : text = front ++ lower (c :: (value ++ c :: back))) (opens : OpensValue afterEquals c)
    (inside : c ∉ value) :
    scanTag? text (turns + 1) afterEquals (byteLength front) =
      (scanTag? text turns false (byteLength front + byteLength (c :: value ++ [c]))).map
        fun (spans, stop) =>
          (⟨byteLength front, byteLength front + byteLength (c :: value ++ [c])⟩ :: spans, stop) := by
  have size : c.utf8Size = 1 := utf8Size_ascii (Nat.lt_trans opens.low (by decide))
  have kept : c.toLower = c := (toLower_eq_iff opens.low).mpr rfl
  have whole : text = front ++ c :: (lower value ++ c :: lower back) := by
    rw [whole, lower_cons, lower_append, lower_cons, kept]
  have found := findByte?_single (not_mem_lower opens.low inside) (lower back)
  have close : byteLength front + 1 + byteLength value + 1 =
      byteLength front + byteLength (c :: value ++ [c]) := by
    simp only [byteLength_append, byteLength_cons, byteLength_nil, size]
    omega
  have fits : byteLength front + byteLength (c :: value ++ [c]) ≤ byteLength text := by
    rw [whole]
    simp only [byteLength_append, byteLength_cons, byteLength_nil, byteLength_lower]
    omega
  rw [scanTag?_open whole opens, found]
  simp only [Option.map_some, Option.getD_some, byteLength_lower, close, Nat.min_eq_left fits]

/-- A value that is not closed is the rest of the text. The loop goes on one byte past the end, where it
stops. -/
theorem scanTag?_unclosed {value : List Char} (whole : text = front ++ lower (c :: value))
    (opens : OpensValue afterEquals c) (inside : c ∉ value) :
    scanTag? text (turns + 1 + 1) afterEquals (byteLength front) =
      some ([⟨byteLength front, byteLength front + byteLength (c :: value)⟩],
        byteLength front + byteLength (c :: value)) := by
  have kept : c.toLower = c := (toLower_eq_iff opens.low).mpr rfl
  have length : byteLength text = byteLength front + byteLength (c :: value) := by
    rw [whole, byteLength_append, byteLength_lower]
  have whole : text = front ++ c :: lower value := by
    rw [whole, lower_cons, kept]
  rw [scanTag?_open whole opens, findByte?_absent (not_mem_lower opens.low inside)]
  simp only [Option.map_none, Option.getD_none, scanTag?_ended _ false (Nat.le_succ _),
    Option.map_some, Nat.min_eq_right (Nat.le_succ _)]
  rw [length]

theorem scanTag?_finished (whole : text = front ++ '>' :: back) :
    scanTag? text (turns + 1) afterEquals (byteLength front) = some ([], byteLength front + 1) := by
  have fits := utf8Size_le_of_split whole
  have size := Char.utf8Size_pos '>'
  have here : byteAt? text (byteLength front) = some '>' :=
    (byteAt?_of_split whole 0).trans (byteAt?_ascii (by decide) back)
  simp only [scanTag?, if_pos (show byteLength front < byteLength text by omega), here,
    Option.bind_eq_bind, Option.bind_some, if_pos]
  rfl

/-- A character in lower case is passed like the one that it comes from. -/
theorem scanTag?_lowered (whole : text = front ++ c.toLower :: back) (other : c ≠ '>')
    (unopened : ¬ OpensValue afterEquals c) :
    scanTag? text (c.utf8Size + turns) afterEquals (byteLength front) =
      scanTag? text turns (c = '=' || (afterEquals && isAsciiBlank c))
        (byteLength (front ++ [c.toLower])) := by
  have other : c.toLower ≠ '>' := (toLower_eq_iff (by decide)).not.mpr other
  have same : (c.toLower = '=' || (afterEquals && isAsciiBlank c.toLower)) =
      (c = '=' || (afterEquals && isAsciiBlank c)) := by
    rw [isAsciiBlank_toLower, decide_eq_decide.mpr (toLower_eq_iff (by decide))]
  have unopened := opensValue_toLower.not.mpr unopened
  rw [byteLength_append, byteLength_cons, byteLength_nil, Nat.add_zero, ← utf8Size_toLower c,
    scanTag?_plain whole other unopened, same]

theorem scanTag?_reading {before parts : List TagPart} {rest : Option (List Char)}
    (reading : TagReading before back parts rest) :
    ∀ (front : List Char) (turns : Nat) {afterEquals : Bool}, text = front ++ lower back →
      (afterEquals = true ↔ EndsInEquals before) → byteLength back < turns →
      scanTag? text turns afterEquals (byteLength front) =
        some (TagPart.spans (byteLength front) parts,
          byteLength front + byteLength (parts.flatMap TagPart.source)) := by
  induction reading with
  | @finished before rest =>
    intro front turns afterEquals whole state enough
    obtain ⟨turns, rfl⟩ := Nat.exists_eq_add_of_lt enough
    exact scanTag?_finished whole
  | cut =>
    intro front turns afterEquals whole state enough
    obtain ⟨turns, rfl⟩ := Nat.exists_eq_add_of_lt enough
    have length : byteLength text = byteLength front := by
      rw [whole]
      exact congrArg byteLength (List.append_nil front)
    rw [scanTag?_ended _ _ (Nat.le_of_eq length), length]
    rfl
  | @plain before parts c back rest inside unquoted _ ih =>
    intro front turns afterEquals whole state enough
    rw [byteLength_cons] at enough
    obtain ⟨left, rfl⟩ : ∃ left, turns = c.utf8Size + left := ⟨turns - c.utf8Size, by omega⟩
    have unopened := (opensQuote_iff state).not.mpr unquoted
    have later := ih (front ++ [c.toLower]) left
      (by rw [whole, List.append_assoc]; rfl) (endsInEquals_step state c) (by omega)
    rw [scanTag?_lowered whole inside unopened, later, byteLength_append, byteLength_cons,
      byteLength_nil, utf8Size_toLower]
    simp [TagPart.spans, TagPart.source, Nat.add_assoc]
  | @quoted before parts quote value back rest opens inside _ ih =>
    intro front turns afterEquals whole state enough
    obtain ⟨turns, rfl⟩ := Nat.exists_eq_add_of_lt enough
    have opens := (opensQuote_iff state).mpr opens
    have split : text = (front ++ lower (quote :: value ++ [quote])) ++ lower back := by
      rw [whole, List.append_assoc, ← lower_append, List.append_assoc]
      rfl
    have shorter : byteLength back < byteLength (quote :: (value ++ quote :: back)) := by
      have size := quote.utf8Size_pos
      simp only [byteLength_append, byteLength_cons]
      omega
    have later := ih _ (byteLength (quote :: (value ++ quote :: back)) + turns) split
      (iff_of_false Bool.false_ne_true not_endsInEquals_quoted) (by omega)
    rw [byteLength_append, byteLength_lower] at later
    rw [scanTag?_closed whole opens inside, later, List.flatMap_cons,
      byteLength_append (TagPart.source _), ← Nat.add_assoc]
    rfl
  | @openQuote before quote value opens inside =>
    intro front turns afterEquals whole state enough
    obtain ⟨turns, rfl⟩ := Nat.exists_eq_add_of_lt enough
    have opens := (opensQuote_iff state).mpr opens
    have more : byteLength (quote :: value) + turns =
        quote.utf8Size - 1 + byteLength value + turns + 1 := by
      have size := quote.utf8Size_pos
      rw [byteLength_cons]
      omega
    rw [more, scanTag?_unclosed whole opens inside, List.flatMap_singleton]
    rfl

/-! ### What begins with an angle bracket -/

theorem isNameChar_toLower (c : Char) : isNameChar c.toLower = isNameChar c := by
  rw [isNameChar, isNameChar, isLetter_toLower, isDigit_toLower]

theorem any_head?_lower (text : List Char) :
    (lower text).head?.any isLetter = text.head?.any isLetter := by
  cases text with
  | nil => rfl
  | cons c text => exact isLetter_toLower c

theorem any_head?_takeWhile (text : List Char) :
    (text.takeWhile isNameChar).head?.any isLetter = text.head?.any isLetter := by
  cases text with
  | nil => rfl
  | cons c text =>
    by_cases word : isNameChar c = true
    · rw [List.takeWhile_cons_of_pos word]
      rfl
    · rw [List.takeWhile_cons_of_neg word]
      have other : isLetter c = false := by
        rw [isNameChar, Bool.or_eq_true, not_or] at word
        exact Bool.eq_false_iff.mpr word.1
      exact other.symm

theorem isPrefixOf_commentStart (text : List Char) :
    commentStart.isPrefixOf (lower text) = true ↔ commentStart <+: text :=
  List.isPrefixOf_iff_prefix.trans (prefix_lower_iff (by decide))

theorem scanMarkup?_plain (whole : text = front ++ lower ('<' :: back))
    (unmarked : ¬ BeginsMarkup ('<' :: back)) :
    scanMarkup? text (byteLength front) = some ([], byteLength front + byteLength ['<']) := by
  have here := fromByte?_of_split whole
  have name : fromByte? 1 (lower ('<' :: back)) = some (lower back) := fromByte?_append ['<'] _
  have comment : ¬ commentStart.isPrefixOf (lower ('<' :: back)) = true := fun begins =>
    unmarked (.inl ((isPrefixOf_commentStart _).mp begins))
  have letter : ¬ back.head?.any isLetter = true := by
    intro letter
    cases back with
    | nil => cases letter
    | cons c back => exact unmarked (.inr ⟨c, back, rfl, letter⟩)
  simp only [scanMarkup?, here, Option.bind_eq_bind, Option.bind_some, if_neg comment, name,
    any_head?_takeWhile, any_head?_lower, if_neg letter]
  rfl

theorem scanMarkup?_comment (whole : text = front ++ lower (commentStart ++ back)) :
    scanMarkup? text (byteLength front) =
      let stop := ((findByte? commentEnd (lower back)).map (byteLength front + 4 + · + 3)).getD
        (byteLength text)
      some ([⟨byteLength front, stop⟩], stop) := by
  have here := fromByte?_of_split whole
  have inside : fromByte? 4 (lower (commentStart ++ back)) = some (lower back) :=
    fromByte?_append commentStart _
  have comment := (isPrefixOf_commentStart (commentStart ++ back)).mpr (List.prefix_append _ _)
  simp only [scanMarkup?, here, Option.bind_eq_bind, Option.bind_some, if_pos comment, inside]
  rfl

theorem commentEnd_lower :
    (fun text : List Char => commentEnd <+: text) = fun text => commentEnd <+: lower text :=
  funext fun _ => propext (prefix_lower_iff (by decide)).symm

theorem scanMarkup?_closed {inside rest : List Char}
    (reaches : Reaches (commentEnd <+: ·) inside (commentEnd ++ rest))
    (whole : text = front ++ lower (commentStart ++ (inside ++ (commentEnd ++ rest)))) :
    scanMarkup? text (byteLength front) =
      let stop := byteLength front + byteLength (commentStart ++ inside ++ commentEnd)
      some ([⟨byteLength front, stop⟩], stop) := by
  have more : commentEnd ++ rest ≠ [] := List.append_ne_nil_of_left_ne_nil (by decide) rest
  have found := findByte?_marked commentEnd (by decide) more (commentEnd_lower ▸ reaches)
  have stop : byteLength front + 4 + byteLength inside + 3 =
      byteLength front + byteLength (commentStart ++ inside ++ commentEnd) := by
    have first : byteLength commentStart = 4 := rfl
    have last : byteLength commentEnd = 3 := rfl
    rw [byteLength_append, byteLength_append, first, last]
    omega
  simp only [scanMarkup?_comment whole, found, Option.map_some, Option.getD_some, stop]

theorem scanMarkup?_unclosed {inside : List Char} (reaches : Reaches (commentEnd <+: ·) inside [])
    (whole : text = front ++ lower (commentStart ++ inside)) :
    scanMarkup? text (byteLength front) =
      let stop := byteLength front + byteLength (commentStart ++ inside)
      some ([⟨byteLength front, stop⟩], stop) := by
  have found := findByte?_unmarked commentEnd (by decide) (commentEnd_lower ▸ reaches)
  have stop : byteLength text = byteLength front + byteLength (commentStart ++ inside) := by
    rw [whole, byteLength_append, byteLength_lower]
  simp only [scanMarkup?_comment whole, found, Option.map_none, Option.getD_none, stop]

theorem source_plain (word : List Char) :
    (word.map TagPart.plain).flatMap TagPart.source = word := by
  rw [List.flatMap_map]
  exact List.flatMap_singleton' word

/-- The scan of a start tag from behind its name on. -/
theorem scanTag?_tag {name behind : List Char} {parts : List TagPart} {rest : Option (List Char)}
    (word : name.all isNameChar = true)
    (reading : TagReading (('<' :: name).map .plain) behind parts rest)
    (whole : text = front ++ lower ('<' :: (name ++ behind))) :
    scanTag? text (byteLength text + 1) false (byteLength front + 1 + byteLength (lower name)) =
      some (TagPart.spans (byteLength front) (('<' :: name).map TagPart.plain ++ parts),
        byteLength front +
          byteLength ((('<' :: name).map TagPart.plain ++ parts).flatMap TagPart.source)) := by
  have split : text = (front ++ lower ('<' :: name)) ++ lower behind := by
    rw [whole, ← List.cons_append, lower_append, List.append_assoc]
  have place : byteLength (front ++ lower ('<' :: name)) =
      byteLength front + byteLength ('<' :: name) := by
    rw [byteLength_append, byteLength_lower]
  have named : byteLength front + 1 + byteLength (lower name) =
      byteLength front + byteLength ('<' :: name) := by
    rw [byteLength_lower, byteLength_cons, ← Nat.add_assoc]
    rfl
  have read := scanTag?_reading reading _ (byteLength text + 1) split
    (unequal_name word)
    (by rw [split, byteLength_append, byteLength_lower behind]; omega)
  rw [place] at read
  rw [named, read, TagPart.spans_plain, List.flatMap_append, source_plain,
    byteLength_append ('<' :: name), Nat.add_assoc]

theorem scanMarkup?_tag {name : List Char} {parts : List TagPart} {rest : Option (List Char)}
    (tag : StartTag back name parts rest) (whole : text = front ++ lower back) :
    scanMarkup? text (byteLength front) =
      let stop := byteLength front + byteLength (parts.flatMap TagPart.source)
      if stop < byteLength text ∧ lower name ∈ rawTextElements then do
        let body ← fromByte? stop text
        let bodyStop := ((findByte? ('<' :: '/' :: lower name) body).map (stop + ·)).getD
          (byteLength text)
        return (TagPart.spans (byteLength front) parts ++ [⟨stop, bodyStop⟩], bodyStop)
      else some (TagPart.spans (byteLength front) parts, stop) := by
  obtain ⟨_, -, no_comment, -, -⟩ := tag.begins
  have comment : ¬ commentStart.isPrefixOf (lower back) = true := by
    rw [isPrefixOf_commentStart, ← isSome_afterPrefix?_iff, no_comment]
    exact Bool.false_ne_true
  have here := fromByte?_of_split whole
  cases tag with
  | @intro name behind parts rest letter word ends reading =>
    have inside : fromByte? 1 (lower ('<' :: (name ++ behind))) = some (lower (name ++ behind)) :=
      fromByte?_append ['<'] _
    have named : (lower (name ++ behind)).takeWhile isNameChar = lower name := by
      rw [takeWhile_lower isNameChar_toLower, (span_name word ends).1]
    have letter : (lower name).head?.any isLetter = true := (any_head?_lower name).trans letter
    simp only [scanMarkup?, here, Option.bind_eq_bind, Option.bind_some, if_neg comment, inside,
      named, if_pos letter, scanTag?_tag word reading whole]
    rfl

theorem StartTag.source_eq {name : List Char} {parts : List TagPart} {rest : Option (List Char)}
    (tag : StartTag text name parts rest) :
    text = parts.flatMap TagPart.source ++ rest.getD [] := by
  obtain ⟨inside, rfl, -, -, split⟩ := tag.begins
  have source := splitStartTag_source inside
  rw [split] at source
  exact source.symm

theorem StartTag.angle {name : List Char} {parts : List TagPart} {rest : Option (List Char)}
    (tag : StartTag text name parts rest) : ∃ more, parts.flatMap TagPart.source = '<' :: more := by
  cases tag with
  | intro letter word ends reading => exact ⟨_, rfl⟩

theorem byteLength_tag {name : List Char} {parts : List TagPart} {rest : Option (List Char)}
    (tag : StartTag back name parts rest) (whole : text = front ++ lower back) :
    byteLength text = byteLength front + byteLength (parts.flatMap TagPart.source) +
      byteLength (rest.getD []) := by
  rw [whole, byteLength_append, byteLength_lower, tag.source_eq, byteLength_append, Nat.add_assoc]

theorem scanMarkup?_ordinary {name : List Char} {parts : List TagPart} {rest : Option (List Char)}
    (tag : StartTag back name parts rest) (whole : text = front ++ lower back)
    (ordinary : rest.getD [] = [] ∨ lower name ∉ rawTextElements) :
    scanMarkup? text (byteLength front) = some (TagPart.spans (byteLength front) parts,
      byteLength front + byteLength (parts.flatMap TagPart.source)) := by
  have hidden := scanMarkup?_tag tag whole
  dsimp only at hidden
  rw [if_neg] at hidden
  · exact hidden
  · rintro ⟨inside, raw⟩
    rcases ordinary with last | other
    · rw [byteLength_tag tag whole, last] at inside
      exact absurd inside (Nat.lt_irrefl _)
    · exact other raw

theorem scanMarkup?_raw {name body rest : List Char} {parts : List TagPart}
    (tag : StartTag back name parts (some (body ++ rest))) (whole : text = front ++ lower back)
    (nonempty : body ++ rest ≠ []) (raw : lower name ∈ rawTextElements)
    (reaches : Reaches (lower ('<' :: '/' :: name) <+: lower ·) body rest) :
    scanMarkup? text (byteLength front) =
      let start := byteLength front + byteLength (parts.flatMap TagPart.source)
      let stop := start + byteLength body
      some (TagPart.spans (byteLength front) parts ++ [⟨start, stop⟩], stop) := by
  have length := byteLength_tag tag whole
  rw [Option.getD_some] at length
  have inside : byteLength front + byteLength (parts.flatMap TagPart.source) < byteLength text := by
    have more := byteLength_pos.mpr nonempty
    omega
  rw [byteLength_append body] at length
  have split : text = (front ++ lower (parts.flatMap TagPart.source)) ++ lower (body ++ rest) := by
    rw [whole, tag.source_eq, Option.getD_some, lower_append _ (body ++ rest), List.append_assoc]
  have cut := fromByte?_of_split split
  rw [byteLength_append, byteLength_lower] at cut
  have hidden := scanMarkup?_tag tag whole
  dsimp only at hidden
  rw [if_pos ⟨inside, raw⟩, cut, Option.bind_eq_bind, Option.bind_some] at hidden
  have last : ((findByte? ('<' :: '/' :: lower name) (lower (body ++ rest))).map
      (byteLength front + byteLength (parts.flatMap TagPart.source) + ·)).getD (byteLength text) =
      byteLength front + byteLength (parts.flatMap TagPart.source) + byteLength body := by
    by_cases more : rest = []
    · subst more
      have found := findByte?_unmarked ('<' :: '/' :: lower name) (List.cons_ne_nil _ _) reaches
      rw [List.append_nil, found, Option.map_none, Option.getD_none, length]
      rfl
    · have found := findByte?_marked ('<' :: '/' :: lower name) (List.cons_ne_nil _ _) more
        reaches
      rw [found, Option.map_some, Option.getD_some]
  rw [last] at hidden
  exact hidden

/-! ### From one angle bracket to the next -/

/-- Going on in front of `back`, which is left of a text, the hidden spans of some segments are
found. -/
def Finds (text back : List Char) (parts : List Segment) : Prop :=
  ∀ (front : List Char) (turns : Nat), text = front ++ lower back → byteLength back < turns →
    scanFrom? text turns (byteLength front) = some (spansFrom (byteLength front) parts)

theorem scanFrom?_skip (whole : text = front ++ c :: back) (other : c ≠ '<') :
    scanFrom? text turns (byteLength front) =
      scanFrom? text turns (byteLength front + c.utf8Size) := by
  cases turns with
  | zero => rfl
  | succ turns =>
    have split : text = (front ++ [c]) ++ back := by
      rw [whole, List.append_assoc]
      rfl
    have here := fromByte?_of_split whole
    have next := fromByte?_of_split split
    rw [byteLength_append, byteLength_cons, byteLength_nil, Nat.add_zero] at next
    simp only [scanFrom?, here, next, Option.bind_eq_bind, Option.bind_some, findByte?_cons other]
    cases findByte? ['<'] back with
    | none => rfl
    | some ahead => simp only [Option.map_some, Nat.add_assoc]

theorem scanFrom?_markup {piece rest : List Char} {spans : List Span} {parts : List Segment}
    (angle : ∃ more, piece = '<' :: more) (split : back = piece ++ rest)
    (whole : text = front ++ lower back)
    (hidden : scanMarkup? text (byteLength front) =
      some (spans, byteLength front + byteLength piece))
    (later : Finds text rest parts) (enough : byteLength back < turns) :
    scanFrom? text turns (byteLength front) =
      some (spans ++ spansFrom (byteLength front + byteLength piece) parts) := by
  obtain ⟨turns, rfl⟩ := Nat.exists_eq_add_of_lt enough
  obtain ⟨more, rfl⟩ := angle
  have here := fromByte?_of_split whole
  have found : findByte? ['<'] (lower back) = some 0 := by
    rw [split]
    exact findByte?_here '<' _
  have behind : text = (front ++ lower ('<' :: more)) ++ lower rest := by
    rw [whole, split, lower_append, List.append_assoc]
  have shorter : byteLength rest < byteLength back := by
    have size := Char.utf8Size_pos '<'
    rw [split, byteLength_append, byteLength_cons]
    omega
  have next := later _ (byteLength back + turns) behind (by omega)
  rw [byteLength_append, byteLength_lower] at next
  simp only [scanFrom?, here, Option.bind_eq_bind, Option.bind_some, found, Nat.add_zero, hidden,
    next]
  rfl

theorem finds_nil (text : List Char) : Finds text [] [] := by
  intro front turns whole enough
  obtain ⟨turns, rfl⟩ := Nat.exists_eq_add_of_lt enough
  have here := fromByte?_of_split whole
  simp only [scanFrom?, here, Option.bind_eq_bind, Option.bind_some]
  rfl

theorem finds_text {run rest : List Char} {parts : List Segment}
    (reaches : Reaches BeginsMarkup run rest) (later : Finds text rest parts) :
    Finds text (run ++ rest) (.text run :: parts) := by
  induction run with
  | nil => exact later
  | cons c run ih =>
    obtain ⟨unmarked, reaches⟩ := reaches_cons_iff.mp reaches
    have found : Finds text (run ++ rest) (.text run :: parts) := ih reaches
    intro front turns whole enough
    have next : spansFrom (byteLength front) (.text (c :: run) :: parts) =
        spansFrom (byteLength front + c.utf8Size) (.text run :: parts) := by
      show spansFrom (byteLength front + byteLength (c :: run)) parts = _
      rw [byteLength_cons, ← Nat.add_assoc]
      rfl
    rw [next]
    -- The scan stops at each angle bracket of a text, but jumps over everything else.
    by_cases angle : c = '<'
    · subst angle
      have hidden := scanMarkup?_plain whole unmarked
      exact scanFrom?_markup ⟨[], rfl⟩ rfl whole hidden found enough
    · have other : c.toLower ≠ '<' := mt (toLower_eq_iff (by decide)).mp angle
      have split : text = (front ++ [c.toLower]) ++ lower (run ++ rest) := by
        rw [whole, List.append_assoc]
        rfl
      have later := found _ turns split
        (by rw [List.cons_append, byteLength_cons] at enough; omega)
      rw [byteLength_append, byteLength_cons, byteLength_nil, Nat.add_zero,
        utf8Size_toLower] at later
      rw [scanFrom?_skip whole other, utf8Size_toLower, later]

theorem finds_segmentation (text : List Char) {parts : List Segment}
    (segmentation : Segmentation back parts) :
    Finds text back parts := by
  induction segmentation with
  | done => exact finds_nil text
  | text nonempty reaches _ ih => exact finds_text reaches ih
  | @comment inside rest later reaches _ ih =>
    intro front turns whole enough
    have hidden := scanMarkup?_closed reaches whole
    exact scanFrom?_markup ⟨_, rfl⟩ (by simp [Segment.source]) whole hidden ih enough
  | @openComment inside reaches =>
    intro front turns whole enough
    have hidden := scanMarkup?_unclosed reaches whole
    exact scanFrom?_markup ⟨_, rfl⟩ (by simp [Segment.source]) whole hidden (finds_nil text) enough
  | @startTag back name rest parts later tag ordinary _ ih =>
    intro front turns whole enough
    have hidden := scanMarkup?_ordinary tag whole ordinary
    exact scanFrom?_markup tag.angle tag.source_eq whole hidden ih enough
  | @openTag back name parts tag =>
    intro front turns whole enough
    have hidden := scanMarkup?_ordinary tag whole (.inl rfl)
    exact scanFrom?_markup tag.angle tag.source_eq whole hidden (finds_nil text) enough
  | @rawText back name body rest parts later tag nonempty raw reaches _ ih =>
    intro front turns whole enough
    have hidden := scanMarkup?_raw tag whole nonempty raw reaches
    have behind : byteLength front + byteLength (parts.flatMap TagPart.source) + byteLength body =
        byteLength front + byteLength (parts.flatMap TagPart.source ++ body) := by
      rw [byteLength_append, Nat.add_assoc]
    obtain ⟨more, angle⟩ := tag.angle
    dsimp only at hidden
    rw [behind] at hidden
    have found := scanFrom?_markup ⟨more ++ body, by rw [angle]; rfl⟩
      (by rw [tag.source_eq, List.append_assoc]; rfl) whole hidden ih enough
    rw [found, ← behind, List.append_assoc]
    rfl

theorem byteScan?_eq (text : List Char) : byteScan? text = some (hiddenSpans text) := by
  have found := finds_segmentation (lower text) (segmentation_segments text) []
    (byteLength text + 1) rfl (Nat.lt_succ_self _)
  exact found

end PageLint.Markup
