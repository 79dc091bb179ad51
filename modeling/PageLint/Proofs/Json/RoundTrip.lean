import PageLint.Json.Reader
import PageLint.Json.Writer

/-!
# Reading what was written

`read?_render` says that reading a value in writing gives it back, compact or over several lines, if
its numbers are natural numbers and its strings are texts.
-/

namespace PageLint.Json

open Text

variable {pretty : Bool} {level : Nat}

mutual
def IsPlain : Json → Prop
  | null | bool _ | string _ => True
  | number literal => ∃ n : Nat, literal = toString n
  | broken => False
  | array items => ArePlain items
  | object fields => FieldsPlain fields

def ArePlain : List Json → Prop
  | [] => True
  | item :: items => IsPlain item ∧ ArePlain items

def FieldsPlain : List (String × Json) → Prop
  | [] => True
  | (_, value) :: fields => IsPlain value ∧ FieldsPlain fields
end

/-! ### Numbers -/

def EndsNumber (text : List Char) : Prop :=
  ∀ c ∈ text.head?, isDigit c = false ∧ c ≠ '.' ∧ c ≠ 'e' ∧ c ≠ 'E'

theorem isDigit_of_mem_toDigits {n : Nat} {c : Char} (member : c ∈ Nat.toDigits 10 n) :
    isDigit c = true := by
  have digit := Nat.isDigit_of_mem_toDigits (by decide) (by decide) member
  simpa [isDigit, Char.isDigit, Char.le_def] using digit

theorem ne_of_isDigit {c d : Char} (digit : isDigit c = true) (other : isDigit d = false) : c ≠ d := by
  rintro rfl
  rw [digit] at other
  cases other

/-- A number other than zero is written without a zero in front. -/
theorem toDigits_eq_cons {n : Nat} (positive : n ≠ 0) :
    ∃ c digits, Nat.toDigits 10 n = c :: digits ∧ c ≠ '0' := by
  induction n using Nat.strongRecOn with
  | _ n ih =>
    rcases Nat.lt_or_ge n 10 with small | large
    · have nonzero : ∀ n < 10, n ≠ 0 → n.digitChar ≠ '0' := by decide
      rw [Nat.toDigits_of_lt_base small]
      exact ⟨_, [], rfl, nonzero n small positive⟩
    · obtain ⟨c, digits, front, nonzero⟩ := ih (n / 10) (by omega) (by omega)
      rw [Nat.toDigits_of_base_le (by decide) large, front]
      exact ⟨c, _, rfl, nonzero⟩

theorem takeWhile_digits {digits rest : List Char} (all : ∀ c ∈ digits, isDigit c = true)
    (ends : EndsNumber rest) : (digits ++ rest).takeWhile isDigit = digits := by
  have none : rest.takeWhile isDigit = [] := by
    cases rest with
    | nil => rfl
    | cons c rest => exact List.takeWhile_cons_of_neg (by simp [(ends c rfl).1])
  rw [List.takeWhile_append_of_pos all, none, List.append_nil]

theorem numberLength?_digits {whole rest : List Char} (digits : ∀ c ∈ whole, isDigit c = true)
    (starts : whole = ['0'] ∨ ∃ c more, whole = c :: more ∧ c ≠ '0') (ends : EndsNumber rest) :
    numberLength? (whole ++ rest) = some whole.length := by
  obtain ⟨c, more, rfl⟩ : ∃ c more, whole = c :: more := by
    rcases starts with rfl | ⟨c, more, rfl, -⟩
    · exact ⟨_, _, rfl⟩
    · exact ⟨_, _, rfl⟩
  have unsigned : ¬ (c :: more ++ rest).head? = some '-' := by
    intro minus
    have digit := digits c List.mem_cons_self
    rw [Option.some.inj minus] at digit
    cases digit
  have length : (if (c :: more ++ rest).head? = some '0' then 1
      else ((c :: more ++ rest).takeWhile isDigit).length) = more.length + 1 := by
    rw [takeWhile_digits digits ends]
    split
    · rename_i zero
      obtain rfl := Option.some.inj zero
      rcases starts with single | ⟨d, others, split, nonzero⟩
      · cases single
        rfl
      · exact absurd (List.cons.inj split).1.symm nonzero
    · rfl
  have rest_eq : (c :: more ++ rest).drop (more.length + 1) = rest := List.drop_left
  rw [numberLength?, if_neg unsigned]
  simp only [List.drop_zero, length, rest_eq]
  cases rest with
  | nil => simp
  | cons d rest =>
    obtain ⟨-, point, lower, upper⟩ := ends d rfl
    simp [point, lower, upper]

theorem numberLength?_toDigits (n : Nat) {rest : List Char} (ends : EndsNumber rest) :
    numberLength? (Nat.toDigits 10 n ++ rest) = some (Nat.toDigits 10 n).length := by
  refine numberLength?_digits (fun c => isDigit_of_mem_toDigits) ?_ ends
  rcases Nat.eq_zero_or_pos n with rfl | positive
  · exact .inl (Nat.toDigits_zero 10)
  · exact .inr (toDigits_eq_cons (Nat.ne_of_gt positive))

/-! ### Blanks between values -/

/-- Whether a text starts with something that is neither blank nor the end of a list. -/
def StartsValue (text : List Char) : Prop :=
  ∃ c rest, text = c :: rest ∧ isBlank c = false ∧ c ≠ ']'

theorem skipBlanks_cons {c : Char} (solid : isBlank c = false) (rest : List Char) :
    skipBlanks (c :: rest) = c :: rest :=
  List.dropWhile_cons_of_neg (by simp [solid])

theorem skipBlanks_lineStart (pretty : Bool) (level : Nat) (text : List Char) :
    skipBlanks ((lineStart pretty level).toList ++ text) = skipBlanks text := by
  have blank : ∀ c ∈ (lineStart pretty level).toList, isBlank c = true := by
    intro c member
    rw [lineStart] at member
    split at member
    · rw [String.toList_append, List.mem_append] at member
      rcases member with newline | space
      · obtain rfl := List.mem_singleton.mp newline
        rfl
      · rw [String.toList_ofList] at space
        obtain rfl := List.eq_of_mem_replicate space
        rfl
    · cases member
  rw [skipBlanks, List.dropWhile_append_of_pos blank, skipBlanks]

theorem endsNumber_lineStart (pretty : Bool) (level : Nat) {text : List Char}
    (ends : EndsNumber text) : EndsNumber ((lineStart pretty level).toList ++ text) := by
  rw [lineStart]
  split
  · rw [String.toList_append]
    intro c first
    obtain rfl := Option.some.inj first
    decide
  · exact ends

theorem toList_quote (s : String) : (quote s).toList = '"' :: (escape s.toList ++ ['"']) := by
  simp [quote]

theorem StartsValue.skipBlanks_eq {text : List Char} (starts : StartsValue text) :
    skipBlanks text = text := by
  obtain ⟨c, rest, rfl, solid, -⟩ := starts
  exact skipBlanks_cons solid rest

theorem startsValue_render (pretty : Bool) (level : Nat) {v : Json} (plain : v.IsPlain)
    (rest : List Char) :
    StartsValue ((renderAt pretty level v).toList ++ rest) := by
  cases v with
  | null => exact ⟨'n', "ull".toList ++ rest, by simp [renderAt], by decide⟩
  | bool b =>
    cases b
    · exact ⟨'f', "alse".toList ++ rest, by simp [renderAt], by decide⟩
    · exact ⟨'t', "rue".toList ++ rest, by simp [renderAt], by decide⟩
  | number literal =>
    obtain ⟨n, rfl⟩ := plain
    obtain ⟨c, digits, split⟩ := List.exists_cons_of_ne_nil (Nat.toDigits_ne_nil (n := n) (b := 10))
    have digit : isDigit c = true := isDigit_of_mem_toDigits (split ▸ List.mem_cons_self)
    refine ⟨c, digits ++ rest, by simp [renderAt, split], ?_, ne_of_isDigit digit rfl⟩
    have space : c ≠ ' ' := ne_of_isDigit digit rfl
    have tab : c ≠ '\t' := ne_of_isDigit digit rfl
    have newline : c ≠ '\n' := ne_of_isDigit digit rfl
    have carriage : c ≠ '\r' := ne_of_isDigit digit rfl
    simp [isBlank, space, tab, newline, carriage]
  | string s => exact ⟨'"', escape s.toList ++ '"' :: rest, by simp [renderAt, toList_quote], by decide⟩
  | broken => cases plain
  | array items =>
    cases items with
    | nil => exact ⟨'[', ']' :: rest, by simp [renderAt], by decide⟩
    | cons item items => exact ⟨'[', _, by simp [renderAt]; rfl, by decide⟩
  | object fields =>
    cases fields with
    | nil => exact ⟨'\x7b', '\x7d' :: rest, by simp [renderAt], by decide⟩
    | cons field fields => exact ⟨'\x7b', _, by simp [renderAt]; rfl, by decide⟩

/-! ### Reading -/

theorem readValue_number {fuel : Nat} {literal rest : List Char}
    (digits : ∀ c ∈ literal, isDigit c = true) (nonempty : literal ≠ [])
    (length : numberLength? (literal ++ rest) = some literal.length) :
    readValue (fuel + 1) (literal ++ rest) = some (number (String.ofList literal), rest) := by
  obtain ⟨c, more, rfl⟩ := List.exists_cons_of_ne_nil nonempty
  have digit := digits c List.mem_cons_self
  have word {d : Char} (other : isDigit d = false) (start : List Char) :
      afterPrefix? (d :: start) (c :: more ++ rest) = none :=
    if_neg (ne_of_isDigit digit other).symm
  have other {d : Char} (special : isDigit d = false) (later : List Char) :
      c :: more ++ rest = d :: later → False :=
    fun same => ne_of_isDigit digit special (List.cons.inj same).1
  have text : (c :: more ++ rest).take (c :: more).length = c :: more ∧
      (c :: more ++ rest).drop (c :: more).length = rest := ⟨List.take_left, List.drop_left⟩
  rw [readValue]
  · rw [word rfl, word rfl, word rfl, length]
    simp only [text.1, text.2]
  · exact other rfl
  · exact other rfl
  · exact other rfl

theorem ofFields_map_some (fields : List (String × Json)) :
    ofFields (fields.map (Prod.map some id)) = object fields := by
  have keyed : (fields.map (Prod.map some id)).mapM
      (fun field : Option String × Json => field.1.map (·, field.2)) = some fields := by
    induction fields with
    | nil => rfl
    | cons field fields ih => simp [List.mapM_cons, ih]
  rw [ofFields, keyed]
  rfl

/-- The items behind the first of an array, and the bracket at its end. -/
def itemsEnd (pretty : Bool) (level : Nat) (items : List Json) (rest : List Char) : List Char :=
  (renderItems pretty (level + 1) "," items).toList ++
    ((lineStart pretty level).toList ++ ']' :: rest)

def fieldsEnd (pretty : Bool) (level : Nat) (fields : List (String × Json)) (rest : List Char) :
    List Char :=
  (renderFields pretty (level + 1) "," fields).toList ++
    ((lineStart pretty level).toList ++ '\x7d' :: rest)

def fieldText (pretty : Bool) (level : Nat) (key : String) (value : Json) (rest : List Char) :
    List Char :=
  '"' :: (escape key.toList ++ '"' :: ':' :: ((if pretty then [' '] else []) ++
    ((renderAt pretty level value).toList ++ rest)))

theorem itemsEnd_nil (rest : List Char) :
    itemsEnd pretty level [] rest = (lineStart pretty level).toList ++ ']' :: rest := by
  simp [itemsEnd, renderItems]

theorem itemsEnd_cons (item : Json) (items : List Json) (rest : List Char) :
    itemsEnd pretty level (item :: items) rest =
      ',' :: ((lineStart pretty (level + 1)).toList ++
        ((renderAt pretty (level + 1) item).toList ++ itemsEnd pretty level items rest)) := by
  simp [itemsEnd, renderItems]

theorem endsNumber_itemsEnd (items : List Json) (rest : List Char) :
    EndsNumber (itemsEnd pretty level items rest) := by
  cases items with
  | nil =>
    rw [itemsEnd_nil]
    exact endsNumber_lineStart _ _ (by simp [EndsNumber, isDigit])
  | cons item items =>
    rw [itemsEnd_cons]
    simp [EndsNumber, isDigit]

theorem fieldsEnd_nil (rest : List Char) :
    fieldsEnd pretty level [] rest = (lineStart pretty level).toList ++ '\x7d' :: rest := by
  simp [fieldsEnd, renderFields]

theorem fieldsEnd_cons (key : String) (value : Json) (fields : List (String × Json))
    (rest : List Char) :
    fieldsEnd pretty level ((key, value) :: fields) rest =
      ',' :: ((lineStart pretty (level + 1)).toList ++
        fieldText pretty (level + 1) key value (fieldsEnd pretty level fields rest)) := by
  cases pretty <;> simp [fieldsEnd, renderFields, fieldText, toList_quote]

theorem skipBlanks_fieldText (key : String) (value : Json) (rest : List Char) :
    skipBlanks (fieldText pretty level key value rest) = fieldText pretty level key value rest :=
  skipBlanks_cons rfl _

theorem length_renderItems_cons (pretty : Bool) (level : Nat) (item : Json) (items : List Json) :
    (renderAt pretty level item).length + (renderItems pretty level "," items).length <
      (renderItems pretty level "," (item :: items)).length := by
  have comma : ",".length = 1 := by decide
  simp only [renderItems, String.length_append, comma]
  omega

theorem length_renderFields_cons (pretty : Bool) (level : Nat) (key : String) (value : Json)
    (fields : List (String × Json)) :
    (renderAt pretty level value).length + (renderFields pretty level "," fields).length <
      (renderFields pretty level "," ((key, value) :: fields)).length := by
  have comma : ",".length = 1 := by decide
  simp only [renderFields, String.length_append, comma]
  omega

theorem length_renderAt_array (pretty : Bool) (level : Nat) (item : Json) (items : List Json) :
    (renderAt pretty (level + 1) item).length + (renderItems pretty (level + 1) "," items).length + 1 <
      (renderAt pretty level (array (item :: items))).length := by
  have brackets : "[".length = 1 ∧ "]".length = 1 := by decide
  simp only [renderAt, renderItems, String.length_append, brackets]
  omega

theorem length_renderAt_object (pretty : Bool) (level : Nat) (key : String) (value : Json)
    (fields : List (String × Json)) :
    (renderAt pretty (level + 1) value).length +
        (renderFields pretty (level + 1) "," fields).length + 1 <
      (renderAt pretty level (object ((key, value) :: fields))).length := by
  have braces : "\x7b".length = 1 ∧ "\x7d".length = 1 := by decide
  simp only [renderAt, renderFields, String.length_append, braces]
  omega

theorem toList_render_array (item : Json) (items : List Json) (rest : List Char) :
    (renderAt pretty level (array (item :: items))).toList ++ rest =
      '[' :: ((lineStart pretty (level + 1)).toList ++
        ((renderAt pretty (level + 1) item).toList ++ itemsEnd pretty level items rest)) := by
  simp [renderAt, renderItems, itemsEnd]

theorem toList_render_object (key : String) (value : Json) (fields : List (String × Json))
    (rest : List Char) :
    (renderAt pretty level (object ((key, value) :: fields))).toList ++ rest =
      '\x7b' :: ((lineStart pretty (level + 1)).toList ++
        fieldText pretty (level + 1) key value (fieldsEnd pretty level fields rest)) := by
  cases pretty <;> simp [renderAt, renderFields, fieldsEnd, fieldText, toList_quote]

theorem endsNumber_fieldsEnd (fields : List (String × Json)) (rest : List Char) :
    EndsNumber (fieldsEnd pretty level fields rest) := by
  cases fields with
  | nil =>
    rw [fieldsEnd_nil]
    exact endsNumber_lineStart _ _ (by simp [EndsNumber, isDigit])
  | cons field fields =>
    rw [fieldsEnd_cons]
    simp [EndsNumber, isDigit]

mutual
theorem readValue_render (pretty : Bool) (level : Nat) (v : Json) (plain : v.IsPlain) (fuel : Nat)
    (enough : (renderAt pretty level v).length ≤ fuel) (rest : List Char) (ends : EndsNumber rest) :
    readValue fuel ((renderAt pretty level v).toList ++ rest) = some (v, rest) := by
  obtain ⟨fuel, rfl⟩ : ∃ more, fuel = more + 1 := by
    obtain ⟨c, text, split, -⟩ := startsValue_render pretty level plain []
    have length := congrArg List.length split
    rw [List.append_nil, String.length_toList, List.length_cons] at length
    exact ⟨fuel - 1, by omega⟩
  cases v with
  | null => simp [renderAt, readValue, afterPrefix?]
  | bool b => cases b <;> simp [renderAt, readValue, afterPrefix?]
  | number literal =>
    obtain ⟨n, rfl⟩ := plain
    rw [renderAt, Nat.toString_eq_ofList_toDigits, String.toList_ofList]
    exact readValue_number (fun c => isDigit_of_mem_toDigits) Nat.toDigits_ne_nil
      (numberLength?_toDigits n ends)
  | string s =>
    rw [renderAt, toList_quote, List.cons_append, readValue, List.append_assoc,
      List.singleton_append, readString_escape]
    simp
  | broken => cases plain
  | array items =>
    cases items with
    | nil => simp [renderAt, readValue, skipBlanks, isBlank]
    | cons item items =>
      have starts := startsValue_render pretty (level + 1) plain.1
        (itemsEnd pretty level items rest)
      have length := length_renderAt_array pretty level item items
      have all := readItems_render pretty level item items plain fuel (by omega) rest _
        starts.skipBlanks_eq
      rw [toList_render_array, readValue, skipBlanks_lineStart, starts.skipBlanks_eq]
      obtain ⟨c, text, split, -, open_⟩ := starts
      rw [split] at all ⊢
      simp [all, open_]
  | object fields =>
    cases fields with
    | nil => simp [renderAt, readValue, skipBlanks, isBlank]
    | cons field fields =>
      obtain ⟨key, value⟩ := field
      have length := length_renderAt_object pretty level key value fields
      have all := readFields_render pretty level key value fields plain fuel (by omega) rest _
        (skipBlanks_fieldText key value _)
      rw [toList_render_object, readValue, skipBlanks_lineStart, skipBlanks_fieldText]
      show (readFields fuel (fieldText _ _ _ _ _)).map _ = _
      rw [all, Option.map_some]
      exact congrArg (fun v => some (v, rest)) (ofFields_map_some _)
termination_by fuel

theorem readItems_render (pretty : Bool) (level : Nat) (item : Json) (items : List Json)
    (plain : ArePlain (item :: items)) (fuel : Nat)
    (enough : (renderAt pretty (level + 1) item).length +
      (renderItems pretty (level + 1) "," items).length < fuel) (rest text : List Char)
    (written : skipBlanks text =
      (renderAt pretty (level + 1) item).toList ++ itemsEnd pretty level items rest) :
    readItems fuel text = some (item :: items, rest) := by
  obtain ⟨fuel, rfl⟩ : ∃ more, fuel = more + 1 := ⟨fuel - 1, by omega⟩
  have first := readValue_render pretty (level + 1) item plain.1 fuel (by omega)
    (itemsEnd pretty level items rest) (endsNumber_itemsEnd items rest)
  rw [readItems, written, first]
  cases items with
  | nil =>
    rw [itemsEnd_nil]
    simp only [skipBlanks_lineStart, skipBlanks_cons (show isBlank ']' = false from rfl)]
  | cons next items =>
    have later := startsValue_render pretty (level + 1) plain.2.1
      (itemsEnd pretty level items rest)
    have length := length_renderItems_cons pretty (level + 1) next items
    have others := readItems_render pretty level next items plain.2 fuel
      (by omega) rest
      ((lineStart pretty (level + 1)).toList ++
        ((renderAt pretty (level + 1) next).toList ++ itemsEnd pretty level items rest))
      (by rw [skipBlanks_lineStart, later.skipBlanks_eq])
    rw [itemsEnd_cons]
    simp only [skipBlanks_cons (show isBlank ',' = false from rfl), others, Option.map_some]
termination_by fuel

theorem readFields_render (pretty : Bool) (level : Nat) (key : String) (value : Json)
    (fields : List (String × Json)) (plain : FieldsPlain ((key, value) :: fields)) (fuel : Nat)
    (enough : (renderAt pretty (level + 1) value).length +
      (renderFields pretty (level + 1) "," fields).length < fuel) (rest text : List Char)
    (written : skipBlanks text =
      fieldText pretty (level + 1) key value (fieldsEnd pretty level fields rest)) :
    readFields fuel text =
      some (((key, value) :: fields).map (Prod.map some id), rest) := by
  obtain ⟨fuel, rfl⟩ : ∃ more, fuel = more + 1 := ⟨fuel - 1, by omega⟩
  have starts := startsValue_render pretty (level + 1) plain.1
    (fieldsEnd pretty level fields rest)
  have blanks : skipBlanks ((if pretty then [' '] else []) ++
      ((renderAt pretty (level + 1) value).toList ++ fieldsEnd pretty level fields rest)) =
      (renderAt pretty (level + 1) value).toList ++ fieldsEnd pretty level fields rest := by
    cases pretty
    · exact starts.skipBlanks_eq
    · exact starts.skipBlanks_eq
  have first := readValue_render pretty (level + 1) value plain.1 fuel (by omega)
    (fieldsEnd pretty level fields rest) (endsNumber_fieldsEnd fields rest)
  rw [readFields, written, fieldText]
  simp only [readString_escape, skipBlanks_cons (show isBlank ':' = false from rfl), blanks, first]
  cases fields with
  | nil =>
    rw [fieldsEnd_nil]
    simp only [skipBlanks_lineStart, skipBlanks_cons (show isBlank '\x7d' = false from rfl)]
    simp
  | cons next fields =>
    obtain ⟨next_key, next⟩ := next
    have length := length_renderFields_cons pretty (level + 1) next_key next fields
    have others := readFields_render pretty level next_key next fields plain.2 fuel
      (by omega) rest
      ((lineStart pretty (level + 1)).toList ++
        fieldText pretty (level + 1) next_key next (fieldsEnd pretty level fields rest))
      (by rw [skipBlanks_lineStart, skipBlanks_fieldText])
    rw [fieldsEnd_cons]
    simp only [skipBlanks_cons (show isBlank ',' = false from rfl), others, Option.map_some]
    simp
termination_by fuel
end

/-- Reading a value in writing gives it back. -/
theorem read?_render (pretty : Bool) {v : Json} (plain : v.IsPlain) :
    read? (v.render pretty) = some v := by
  have starts := startsValue_render pretty 0 plain []
  have value := readValue_render pretty 0 v plain ((v.render pretty).length + 1) (Nat.le_succ _) []
    (by simp [EndsNumber])
  rw [List.append_nil] at starts value
  rw [read?, render, starts.skipBlanks_eq]
  rw [render] at value
  rw [value]
  rfl

theorem arePlain_map {α : Type} {f : α → Json} (plain : ∀ a, (f a).IsPlain) (items : List α) :
    ArePlain (items.map f) := by
  induction items with
  | nil => trivial
  | cons a items ih => exact ⟨plain a, ih⟩

end PageLint.Json
