import PageLint.Html.Token.Content

/-!
# What reading leaves

Each reader takes what it reads off the front of its text, so what it leaves is the end of that
text: `readNext_suffix`. A start tag is read only in markup, where its name follows a `<`:
`startTag_mem_readNext`.
-/

namespace PageLint.Html

open Text

variable {text rest : List Char}

theorem drop_one_dropWhile_suffix (p : Char → Bool) (text : List Char) :
    (text.dropWhile p).drop 1 <:+ text :=
  (List.drop_suffix 1 _).trans (List.dropWhile_suffix p)

/-- What follows the first character that ends a run is the end of the text. -/
theorem suffix_of_dropWhile {p : Char → Bool} {c : Char} (found : text.dropWhile p = c :: rest) :
    rest <:+ text :=
  (List.suffix_cons c rest).trans (found ▸ List.dropWhile_suffix p)

/-! ### Comments and character data -/

theorem readMarkedText_suffix (text : List Char) : (readMarkedText text).2 <:+ text :=
  drop_one_dropWhile_suffix _ text

theorem afterCommentEnd?_suffix (ends : afterCommentEnd? text = some rest) : rest <:+ text := by
  unfold afterCommentEnd? at ends
  split at ends <;> cases ends
  · exact List.suffix_append ['-', '-', '>'] rest
  · exact List.suffix_append ['-', '-', '!', '>'] rest

theorem readCommentText_suffix (text : List Char) : (readCommentText text).2 <:+ text := by
  induction text with
  | nil => exact List.suffix_rfl
  | cons c text ih =>
    unfold readCommentText
    split
    · rename_i ends
      exact afterCommentEnd?_suffix ends
    · split
      · exact List.nil_suffix
      · exact ih.trans (List.suffix_cons c text)

theorem readComment_suffix (text : List Char) : (readComment text).2 <:+ text := by
  unfold readComment
  split
  · exact List.suffix_cons _ _
  · exact List.suffix_append ['-', '>'] _
  · exact readCommentText_suffix _

theorem readCharacterData_suffix (text : List Char) : (readCharacterData text).2 <:+ text := by
  unfold readCharacterData
  cases ends : splitAtFirst? [']', ']', '>'] text with
  | none => exact List.nil_suffix
  | some parts =>
    rw [eq_append_of_splitAtFirst? ends]
    exact List.suffix_append _ _

/-! ### Document types -/

theorem afterDeclaration_suffix (text : List Char) : afterDeclaration text <:+ text :=
  drop_one_dropWhile_suffix _ text

theorem readIdentifier_suffix (quote : Char) (text : List Char) :
    (readIdentifier quote text).2.2 <:+ text ∧
      ∀ rest, (readIdentifier quote text).2.1 = some rest → rest <:+ text := by
  unfold readIdentifier
  dsimp only
  split
  · rename_i found
    have after := suffix_of_dropWhile found
    refine ⟨after, fun later same => ?_⟩
    dsimp only at same
    split at same <;> cases same
    exact after
  · exact ⟨List.nil_suffix, fun _ same => by cases same⟩

theorem readDoctypeEnd_suffix (d : Doctype) (text : List Char) :
    (readDoctypeEnd d text).2 <:+ text := by
  unfold readDoctypeEnd
  split
  · exact List.nil_suffix
  · exact (afterDeclaration_suffix _).trans (List.dropWhile_suffix _)

theorem readSystem_suffix (required : Bool) (d : Doctype) (text : List Char) :
    (readSystem required d text).2 <:+ text := by
  unfold readSystem
  split
  · exact List.nil_suffix
  · rename_i c rest found
    have after := suffix_of_dropWhile found
    have identifier := readIdentifier_suffix c rest
    split
    · split
      · rename_i read
        rw [read] at identifier
        exact (readDoctypeEnd_suffix ..).trans ((identifier.2 _ rfl).trans after)
      · rename_i read
        rw [read] at identifier
        exact identifier.1.trans after
    · rw [← found]
      exact (afterDeclaration_suffix _).trans (List.dropWhile_suffix _)

theorem readPublic_suffix (d : Doctype) (text : List Char) : (readPublic d text).2 <:+ text := by
  unfold readPublic
  split
  · exact List.nil_suffix
  · rename_i c rest found
    have after := suffix_of_dropWhile found
    have identifier := readIdentifier_suffix c rest
    split
    · split
      · rename_i read
        rw [read] at identifier
        exact (readSystem_suffix ..).trans ((identifier.2 _ rfl).trans after)
      · rename_i read
        rw [read] at identifier
        exact identifier.1.trans after
    · rw [← found]
      exact (afterDeclaration_suffix _).trans (List.dropWhile_suffix _)

theorem readExternal_suffix (d : Doctype) (text : List Char) :
    (readExternal d text).2 <:+ text := by
  unfold readExternal
  split
  · exact List.nil_suffix
  · refine List.IsSuffix.trans ?_ (List.dropWhile_suffix isTagBlank)
    split
    · exact (readPublic_suffix ..).trans (List.drop_suffix _ _)
    · split
      · exact (readSystem_suffix ..).trans (List.drop_suffix _ _)
      · exact afterDeclaration_suffix _

theorem readDoctype_suffix (text : List Char) : (readDoctype text).2 <:+ text := by
  unfold readDoctype
  dsimp only
  refine List.IsSuffix.trans ?_ (List.dropWhile_suffix isTagBlank)
  split
  · exact List.nil_suffix
  · rename_i found
    rw [found]
    exact List.suffix_cons _ _
  · exact (readExternal_suffix ..).trans (List.dropWhile_suffix _)

/-! ### Tags -/

theorem readValue_suffix (text : List Char) : (readValue text).2 <:+ text := by
  unfold readValue
  split
  · exact List.nil_suffix
  · rename_i c rest found
    split
    · exact (drop_one_dropWhile_suffix _ rest).trans (suffix_of_dropWhile found)
    · split
      · exact found ▸ List.dropWhile_suffix isTagBlank
      · exact (List.dropWhile_suffix _).trans (found ▸ List.dropWhile_suffix isTagBlank)

theorem readAssignment_suffix (text : List Char) : (readAssignment text).2 <:+ text := by
  unfold readAssignment
  split
  · rename_i found
    exact (readValue_suffix _).trans (suffix_of_dropWhile found)
  · exact List.dropWhile_suffix isTagBlank

theorem readAttributes?_suffix {text : List Char} {t : TagRest}
    (read : readAttributes? text = some t) : t.rest <:+ text := by
  unfold readAttributes? at read
  split at read
  · cases read
  · rename_i c rest found
    have after : rest <:+ text := suffix_of_dropWhile found
    have shorter : rest.length < text.length := by
      have skipped := length_dropWhile_le isTagBlank text
      rw [found, List.length_cons] at skipped
      exact skipped
    split at read
    · cases read
      exact after
    · split at read
      · split at read
        · cases read
          exact (List.tail_suffix rest).trans after
        · exact (readAttributes?_suffix read).trans after
      · obtain ⟨inner, later, rfl⟩ := Option.map_eq_some_iff.1 read
        have value := readAssignment_suffix (rest.dropWhile (!endsAttributeName ·))
        have within := value.trans (List.dropWhile_suffix _)
        have smaller := within.length_le
        exact (readAttributes?_suffix later).trans (within.trans after)
termination_by text.length
decreasing_by all_goals omega

theorem readTag_suffix (text : List Char) (token : Tag → Token) :
    (readTag text token).rest <:+ text := by
  unfold readTag
  dsimp only
  split
  · rename_i read
    exact (readAttributes?_suffix read).trans (List.dropWhile_suffix _)
  · exact List.nil_suffix

theorem readClosing_suffix (text : List Char) : (readClosing text).rest <:+ text := by
  unfold readClosing
  split
  · exact List.suffix_rfl
  · split
    · exact readTag_suffix ..
    · split
      · exact List.suffix_cons _ _
      · exact readMarkedText_suffix _

theorem readDeclaration_suffix (foreign : Bool) (text : List Char) :
    (readDeclaration foreign text).rest <:+ text := by
  unfold readDeclaration
  split
  · exact (readDoctype_suffix _).trans (List.drop_suffix 7 text)
  · split
    · rename_i opens
      rw [afterPrefix?_eq_some_iff.1 opens]
      exact (readComment_suffix _).trans (List.suffix_append _ _)
    · rename_i opens
      split at opens
      · rw [afterPrefix?_eq_some_iff.1 opens]
        exact (readCharacterData_suffix _).trans (List.suffix_append _ _)
      · cases opens
    · exact readMarkedText_suffix _

theorem readAngle_suffix (foreign : Bool) (text : List Char) :
    (readAngle foreign text).rest <:+ text := by
  unfold readAngle
  split
  · exact (readDeclaration_suffix ..).trans (List.suffix_cons _ _)
  · exact (readClosing_suffix _).trans (List.suffix_cons _ _)
  · exact readMarkedText_suffix _
  · split
    · exact readTag_suffix ..
    · exact List.suffix_rfl
  · exact List.suffix_rfl

theorem readAmpersand_suffix (content : Content) (text : List Char) :
    (readAmpersand content text).rest <:+ text := by
  unfold readAmpersand
  split
  · exact List.drop_suffix _ text
  · exact List.suffix_rfl

theorem readUntil_suffix (element : String) (content : Content) (text : List Char) :
    (readUntil element content text).rest <:+ text := by
  unfold readUntil
  split
  · split
    · exact (readTag_suffix ..).trans (List.suffix_cons _ _)
    · exact List.suffix_rfl
  · exact List.suffix_rfl

theorem readScriptAngle_suffix (depth : ScriptDepth) (text : List Char) :
    (readScriptAngle depth text).rest <:+ text := by
  unfold readScriptAngle
  split
  · exact List.suffix_append ['!', '-', '-'] _
  · split
    · exact List.suffix_rfl
    · exact readUntil_suffix ..
  · exact List.suffix_cons _ _
  · split
    · exact List.suffix_rfl
    · exact readUntil_suffix ..

/-- What reading on leaves is the end of the text. -/
theorem readNext_suffix (content : Content) (foreign : Bool) (c : Char) (rest : List Char) :
    (readNext content foreign c rest).rest <:+ rest := by
  unfold readNext
  split
  · split
    · exact readAngle_suffix ..
    · split
      · exact readAmpersand_suffix ..
      · exact List.suffix_rfl
  · split
    · exact readUntil_suffix ..
    · split
      · exact readAmpersand_suffix ..
      · exact List.suffix_rfl
  · split
    · exact readUntil_suffix ..
    · exact List.suffix_rfl
  · split
    · exact readScriptAngle_suffix ..
    · repeat' split
      all_goals exact List.suffix_rfl
  · exact List.suffix_rfl

/-! ### Start tags -/

def tagName (text : List Char) : String :=
  String.ofList ((text.takeWhile (!endsTagName ·)).map nameChar)

theorem mem_readTag {token : Tag → Token} {t : Token} (member : t ∈ (readTag text token).tokens) :
    ∃ r, readAttributes? (text.dropWhile (!endsTagName ·)) = some r ∧
      t = token ⟨tagName text, dropRepeated r.attributes, r.selfClosing⟩ := by
  unfold readTag at member
  dsimp only at member
  split at member
  · rename_i r read
    exact ⟨r, read, List.mem_singleton.mp member⟩
  · cases member

variable {tag : Tag}

theorem startTag_not_mem_endTag :
    .startTag tag ∉ (readTag text fun tag => .endTag tag.name).tokens := by
  intro member
  obtain ⟨r, _, same⟩ := mem_readTag member
  cases same

theorem startTag_not_mem_readClosing : .startTag tag ∉ (readClosing text).tokens := by
  unfold readClosing
  split
  · simp
  · split
    · exact startTag_not_mem_endTag
    · split <;> simp

theorem startTag_not_mem_readDeclaration {foreign : Bool} :
    .startTag tag ∉ (readDeclaration foreign text).tokens := by
  unfold readDeclaration
  split
  · simp
  · split <;> simp

theorem startTag_not_mem_readAmpersand {content : Content} :
    .startTag tag ∉ (readAmpersand content text).tokens := by
  unfold readAmpersand
  split
  · dsimp only
    split <;> simp
  · simp

theorem startTag_not_mem_readUntil {element : String} {content : Content} :
    .startTag tag ∉ (readUntil element content text).tokens := by
  unfold readUntil
  split
  · split
    · exact startTag_not_mem_endTag
    · simp
  · simp

theorem startTag_not_mem_readScriptAngle {depth : ScriptDepth} :
    .startTag tag ∉ (readScriptAngle depth text).tokens := by
  unfold readScriptAngle
  split
  · simp
  · split
    · simp
    · exact startTag_not_mem_readUntil
  · simp
  · split
    · simp
    · exact startTag_not_mem_readUntil

/-- A start tag is read in markup only, from a `<` that its name follows. -/
theorem startTag_mem_readNext {content : Content} {foreign : Bool} {c : Char}
    (member : .startTag tag ∈ (readNext content foreign c rest).tokens) :
    c = '<' ∧ (∃ d later, rest = d :: later ∧ isLetter d = true) ∧
      .startTag tag ∈ (readTag rest .startTag).tokens := by
  unfold readNext at member
  split at member
  · split at member
    · rename_i opens
      unfold readAngle at member
      split at member
      · exact absurd member startTag_not_mem_readDeclaration
      · exact absurd member startTag_not_mem_readClosing
      · simp at member
      · rename_i d later _ _ _
        split at member
        · rename_i letter
          exact ⟨opens, ⟨d, later, rfl, letter⟩, member⟩
        · simp at member
      · simp at member
    · split at member
      · exact absurd member startTag_not_mem_readAmpersand
      · simp at member
  · split at member
    · exact absurd member startTag_not_mem_readUntil
    · split at member
      · exact absurd member startTag_not_mem_readAmpersand
      · simp [visible] at member
  · split at member
    · exact absurd member startTag_not_mem_readUntil
    · simp [visible] at member
  · split at member
    · exact absurd member startTag_not_mem_readScriptAngle
    · split at member
      · simp [visible] at member
      · split at member
        · simp [visible] at member
        · split at member <;> simp [visible] at member
  · simp [visible] at member

/-- A start tag has a name that no blank, slash or `>` stands in, and something follows it. -/
theorem startTag_mem_readTag (member : .startTag tag ∈ (readTag rest .startTag).tokens) :
    tag.name = tagName rest ∧
      ∃ c later, rest.dropWhile (!endsTagName ·) = c :: later ∧ endsTagName c = true := by
  obtain ⟨r, read, same⟩ := mem_readTag member
  cases same
  refine ⟨rfl, ?_⟩
  have ends := List.head?_dropWhile_not (!endsTagName ·) rest
  cases after : rest.dropWhile (!endsTagName ·) with
  | nil =>
    rw [after, readAttributes?] at read
    cases read
  | cons c later =>
    rw [after] at ends
    exact ⟨c, later, rfl, by simpa using ends⟩

end PageLint.Html
