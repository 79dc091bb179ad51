import PageLint.Html.Builder.Step

/-!
# Builders that differ in their nodes

Two builders are alike if they hold the same elements under other numbers. How a token is read
depends on the names of the open elements and on which of them are one node, so it cannot tell such
builders apart: every test that reading makes answers the same for both.
-/

namespace PageLint.Html

def Open.rename (ρ : NodeId → NodeId) (o : Open) : Open :=
  { o with id := ρ o.id }

def Formatting.rename (ρ : NodeId → NodeId) : Formatting → Formatting
  | mark => mark
  | element id tag => element (ρ id) tag

@[simp] theorem Open.rename_name (ρ : NodeId → NodeId) (o : Open) : (o.rename ρ).name = o.name :=
  rfl

@[simp] theorem Open.rename_id (ρ : NodeId → NodeId) (o : Open) : (o.rename ρ).id = ρ o.id := rfl

theorem Formatting.rename_injective {ρ : NodeId → NodeId} (injective : Function.Injective ρ) :
    Function.Injective (Formatting.rename ρ) := by
  intro f g same
  cases f with
  | mark =>
    cases g with
    | mark => rfl
    | element _ _ => cases same
  | element id tag =>
    cases g with
    | mark => cases same
    | element id' tag' =>
      obtain ⟨number, rfl⟩ := Formatting.element.inj same
      rw [injective number]

namespace Builder

structure SameNodes (b c : Builder) : Prop where
  dom : c.dom = b.dom
  stack : c.stack = b.stack
  formatting : c.formatting = b.formatting
  head : c.head = b.head
  form : c.form = b.form

structure SameSettings (b c : Builder) : Prop where
  mode : c.mode = b.mode
  resume : c.resume = b.resume
  templates : c.templates = b.templates
  framesAllowed : c.framesAllowed = b.framesAllowed
  fostering : c.fostering = b.fostering
  dropsNewline : c.dropsNewline = b.dropsNewline
  lenient : c.lenient = b.lenient
  tableText : c.tableText = b.tableText
  content : c.content = b.content

/-- Whether two builders differ at most in their nodes, and those of the first have the numbers
`ρ` gives them in the second. -/
structure Alike (ρ : NodeId → NodeId) (b b' : Builder) : Prop where
  stack : b'.stack = b.stack.map (Open.rename ρ)
  formatting : b'.formatting = b.formatting.map (Formatting.rename ρ)
  head : b'.head = b.head.map ρ
  form : b'.form = b.form.map ρ
  nextId : b'.dom.nextId = ρ b.dom.nextId
  settings : SameSettings b b'

/-! ### Searching the open elements -/

theorem finds_rename {ρ : NodeId → NodeId} {stops : ElementName → Bool}
    {wanted wanted' : Open → Bool}
    (same : ∀ o, wanted' (o.rename ρ) = wanted o) (stack : List Open) :
    finds stops wanted' (stack.map (Open.rename ρ)) = finds stops wanted stack := by
  induction stack with
  | nil => rfl
  | cons o outer ih => rw [List.map_cons, finds, finds, same, ih, Open.rename_name]

theorem selectMode_rename (ρ : NodeId → NodeId) (stack : List Open) :
    selectMode (stack.map (Open.rename ρ)) = selectMode stack := by
  induction stack with
  | nil => rfl
  | cons o outer ih => rw [List.map_cons, selectMode, selectMode, ih, Open.rename_name]

/-! ### Tests that do not see the numbers -/

section Tests

variable {α β : Type} {g : α → β} {p : α → Bool} {q : β → Bool} (same : ∀ x, q (g x) = p x)
include same

theorem dropWhile_rename (xs : List α) : (xs.map g).dropWhile q = (xs.dropWhile p).map g := by
  rw [List.dropWhile_map, show q ∘ g = p from funext same]

theorem takeWhile_rename (xs : List α) : (xs.map g).takeWhile q = (xs.takeWhile p).map g := by
  rw [List.takeWhile_map, show q ∘ g = p from funext same]

theorem filter_rename (xs : List α) : (xs.map g).filter q = (xs.filter p).map g := by
  rw [List.filter_map, show q ∘ g = p from funext same]

theorem find?_rename (xs : List α) : (xs.map g).find? q = (xs.find? p).map g := by
  rw [List.find?_map, show q ∘ g = p from funext same]

theorem any_rename (xs : List α) : (xs.map g).any q = xs.any p := by
  rw [List.any_map, show q ∘ g = p from funext same]

end Tests

theorem dropWhile_name (ρ : NodeId → NodeId) (p : ElementName → Bool) (stack : List Open) :
    (stack.map (Open.rename ρ)).dropWhile (fun o => p o.name) =
      (stack.dropWhile fun o => p o.name).map (Open.rename ρ) :=
  dropWhile_rename (fun _ => rfl) stack

theorem takeWhile_name (ρ : NodeId → NodeId) (p : ElementName → Bool) (stack : List Open) :
    (stack.map (Open.rename ρ)).takeWhile (fun o => p o.name) =
      (stack.takeWhile fun o => p o.name).map (Open.rename ρ) :=
  takeWhile_rename (fun _ => rfl) stack

section Tags

variable {p : Formatting → Bool} (tagged : ∀ n m tag, p (.element n tag) = p (.element m tag))
include tagged

theorem tagged_rename (ρ : NodeId → NodeId) (f : Formatting) : p (f.rename ρ) = p f := by
  cases f with
  | mark => rfl
  | element n tag => exact tagged (ρ n) n tag

theorem filter_tagged (ρ : NodeId → NodeId) (formatting : List Formatting) :
    (formatting.map (Formatting.rename ρ)).filter p =
      (formatting.filter p).map (Formatting.rename ρ) :=
  filter_rename (tagged_rename tagged ρ) formatting

theorem find?_tagged (ρ : NodeId → NodeId) (formatting : List Formatting) :
    (formatting.map (Formatting.rename ρ)).find? p =
      (formatting.find? p).map (Formatting.rename ρ) :=
  find?_rename (tagged_rename tagged ρ) formatting

end Tags

/-! ### Numbers of nodes -/

theorem beq_rename {ρ : NodeId → NodeId} (injective : Function.Injective ρ) (n m : NodeId) :
    (ρ n == ρ m) = (n == m) := by
  rw [Bool.eq_iff_iff, beq_iff_eq, beq_iff_eq]
  exact injective.eq_iff

theorem isMark_rename (ρ : NodeId → NodeId) (f : Formatting) :
    (f.rename ρ ≠ .mark : Bool) = (f ≠ .mark : Bool) := by
  cases f <;> rfl

theorem isEntry_rename {ρ : NodeId → NodeId} (injective : Function.Injective ρ) (n : NodeId)
    (f : Formatting) : isEntry (ρ n) (f.rename ρ) = isEntry n f := by
  cases f with
  | mark => rfl
  | element id tag => exact beq_rename injective id n

/-! ### What a builder is asked -/

namespace Alike

variable {ρ : NodeId → NodeId} {b b' : Builder} (a : Alike ρ b b')
include a

theorem any_name (p : ElementName → Bool) :
    b'.stack.any (fun o => p o.name) = b.stack.any (fun o => p o.name) := by
  rw [a.stack, List.any_map]
  rfl

theorem head?_name (p : ElementName → Bool) :
    b'.stack.head?.any (fun o => p o.name) = b.stack.head?.any (fun o => p o.name) := by
  rw [a.stack, List.head?_map, Option.any_map]
  rfl

theorem finds_name (stops p : ElementName → Bool) :
    finds stops (fun o => p o.name) b'.stack = finds stops (fun o => p o.name) b.stack := by
  rw [a.stack]
  exact finds_rename (fun _ => rfl) b.stack

theorem length_stack : b'.stack.length = b.stack.length := by
  rw [a.stack, List.length_map]

theorem currentIs (name : String) : b'.currentIs name = b.currentIs name :=
  a.head?_name (·.isHtml name)

theorem hasOpen (name : String) : b'.hasOpen name = b.hasOpen name :=
  a.any_name (·.isHtml name)

theorem inScope (name : String) : b'.inScope name = b.inScope name :=
  a.finds_name stopsScope (·.isHtml name)

theorem paragraphInScope : b'.paragraphInScope = b.paragraphInScope :=
  a.finds_name (fun n => stopsScope n || n.isHtml "button") (·.isHtml "p")

theorem itemInScope : b'.itemInScope = b.itemInScope :=
  a.finds_name (fun n => stopsScope n || n.isAnyOf ["ol", "ul"]) (·.isHtml "li")

theorem inTableScope (names : List String) : b'.inTableScope names = b.inTableScope names :=
  a.finds_name (·.isAnyOf Names.tableScope) (·.isAnyOf names)

theorem selectInScope : b'.selectInScope = b.selectInScope :=
  a.finds_name (!·.isAnyOf ["optgroup", "option"]) (·.isHtml "select")

theorem modeOf (stack : List Open) :
    b'.modeOf (stack.map (Open.rename ρ)) = b.modeOf stack := by
  have noHead : b'.head.isNone = b.head.isNone := by rw [a.head, Option.isNone_map]
  induction stack with
  | nil => rfl
  | cons o outer ih =>
    rw [List.map_cons, Builder.modeOf, Builder.modeOf, ih, selectMode_rename, noHead,
      List.isEmpty_map, a.settings.templates, Open.rename_name]

theorem properMode : b'.properMode = b.properMode := by
  rw [Builder.properMode, a.stack]
  exact a.modeOf b.stack

theorem holdsCharacterData : b'.holdsCharacterData = b.holdsCharacterData :=
  a.head?_name (·.space ≠ .html)

theorem isForeign (t : Token) : b'.isForeign t = b.isForeign t := by
  rw [Builder.isForeign, Builder.isForeign, a.stack]
  cases b.stack with
  | nil => rfl
  | cons o outer => rfl

theorem getLast?_stack : b'.stack.getLast? = b.stack.getLast?.map (Open.rename ρ) := by
  rw [a.stack, List.getLast?_map]

variable (injective : Function.Injective ρ)
include injective

theorem isSettled (f : Formatting) : b'.isSettled (f.rename ρ) = b.isSettled f := by
  cases f with
  | mark => rfl
  | element id tag =>
    rw [Formatting.rename, Builder.isSettled, Builder.isSettled, a.stack]
    exact any_rename (fun o => beq_rename injective o.id id) b.stack

end Alike

end Builder

end PageLint.Html
