import PageLint.Proofs.Html.Alike
import PageLint.Proofs.Html.Tidy

/-!
# Nodes with one text more

Nodes may differ from others in a text `k` that is the first child of a node `r`, so that all
numbers from `k` on are one higher. As long as nothing is done inside `r`, each change of nodes
keeps that difference, `Dom.Grafted`.
-/

namespace PageLint.Html

/-- The number of a node where one more node has the number `k`. -/
def past (k n : Nat) : Nat :=
  if n < k then n else n + 1

theorem past_injective (k : Nat) : Function.Injective (past k) := by
  intro n m same
  unfold past at same
  split at same <;> split at same <;> omega

theorem past_ne (k n : Nat) : past k n ≠ k := by
  unfold past
  split <;> omega

theorem past_of_lt {k n : Nat} (below : n < k) : past k n = n :=
  if_pos below

theorem past_of_le {k n : Nat} (above : k ≤ n) : past k n = n + 1 :=
  if_neg (Nat.not_lt.mpr above)

def NodeEntry.graft (r k n : NodeId) (e : NodeEntry) : NodeEntry :=
  { e with
    parent := e.parent.map (past k)
    children := (if n = r then #[k] else #[]) ++ e.children.map (past k) }

namespace Dom

/-- Whether nodes differ in the text `k` only, the first child of `r`. -/
structure Grafted (r k : NodeId) (dom dom' : Dom) : Prop where
  order : r < k
  room : k ≤ dom.nextId
  nextId : dom'.nextId = dom.nextId + 1
  text : ∃ s, dom'.get? k = some { data := .text s, parent := some r }
  entry : ∀ n, dom'.get? (past k n) = (dom.get? n).map (NodeEntry.graft r k n)

namespace Grafted

variable {r k n p : NodeId} {dom dom' : Dom} (g : Grafted r k dom dom')
include g

theorem known : r < dom.nextId :=
  Nat.lt_of_lt_of_le g.order g.room

theorem nextId_eq : dom'.nextId = past k dom.nextId := by
  rw [g.nextId, past_of_le g.room]

theorem parent? (n : NodeId) : dom'.parent? (past k n) = (dom.parent? n).map (past k) := by
  rw [Dom.parent?, Dom.parent?, g.entry]
  cases dom.get? n <;> rfl

theorem children (n : NodeId) : dom'.children (past k n) =
    (if n = r then #[k] else #[]) ++ (dom.children n).map (past k) := by
  rw [Dom.children, Dom.children, g.entry]
  cases found : dom.get? n with
  | none =>
    have other : n ≠ r := by
      rintro rfl
      have present := get?_isSome.mpr g.known
      rw [found] at present
      cases present
    rw [if_neg other]
    simp
  | some e => rfl

theorem children_of_ne (other : n ≠ r) :
    dom'.children (past k n) = (dom.children n).map (past k) := by
  rw [g.children, if_neg other, Array.empty_append]

/-! ### Changes -/

theorem add (data : NodeData) : Grafted r k (dom.add data) (dom'.add data) where
  order := g.order
  room := by
    rw [nextId_add]
    exact Nat.le_succ_of_le g.room
  nextId := by rw [nextId_add, nextId_add, g.nextId]
  text := by
    obtain ⟨s, found⟩ := g.text
    refine ⟨s, ?_⟩
    have old : k ≠ dom'.nextId := by
      rw [g.nextId]
      exact Nat.ne_of_lt (Nat.lt_succ_of_le g.room)
    rw [get?_add, if_neg old, found]
  entry := by
    intro n
    rw [get?_add, get?_add, g.nextId_eq]
    by_cases new : n = dom.nextId
    · have other : n ≠ r := new ▸ Nat.ne_of_gt g.known
      rw [if_pos (congrArg (past k) new), if_pos new, Option.map_some, NodeEntry.graft,
        if_neg other, Array.empty_append, Array.map_empty]
      rfl
    · rw [if_neg fun same => new (past_injective k same), if_neg new]
      exact g.entry n

theorem change (n : NodeId) {f f' : NodeEntry → NodeEntry}
    (same : ∀ e, f' (e.graft r k n) = (f e).graft r k n) :
    Grafted r k (dom.change n f) (dom'.change (past k n) f') where
  order := g.order
  room := by
    rw [nextId_change]
    exact g.room
  nextId := by rw [nextId_change, nextId_change, g.nextId]
  text := by
    obtain ⟨s, found⟩ := g.text
    refine ⟨s, ?_⟩
    rw [get?_change, if_neg (past_ne k n), found]
  entry := by
    intro m
    rw [get?_change, get?_change]
    by_cases here : n = m
    · subst here
      rw [if_pos rfl, if_pos rfl, g.entry]
      cases dom.get? n with
      | none => rfl
      | some e => exact congrArg some (same e)
    · rw [if_neg fun same => here (past_injective k same), if_neg here]
      exact g.entry m

/-- A change of children that does not see the text. -/
theorem change_children (n : NodeId) {f h : Array NodeId → Array NodeId}
    {l m : List NodeId → List NodeId} (listed : ∀ xs, (f xs).toList = l xs.toList)
    (listed' : ∀ xs, (h xs).toList = m xs.toList)
    (bare : ∀ xs, m (xs.map (past k)) = (l xs).map (past k))
    (first : ∀ xs, m (k :: xs) = k :: m xs) :
    Grafted r k (dom.change n fun e => { e with children := f e.children })
      (dom'.change (past k n) fun e => { e with children := h e.children }) := by
  refine g.change n fun e => ?_
  have same : h ((if n = r then #[k] else #[]) ++ e.children.map (past k)) =
      (if n = r then #[k] else #[]) ++ (f e.children).map (past k) := by
    rw [← Array.toList_inj, listed', Array.toList_append, Array.toList_append, Array.toList_map,
      Array.toList_map, listed]
    split
    · exact (first _).trans (congrArg (k :: ·) (bare _))
    · exact bare _
  rw [NodeEntry.graft, NodeEntry.graft, same]

theorem change_parent (n : NodeId) (parent : Option NodeId) :
    Grafted r k (dom.change n fun e => { e with parent })
      (dom'.change (past k n) fun e => { e with parent := parent.map (past k) }) :=
  g.change n fun _ => rfl

omit g in
theorem ne_past (n m : NodeId) : decide (past k m ≠ past k n) = decide (m ≠ n) :=
  decide_eq_decide.mpr (not_congr (past_injective k).eq_iff)

omit g in
theorem text_ne_past (n : NodeId) : decide (k ≠ past k n) = true := by
  simpa using (past_ne k n).symm

theorem detach (n : NodeId) : Grafted r k (dom.detach n) (dom'.detach (past k n)) := by
  rw [Dom.detach, Dom.detach, g.parent?]
  cases dom.parent? n with
  | none => exact g
  | some p =>
    have away := g.change_children p (f := (·.filter (· ≠ n))) (h := (·.filter (· ≠ past k n)))
      (l := (·.filter (· ≠ n))) (m := (·.filter (· ≠ past k n)))
      (fun _ => Array.toList_filter) (fun _ => Array.toList_filter)
      (fun xs => Builder.filter_rename (q := (· ≠ past k n)) (ne_past n) xs)
      (fun xs => List.filter_cons_of_pos (text_ne_past n))
    exact away.change_parent n none

theorem append (p n : NodeId) :
    Grafted r k (dom.append p n) (dom'.append (past k p) (past k n)) := by
  have pushed := (g.detach n).change_children p (f := (·.push n)) (h := (·.push (past k n)))
    (l := (· ++ [n])) (m := (· ++ [past k n])) (fun _ => Array.toList_push)
    (fun _ => Array.toList_push) (fun xs => by rw [List.map_append]; rfl)
    (fun xs => List.cons_append)
  exact pushed.change_parent n (some p)

theorem insertBefore (sibling n : NodeId) :
    Grafted r k (dom.insertBefore sibling n) (dom'.insertBefore (past k sibling) (past k n)) := by
  have away := g.detach n
  rw [Dom.insertBefore, Dom.insertBefore]
  dsimp only
  rw [away.parent?]
  cases (dom.detach n).parent? sibling with
  | none => exact away
  | some p =>
    have other := text_ne_past (k := k) sibling
    have placed := away.change_children p
      (l := fun xs => xs.takeWhile (· ≠ sibling) ++ n :: xs.dropWhile (· ≠ sibling))
      (m := fun xs => xs.takeWhile (· ≠ past k sibling) ++
        past k n :: xs.dropWhile (· ≠ past k sibling))
      (fun xs => toList_insertion xs (· ≠ sibling) n)
      (fun xs => toList_insertion xs (· ≠ past k sibling) (past k n))
      (by
        intro xs
        rw [Builder.takeWhile_rename (q := (· ≠ past k sibling)) (ne_past sibling),
          Builder.dropWhile_rename (q := (· ≠ past k sibling)) (ne_past sibling), List.map_append,
          List.map_cons])
      (by
        intro xs
        rw [List.takeWhile_cons_of_pos (p := (· ≠ past k sibling)) other,
          List.dropWhile_cons_of_pos (p := (· ≠ past k sibling)) other, List.cons_append])
    exact placed.change_parent n (some p)

theorem addAttributes (n : NodeId) (attributes : List Attribute) :
    Grafted r k (dom.addAttributes n attributes) (dom'.addAttributes (past k n) attributes) := by
  refine g.change n fun e => ?_
  obtain ⟨data, parent, children⟩ := e
  cases data <;> rfl

theorem moveChildren (source target : NodeId) (other : source ≠ r) :
    Grafted r k (dom.moveChildren source target)
      (dom'.moveChildren (past k source) (past k target)) := by
  rw [Dom.moveChildren, Dom.moveChildren, g.children_of_ne other, Array.foldl_map,
    ← Array.foldl_toList, ← Array.foldl_toList]
  exact List.foldl_rel g fun n _ _ _ related => related.append target n

/-! ### Characters -/

theorem previous? (other : dom.parent? n ≠ some r) :
    dom'.previous? (past k n) = (dom.previous? n).map (past k) := by
  rw [Dom.previous?, Dom.previous?, g.parent?]
  cases place : dom.parent? n with
  | none => rfl
  | some p =>
    have outer : p ≠ r := fun same => other (same ▸ place)
    dsimp only [Option.map_some]
    rw [g.children_of_ne outer, ← Array.getLast?_toList, ← Array.getLast?_toList,
      Array.toList_takeWhile, Array.toList_takeWhile, Array.toList_map,
      Builder.takeWhile_rename (q := (· ≠ past k n)) (ne_past n), List.getLast?_map]

/-- A character joins the same text, if it joins one. -/
theorem extend? (c : Char) (n : Option NodeId) :
    Option.Rel (Grafted r k) (n.bind (dom.extend? · c))
      ((n.map (past k)).bind (dom'.extend? · c)) := by
  cases n with
  | none => exact .none
  | some n =>
    rw [Option.map_some, Option.bind_some, Option.bind_some, Dom.extend?, Dom.extend?, g.entry]
    cases dom.get? n with
    | none => exact .none
    | some e =>
      obtain ⟨data, parent, children⟩ := e
      cases data with
      | text s => exact .some (g.change n fun _ => rfl)
      | _ => exact .none

omit g in
theorem getD {a b : Option Dom} (answers : Option.Rel (Grafted r k) a b)
    (g : Grafted r k dom dom') : Grafted r k (a.getD dom) (b.getD dom') := by
  cases answers with
  | none => exact g
  | some related => exact related

theorem appendChar (c : Char) (other : p ≠ r) :
    Grafted r k (dom.appendChar p c) (dom'.appendChar (past k p) c) := by
  have fresh := (g.add (.text [c])).append p dom.nextId
  rw [Dom.appendChar, Dom.appendChar, g.children_of_ne other, Array.back?_map, g.nextId_eq]
  exact getD (g.extend? c _) fresh

theorem insertCharBefore {sibling : NodeId} (c : Char) (other : dom.parent? sibling ≠ some r) :
    Grafted r k (dom.insertCharBefore sibling c) (dom'.insertCharBefore (past k sibling) c) := by
  have fresh := (g.add (.text [c])).insertBefore sibling dom.nextId
  rw [Dom.insertCharBefore, Dom.insertCharBefore, g.previous? other, g.nextId_eq]
  exact getD (g.extend? c _) fresh

end Grafted

end Dom

namespace Builder

def Place.graft (k : NodeId) : Place → Place
  | .lastIn parent => .lastIn (past k parent)
  | .before table outer => .before (past k table) (past k outer)

end Builder

namespace Dom.Grafted

open Builder

variable {r k : NodeId} {dom dom' : Dom} (g : Grafted r k dom dom')
include g

theorem create (name : ElementName) (attributes : List Attribute) :
    Grafted r k (create dom name attributes) (create dom' name attributes) := by
  have added := g.add (.element name attributes)
  have contents :=
    (added.add .fragment).append dom.nextId (dom.add (.element name attributes)).nextId
  rw [← added.nextId_eq, ← g.nextId_eq, nextId_add, nextId_add] at contents
  rw [Builder.create, Builder.create]
  split
  · exact contents
  · exact added

theorem isSome_parent? (n : NodeId) :
    (dom'.parent? (past k n)).isSome = (dom.parent? n).isSome := by
  rw [g.parent?, Option.isSome_map]

theorem put (n : NodeId) (place : Place) :
    Grafted r k (put dom n place) (put dom' (past k n) (place.graft k)) := by
  cases place with
  | lastIn parent => exact g.append parent n
  | before table outer =>
    rw [Place.graft, Builder.put, Builder.put, g.isSome_parent?]
    split
    · exact g.insertBefore table n
    · exact g.append outer n

theorem putChar (c : Char) {place : Place} (tidy : dom.Tidy r) (outside : Outside r place) :
    Grafted r k (putChar dom c place) (putChar dom' c (place.graft k)) := by
  cases place with
  | lastIn parent => exact g.appendChar c outside
  | before table outer =>
    rw [Place.graft, Builder.putChar, Builder.putChar, g.isSome_parent?]
    split
    · exact g.insertCharBefore c (tidy.childless table)
    · exact g.appendChar c outside

end Dom.Grafted

/-! ### The text itself -/

namespace Dom

variable {r k : NodeId} {dom dom' : Dom}

/-- Whether nodes name only nodes that are there as their parents and children. -/
def Bounded (dom : Dom) : Prop :=
  ∀ e ∈ dom.entries.toList, (∀ p ∈ e.parent, p < dom.nextId) ∧
    ∀ c ∈ e.children.toList, c < dom.nextId

theorem Bounded.graft_eq (bounded : dom.Bounded) {n : NodeId} {e : NodeEntry}
    (found : dom.get? n = some e) : e.graft r dom.nextId n =
      { e with children := (if n = r then #[dom.nextId] else #[]) ++ e.children } := by
  obtain ⟨parents, children⟩ := bounded e (Array.mem_toList_iff.mpr (Array.mem_of_getElem? found))
  have sameParent : e.parent.map (past dom.nextId) = e.parent := by
    cases place : e.parent with
    | none => rfl
    | some p => exact congrArg some (past_of_lt (parents p place))
  have sameChildren : e.children.map (past dom.nextId) = e.children := by
    rw [← Array.toList_inj, Array.toList_map]
    exact (List.map_congr_left fun c member => past_of_lt (children c member)).trans (List.map_id _)
  rw [NodeEntry.graft, sameParent, sameChildren]

/-- The first character in an element without children makes a text. -/
theorem Bounded.grafted (bounded : dom.Bounded) (known : r < dom.nextId)
    (childless : dom.children r = #[]) (c : Char) :
    Grafted r dom.nextId dom (dom.appendChar r c) := by
  have alone : (dom.add (.text [c])).detach dom.nextId = dom.add (.text [c]) := by
    rw [detach, parent?, get?_add, if_pos rfl]
    rfl
  have appended : dom.appendChar r c = ((dom.add (.text [c])).change r fun e =>
      { e with children := e.children.push dom.nextId }).change dom.nextId
        fun e => { e with parent := some r } := by
    rw [appendChar, childless, append, alone]
    rfl
  rw [appended]
  refine ⟨known, Nat.le_refl _, ?_, ⟨[c], ?_⟩, ?_⟩
  · rw [nextId_change, nextId_change, nextId_add]
  · rw [get?_change, if_pos rfl, get?_change, if_neg (Nat.ne_of_lt known), get?_add, if_pos rfl]
    rfl
  · intro n
    rw [get?_change, if_neg (past_ne dom.nextId n).symm, get?_change, get?_add,
      if_neg (past_ne dom.nextId n)]
    cases found : dom.get? n with
    | none =>
      have above : dom.nextId ≤ n := by
        rw [← Nat.not_lt, ← get?_isSome, found]
        simp
      have beyond : dom.get? (n + 1) = none :=
        Array.getElem?_eq_none (Nat.le_succ_of_le above)
      rw [past_of_le above, beyond, Option.map_none, Option.map_none, ite_self]
    | some e =>
      have below : n < dom.nextId := by
        rw [← get?_isSome, found]
        rfl
      rw [past_of_lt below, found, Option.map_some, Option.map_some, bounded.graft_eq found]
      by_cases here : r = n
      · have empty : e.children = #[] := by
          rw [children, here, found] at childless
          exact childless
        rw [if_pos here, if_pos here.symm, empty]
        rfl
      · rw [if_neg here, if_neg (Ne.symm here), Array.empty_append]

/-- Further characters join the text. -/
theorem Grafted.appendText (g : Grafted r k dom dom') (childless : dom.children r = #[])
    (c : Char) : Grafted r k dom (dom'.appendChar r c) := by
  obtain ⟨s, found⟩ := g.text
  have last : (dom'.children r).back? = some k := by
    have children := g.children r
    rw [past_of_lt g.order, if_pos rfl, childless] at children
    rw [children, Array.map_empty, Array.append_empty]
    rfl
  have extended : dom'.extend? k c =
      some (dom'.change k fun e => { e with data := .text (c :: s) }) := by
    rw [Dom.extend?, found]
  rw [Dom.appendChar, last, Option.bind_some, extended, Option.getD_some]
  refine ⟨g.order, g.room, ?_, ⟨c :: s, ?_⟩, ?_⟩
  · rw [nextId_change, g.nextId]
  · rw [get?_change, if_pos rfl, found]
    rfl
  · intro n
    rw [get?_change, if_neg (past_ne k n).symm, g.entry]

end Dom

end PageLint.Html
