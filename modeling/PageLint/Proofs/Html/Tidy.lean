import PageLint.Proofs.Html.Nodes

/-!
# Parents and children

Nodes are tidy if every child knows its parent and the document has none. All moves of a node are
alike: it leaves its parent, and may become a child of another (`Dom.Moves`). So what every move
keeps, `Tidy.moves`, is kept by all changes of nodes.
-/

namespace PageLint.Html.Dom

variable {dom dom' : Dom} {n m p r : NodeId}

/-! ### After a change -/

theorem parent?_add (data : NodeData) : (dom.add data).parent? n = dom.parent? n := by
  rw [parent?, parent?, get?_add]
  split
  · rename_i new
    have absent : dom.get? n = none := Array.getElem?_eq_none (Nat.le_of_eq new.symm)
    rw [absent]
    rfl
  · rfl

theorem children_add (data : NodeData) : (dom.add data).children n = dom.children n := by
  rw [children, children, get?_add]
  split
  · rename_i new
    have absent : dom.get? n = none := Array.getElem?_eq_none (Nat.le_of_eq new.symm)
    rw [absent]
    rfl
  · rfl

theorem parent?_change {f : NodeEntry → NodeEntry} (kept : ∀ e, (f e).parent = e.parent) :
    (dom.change n f).parent? m = dom.parent? m := by
  rw [parent?, parent?, get?_change]
  split
  · cases dom.get? m with
    | none => rfl
    | some e => exact kept e
  · rfl

theorem children_change {f : NodeEntry → NodeEntry} (kept : ∀ e, (f e).children = e.children) :
    (dom.change n f).children m = dom.children m := by
  rw [children, children, get?_change]
  split
  · cases dom.get? m with
    | none => rfl
    | some e => exact kept e
  · rfl

theorem parent?_change_children (f : Array NodeId → Array NodeId) :
    (dom.change n fun e => { e with children := f e.children }).parent? m = dom.parent? m :=
  parent?_change fun _ => rfl

theorem children_change_parent (parent : Option NodeId) :
    (dom.change n fun e => { e with parent }).children m = dom.children m :=
  children_change fun _ => rfl

theorem parent?_change_parent (parent : Option NodeId) :
    (dom.change n fun e => { e with parent }).parent? m =
      if n = m then (dom.get? m).bind fun _ => parent else dom.parent? m := by
  rw [parent?, parent?, get?_change]
  split
  · cases dom.get? m <;> rfl
  · rfl

theorem mem_children_change {f : Array NodeId → Array NodeId} {c : NodeId}
    (member : c ∈ (dom.change n fun e => { e with children := f e.children }).children m) :
    (n = m ∧ c ∈ f (dom.children m)) ∨ (n ≠ m ∧ c ∈ dom.children m) := by
  rw [children, get?_change] at member
  split at member
  · rename_i same
    refine .inl ⟨same, ?_⟩
    rw [children]
    cases found : dom.get? m with
    | none =>
      rw [found] at member
      simp at member
    | some e =>
      rw [found] at member
      exact member
  · rename_i other
    exact .inr ⟨other, member⟩

/-! ### Moves -/

/-- Whether a node has left its parent and become a child of `p`, if that is a node, while all other
nodes stay where they are. -/
structure Moves (n : NodeId) (p : Option NodeId) (dom dom' : Dom) : Prop where
  parent : ∀ m, dom'.parent? m = if m = n then p else dom.parent? m
  children : ∀ q c, c ∈ dom'.children q → (c ∈ dom.children q ∧ c ≠ n) ∨ (c = n ∧ p = some q)
  nextId : dom'.nextId = dom.nextId

/-- Whether every child knows its parent, the document has no parent and `r` has no children. -/
structure Tidy (r : NodeId) (dom : Dom) : Prop where
  up : ∀ q c, c ∈ dom.children q → dom.parent? c = some q
  top : dom.parent? document = none
  childless : ∀ c, dom.parent? c ≠ some r

/-- Whether nodes are tidy can be told from those that there are. -/
theorem Tidy.of_lt (up : ∀ q < dom.nextId, ∀ c ∈ (dom.children q).toList, dom.parent? c = some q)
    (top : dom.parent? document = none) (childless : ∀ c < dom.nextId, dom.parent? c ≠ some r) :
    dom.Tidy r where
  up := by
    intro q c member
    refine up q ?_ c (Array.mem_toList_iff.mpr member)
    rw [← get?_isSome]
    cases found : dom.get? q with
    | none =>
      rw [children, found] at member
      exact absurd member (Array.not_mem_empty c)
    | some e => rfl
  top := top
  childless := by
    intro c parent
    obtain ⟨e, found, _⟩ := Option.bind_eq_some_iff.mp parent
    exact childless c (get?_isSome.mp (by rw [found]; rfl)) parent

theorem Tidy.moves (tidy : dom.Tidy r) {p : Option NodeId} (moves : Moves n p dom dom')
    (movable : n ≠ document) (other : p ≠ some r) : dom'.Tidy r where
  up := by
    intro q c member
    rw [moves.parent]
    rcases moves.children q c member with ⟨stays, different⟩ | ⟨rfl, same⟩
    · rw [if_neg different]
      exact tidy.up q c stays
    · rw [if_pos rfl, same]
  top := by
    rw [moves.parent, if_neg movable.symm]
    exact tidy.top
  childless := by
    intro c
    rw [moves.parent]
    split
    · exact other
    · exact tidy.childless c

theorem Tidy.add (tidy : dom.Tidy r) (data : NodeData) : (dom.add data).Tidy r where
  up := by
    intro q c
    rw [children_add, parent?_add]
    exact tidy.up q c
  top := by
    rw [parent?_add]
    exact tidy.top
  childless := by
    intro c
    rw [parent?_add]
    exact tidy.childless c

/-- What a node holds does not matter. -/
theorem Tidy.change (tidy : dom.Tidy r) {f : NodeEntry → NodeEntry}
    (parent : ∀ e, (f e).parent = e.parent) (children : ∀ e, (f e).children = e.children) :
    (dom.change n f).Tidy r where
  up := by
    intro q c
    rw [children_change children, parent?_change parent]
    exact tidy.up q c
  top := by
    rw [parent?_change parent]
    exact tidy.top
  childless := by
    intro c
    rw [parent?_change parent]
    exact tidy.childless c

/-- A child is a node other than the document. -/
theorem Tidy.child (tidy : dom.Tidy r) (member : n ∈ dom.children p) :
    n ≠ document ∧ n < dom.nextId := by
  have up := tidy.up p n member
  constructor
  · rintro rfl
    rw [tidy.top] at up
    cases up
  · rw [← get?_isSome]
    obtain ⟨e, found, _⟩ := Option.bind_eq_some_iff.mp up
    rw [found]
    rfl

theorem Tidy.moves_detach (tidy : dom.Tidy r) (n : NodeId) :
    Moves n none dom (dom.detach n) := by
  cases old : dom.parent? n with
  | none =>
    have same : dom.detach n = dom := by rw [detach, old]
    rw [same]
    refine ⟨?_, ?_, rfl⟩
    · intro m
      split
      · rename_i here
        rw [here, old]
      · rfl
    · intro q c member
      refine .inl ⟨member, ?_⟩
      rintro rfl
      rw [tidy.up q c member] at old
      cases old
  | some p =>
    refine ⟨?_, ?_, nextId_detach n⟩
    · intro m
      rw [detach, old]
      dsimp only
      rw [parent?_change_parent, parent?_change_children (·.filter (· ≠ n))]
      by_cases here : n = m
      · rw [if_pos here, if_pos here.symm]
        exact Option.bind_fun_none _
      · rw [if_neg here, if_neg (Ne.symm here)]
    · intro q c member
      rw [detach, old] at member
      dsimp only at member
      rw [children_change_parent] at member
      rcases mem_children_change (f := (·.filter (· ≠ n))) member with
        ⟨rfl, inside⟩ | ⟨other, inside⟩
      · obtain ⟨inside, different⟩ := Array.mem_filter.mp inside
        exact .inl ⟨inside, by simpa using different⟩
      · refine .inl ⟨inside, ?_⟩
        rintro rfl
        rw [tidy.up q c inside] at old
        exact other (Option.some.inj old).symm

/-- A node that has no parent becomes a child where its entry and those of the children say so. -/
theorem Moves.attach {away : Dom} (moves : Moves n none dom away) (inside : n < dom.nextId)
    {f : Array NodeId → Array NodeId} (adds : ∀ (xs : Array NodeId) c, c ∈ f xs → c ∈ xs ∨ c = n) :
    Moves n (some p) dom ((away.change p fun e => { e with children := f e.children }).change n
      fun e => { e with parent := some p }) where
  parent := by
    intro m
    rw [parent?_change_parent, parent?_change_children f, moves.parent]
    by_cases here : n = m
    · rw [if_pos here, if_pos here.symm]
      have present :
          ((away.change p fun e => { e with children := f e.children }).get? m).isSome := by
        rw [get?_isSome, nextId_change, moves.nextId, ← here]
        exact inside
      obtain ⟨e, found⟩ := Option.isSome_iff_exists.mp present
      rw [found]
      rfl
    · rw [if_neg here, if_neg (Ne.symm here), if_neg (Ne.symm here)]
  children := by
    intro q c member
    rw [children_change_parent] at member
    have old : c ∈ away.children q → c ∈ dom.children q ∧ c ≠ n :=
      fun member => (moves.children q c member).resolve_right fun ⟨_, no⟩ => by cases no
    rcases mem_children_change member with ⟨rfl, added⟩ | ⟨_, stays⟩
    · rcases adds _ c added with stays | rfl
      · exact .inl (old stays)
      · exact .inr ⟨rfl, rfl⟩
    · exact .inl (old stays)
  nextId := by rw [nextId_change, nextId_change, moves.nextId]

theorem Tidy.moves_append (tidy : dom.Tidy r) (p : NodeId) (inside : n < dom.nextId) :
    Moves n (some p) dom (dom.append p n) :=
  (tidy.moves_detach n).attach (f := (·.push n)) inside fun xs c member => by simpa using member

theorem Tidy.moves_insertBefore (tidy : dom.Tidy r) (sibling : NodeId) (inside : n < dom.nextId) :
    ∃ q, Moves n q dom (dom.insertBefore sibling n) ∧
      (q = none ∨ q = (dom.detach n).parent? sibling) := by
  have away := tidy.moves_detach n
  rw [insertBefore]
  dsimp only
  split
  · exact ⟨none, away, .inl rfl⟩
  · rename_i p place
    refine ⟨some p, away.attach (f := fun xs => xs.takeWhile (· ≠ sibling) ++ #[n] ++
      xs.extract (xs.takeWhile (· ≠ sibling)).size xs.size) inside ?_, .inr place.symm⟩
    intro xs c member
    rw [← Array.mem_toList_iff, toList_insertion] at member
    rcases List.mem_append.mp member with inFront | member
    · exact .inl (Array.mem_toList_iff.mp ((List.takeWhile_sublist _).subset inFront))
    · rcases List.mem_cons.mp member with same | behind
      · exact .inr same
      · exact .inl (Array.mem_toList_iff.mp ((List.dropWhile_sublist _).subset behind))

/-! ### Changes that leave `r` in its place -/

/-- Whether nodes are still tidy after some change, none has gone and none that was there before
has become the parent of `r`. -/
structure Keeps (r : NodeId) (dom dom' : Dom) : Prop where
  tidy : dom'.Tidy r
  grows : dom.nextId ≤ dom'.nextId
  place : ∀ q < dom.nextId, r ∈ dom'.children q → r ∈ dom.children q

theorem Keeps.trans {later : Dom} (first : Keeps r dom dom') (second : Keeps r dom' later) :
    Keeps r dom later :=
  ⟨second.tidy, Nat.le_trans first.grows second.grows, fun q old member =>
    first.place q old (second.place q (Nat.lt_of_lt_of_le old first.grows) member)⟩

theorem Moves.keeps (tidy : dom.Tidy r) {p : Option NodeId} (moves : Moves n p dom dom')
    (movable : n ≠ document) (stays : n ≠ r) (other : p ≠ some r) : Keeps r dom dom' := by
  refine ⟨tidy.moves moves movable other, Nat.le_of_eq moves.nextId.symm, ?_⟩
  intro q _ member
  rcases moves.children q r member with ⟨before, _⟩ | ⟨same, _⟩
  · exact before
  · exact absurd same.symm stays

namespace Tidy

variable (tidy : dom.Tidy r)
include tidy

theorem keeps_self : Keeps r dom dom :=
  ⟨tidy, Nat.le_refl _, fun _ _ member => member⟩

theorem keeps_add (data : NodeData) : Keeps r dom (dom.add data) := by
  refine ⟨tidy.add data, by rw [nextId_add]; exact Nat.le_succ _, ?_⟩
  intro q _ member
  rw [children_add] at member
  exact member

theorem keeps_change {f : NodeEntry → NodeEntry} (parent : ∀ e, (f e).parent = e.parent)
    (children : ∀ e, (f e).children = e.children) : Keeps r dom (dom.change n f) := by
  refine ⟨tidy.change parent children, Nat.le_of_eq (nextId_change ..).symm, ?_⟩
  intro q _ member
  rw [children_change children] at member
  exact member

theorem keeps_addAttributes (attributes : List Attribute) :
    Keeps r dom (dom.addAttributes n attributes) := by
  refine tidy.keeps_change ?_ ?_
  all_goals
    intro e
    split <;> rfl

variable (movable : n ≠ document) (stays : n ≠ r)
include movable stays

theorem keeps_detach : Keeps r dom (dom.detach n) :=
  (tidy.moves_detach n).keeps tidy movable stays (by simp)

variable (inside : n < dom.nextId)
include inside

theorem keeps_append (other : p ≠ r) : Keeps r dom (dom.append p n) :=
  (tidy.moves_append p inside).keeps tidy movable stays (by simpa using other)

theorem keeps_insertBefore (sibling : NodeId) : Keeps r dom (dom.insertBefore sibling n) := by
  obtain ⟨q, moves, place⟩ := tidy.moves_insertBefore sibling inside
  refine moves.keeps tidy movable stays ?_
  rcases place with rfl | rfl
  · simp
  · exact (tidy.moves (tidy.moves_detach n) movable (by simp)).childless sibling

end Tidy

/-! ### Insertion -/

def Outside (r : NodeId) : Builder.Place → Prop
  | .lastIn parent => parent ≠ r
  | .before _ outer => outer ≠ r

namespace Tidy

variable (tidy : dom.Tidy r)
include tidy

theorem keeps_put (movable : n ≠ document) (stays : n ≠ r) (inside : n < dom.nextId)
    {place : Builder.Place} (outside : Outside r place) :
    Keeps r dom (Builder.put dom n place) := by
  cases place with
  | lastIn parent => exact tidy.keeps_append movable stays inside outside
  | before table outer =>
    rw [Builder.put]
    split
    · exact tidy.keeps_insertBefore movable stays inside table
    · exact tidy.keeps_append movable stays inside outside

theorem keeps_extend? {c : Char} {d : Dom} (extended : dom.extend? n c = some d) :
    Keeps r dom d := by
  rw [extend?] at extended
  split at extended
  · cases extended
    exact tidy.keeps_change (fun _ => rfl) fun _ => rfl
  · cases extended

variable (known : r < dom.nextId)
include known

/-- A new node may be put anywhere but into `r`. -/
theorem keeps_add_put (data : NodeData) (place : Builder.Place) (outside : Outside r place) :
    Keeps r dom (Builder.put (dom.add data) dom.nextId place) := by
  have added := tidy.keeps_add data
  refine added.trans (added.tidy.keeps_put ?_ (Nat.ne_of_gt known) ?_ outside)
  · exact Nat.ne_of_gt (Nat.lt_of_le_of_lt (Nat.zero_le r) known)
  · rw [nextId_add]
    exact Nat.lt_succ_self _

theorem keeps_create (name : ElementName) (attributes : List Attribute) :
    Keeps r dom (Builder.create dom name attributes) := by
  have added := tidy.keeps_add (.element name attributes)
  rw [Builder.create]
  split
  · have contents := added.tidy.keeps_add_put (Nat.lt_of_lt_of_le known added.grows) .fragment
      (.lastIn dom.nextId) (Nat.ne_of_gt known)
    rw [nextId_add] at contents
    exact added.trans contents
  · exact added

theorem keeps_putChar (c : Char) {place : Builder.Place} (outside : Outside r place) :
    Keeps r dom (Builder.putChar dom c place) := by
  have appended {p : NodeId} (other : p ≠ r) : Keeps r dom (dom.appendChar p c) := by
    rw [appendChar]
    cases joined : ((dom.children p).back?).bind (dom.extend? · c) with
    | none => exact tidy.keeps_add_put known (.text [c]) (.lastIn p) other
    | some d =>
      obtain ⟨last, _, extended⟩ := Option.bind_eq_some_iff.mp joined
      exact tidy.keeps_extend? extended
  cases place with
  | lastIn parent => exact appended outside
  | before table outer =>
    rw [Builder.putChar]
    split
    · rename_i placed
      rw [insertCharBefore]
      cases joined : (dom.previous? table).bind (dom.extend? · c) with
      | none =>
        have added := tidy.keeps_add (.text [c])
        refine added.trans (added.tidy.keeps_insertBefore ?_ (Nat.ne_of_gt known) ?_ table)
        · exact Nat.ne_of_gt (Nat.lt_of_le_of_lt (Nat.zero_le r) known)
        · rw [nextId_add]
          exact Nat.lt_succ_self _
      | some d =>
        obtain ⟨last, _, extended⟩ := Option.bind_eq_some_iff.mp joined
        exact tidy.keeps_extend? extended
    · exact appended outside

end Tidy

/-- All children of a node may go to a new one. -/
theorem Keeps.moveChildren (keeps : Keeps r dom dom') (source : NodeId) {target : NodeId}
    (new : dom.nextId ≤ target) (other : target ≠ r) :
    Keeps r dom (dom'.moveChildren source target) := by
  have moved : Keeps r dom (dom'.moveChildren source target) ∧
      (dom'.moveChildren source target).nextId = dom'.nextId := by
    rw [Dom.moveChildren, ← Array.foldl_toList]
    refine List.foldlRecOn (motive := fun d : Dom => Keeps r dom d ∧ d.nextId = dom'.nextId) _ _
      ⟨keeps, rfl⟩ ?_
    rintro d ⟨before, same⟩ n child
    obtain ⟨movable, inside⟩ := keeps.tidy.child (Array.mem_toList_iff.mp child)
    have moves := before.tidy.moves_append target (same ▸ inside)
    refine ⟨⟨before.tidy.moves moves movable (by simpa using other), ?_, ?_⟩,
      moves.nextId.trans same⟩
    · exact Nat.le_trans before.grows (Nat.le_of_eq moves.nextId.symm)
    · intro q old member
      rcases moves.children q r member with ⟨stays, _⟩ | ⟨_, here⟩
      · exact before.place q old stays
      · exact absurd (Option.some.inj here) (Nat.ne_of_gt (Nat.lt_of_lt_of_le old new))
  exact moved.1

end PageLint.Html.Dom
