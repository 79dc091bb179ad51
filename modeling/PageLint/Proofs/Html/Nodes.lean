import PageLint.Html.Builder.State

/-!
# Nodes after a change

All changes of nodes come down to two: a node is added, or the entry of one is changed. What they
leave of the entries is said here once; `Dom.Each` is a condition on what nodes hold, which moving
nodes about keeps.
-/

namespace PageLint.Html.Dom

variable {dom : Dom} {n m : NodeId}

theorem get?_add (data : NodeData) :
    (dom.add data).get? n = if n = dom.nextId then some { data } else dom.get? n :=
  Array.getElem?_push

theorem get?_change (f : NodeEntry → NodeEntry) :
    (dom.change n f).get? m = if n = m then (dom.get? m).map f else dom.get? m :=
  Array.getElem?_modify

theorem nextId_add (data : NodeData) : (dom.add data).nextId = dom.nextId + 1 :=
  Array.size_push _

theorem nextId_change (f : NodeEntry → NodeEntry) : (dom.change n f).nextId = dom.nextId :=
  Array.size_modify

theorem get?_isSome : (dom.get? n).isSome = true ↔ n < dom.nextId := by
  rw [get?, isSome_getElem?]
  rfl

theorem nextId_detach (n : NodeId) : (dom.detach n).nextId = dom.nextId := by
  rw [detach]
  split
  · rfl
  · rw [nextId_change, nextId_change]

theorem nextId_append (p n : NodeId) : (dom.append p n).nextId = dom.nextId := by
  rw [append, nextId_change, nextId_change, nextId_detach]

theorem nextId_moveChildren (source target : NodeId) :
    (dom.moveChildren source target).nextId = dom.nextId := by
  rw [moveChildren, ← Array.foldl_toList]
  refine List.foldlRecOn (motive := fun d : Dom => d.nextId = dom.nextId) _ _ rfl ?_
  intro d same n _
  rw [nextId_append, same]

/-- The children among which `insertBefore` puts a node, as a list. -/
theorem toList_insertion (xs : Array NodeId) (p : NodeId → Bool) (n : NodeId) :
    (xs.takeWhile p ++ #[n] ++ xs.extract (xs.takeWhile p).size xs.size).toList =
      xs.toList.takeWhile p ++ n :: xs.toList.dropWhile p := by
  have behind := @List.drop_left _ (xs.toList.takeWhile p) (xs.toList.dropWhile p)
  rw [List.takeWhile_append_dropWhile] at behind
  have size : (xs.toList.dropWhile p).length = xs.size - (xs.toList.takeWhile p).length := by
    rw [← behind, List.length_drop, Array.length_toList]
  rw [Array.toList_append, Array.toList_append, Array.toList_takeWhile, Array.toList_extract,
    ← Array.length_toList, Array.toList_takeWhile, List.extract_eq_take_drop, behind,
    List.take_of_length_le (Nat.le_of_eq size), List.append_assoc]
  rfl

/-! ### What nodes hold -/

def Each (P : NodeData → Prop) (dom : Dom) : Prop :=
  ∀ n e, dom.get? n = some e → P e.data

namespace Each

variable {P : NodeData → Prop} (each : dom.Each P)
include each

theorem add (data : NodeData) (holds : P data) : (dom.add data).Each P := by
  intro m e found
  rw [get?_add] at found
  split at found
  · cases found
    exact holds
  · exact each m e found

theorem change {f : NodeEntry → NodeEntry} (kept : ∀ e, P e.data → P (f e).data) :
    (dom.change n f).Each P := by
  intro m e found
  rw [get?_change] at found
  split at found
  · obtain ⟨before, old, rfl⟩ := Option.map_eq_some_iff.mp found
    exact kept before (each m before old)
  · exact each m e found

theorem detach (n : NodeId) : (dom.detach n).Each P := by
  rw [Dom.detach]
  split
  · exact each
  · refine Each.change (Each.change each ?_) ?_
    all_goals exact fun _ holds => holds

theorem append (p n : NodeId) : (dom.append p n).Each P := by
  rw [Dom.append]
  refine Each.change (Each.change (each.detach n) ?_) ?_
  all_goals exact fun _ holds => holds

theorem insertBefore (sibling n : NodeId) : (dom.insertBefore sibling n).Each P := by
  rw [Dom.insertBefore]
  split
  · exact each.detach n
  · refine Each.change (Each.change (each.detach n) ?_) ?_
    all_goals exact fun _ holds => holds

theorem moveChildren (source target : NodeId) : (dom.moveChildren source target).Each P := by
  rw [Dom.moveChildren, ← Array.foldl_toList]
  exact List.foldlRecOn (motive := Dom.Each P) _ _ each fun _ holds n _ => holds.append target n

theorem put (n : NodeId) (place : Builder.Place) : (Builder.put dom n place).Each P := by
  cases place with
  | lastIn parent => exact each.append parent n
  | before table outer =>
    rw [Builder.put]
    split
    · exact each.insertBefore table n
    · exact each.append outer n

variable (texts : ∀ s, P (.text s))
include texts

theorem extend? {d : Dom} {c : Char} (extended : dom.extend? n c = some d) : d.Each P := by
  rw [Dom.extend?] at extended
  split at extended
  · cases extended
    exact each.change fun _ _ => texts _
  · cases extended

theorem appendChar (p : NodeId) (c : Char) : (dom.appendChar p c).Each P := by
  rw [Dom.appendChar]
  cases joined : ((dom.children p).back?).bind (dom.extend? · c) with
  | none => exact (each.add _ (texts [c])).append p _
  | some d =>
    obtain ⟨last, _, extended⟩ := Option.bind_eq_some_iff.mp joined
    exact each.extend? texts extended

theorem insertCharBefore (sibling : NodeId) (c : Char) :
    (dom.insertCharBefore sibling c).Each P := by
  rw [Dom.insertCharBefore]
  cases joined : (dom.previous? sibling).bind (dom.extend? · c) with
  | none => exact (each.add _ (texts [c])).insertBefore sibling _
  | some d =>
    obtain ⟨last, _, extended⟩ := Option.bind_eq_some_iff.mp joined
    exact each.extend? texts extended

theorem putChar (c : Char) (place : Builder.Place) : (Builder.putChar dom c place).Each P := by
  cases place with
  | lastIn parent => exact each.appendChar texts parent c
  | before table outer =>
    rw [Builder.putChar]
    split
    · exact each.insertCharBefore texts table c
    · exact each.appendChar texts outer c

end Each

end PageLint.Html.Dom
